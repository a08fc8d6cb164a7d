import MappedMetrics.Proofs.ReadinessMarks
import MappedMetrics.Proofs.SelfDescription
import MappedMetrics.Proofs.WriterStates

namespace MappedMetrics.Proofs.SidecarReading

open MappedMetrics
open MappedMetrics.FileFormat
open MappedMetrics.Proofs.Spans
open MappedMetrics.Proofs.WriteRuns
open MappedMetrics.Proofs.StructureWrites
open MappedMetrics.Proofs.HandlerEncodings
open MappedMetrics.Proofs.PackedLayout
open MappedMetrics.Proofs.ValueSlots
open MappedMetrics.Proofs.SelfDescription
open MappedMetrics.Proofs.SidecarFiles
open MappedMetrics.Proofs.ReadinessMarks
open MappedMetrics.Proofs.WriterStates

/-- What stands in a line before its first equals sign, and the parts of the rest between commas. -/
def fields? (line : List Char) : Option (List Char × List (List Char)) :=
  (Text.splitOnce (· == '=') line).map fun (name, rest) => (name, rest.splitOnP (· == ','))

/-- The line of a metric without the newline that ends it. -/
def lineOf (entry : Metric × Offsets) : List Char :=
  entry.1.name.toList ++ '=' ::
    (Nat.toDigits 10 entry.2.value.toNat ++ ',' :: entry.1.handler.typeName.toList)

theorem toList_sidecarLine (entry : Metric × Offsets) :
    (Packed.sidecarLine entry.1 entry.2).toList = lineOf entry ++ ['\n'] := by
  have hnumber : (toString entry.2.value).toList = Nat.toDigits 10 entry.2.value.toNat := by
    change (toString entry.2.value.toNat).toList = _
    rw [Nat.toString_eq_repr, Nat.toList_repr]
  rw [Packed.sidecarLine, lineOf]
  simp only [String.toList_append, hnumber, List.append_assoc, List.cons_append]
  rfl

theorem splitOnP_lines {lines : List (List Char)} (hlines : ∀ line ∈ lines, '\n' ∉ line) :
    (lines.flatMap (· ++ ['\n'])).splitOnP (· == '\n') = lines ++ [[]] := by
  induction lines with
  | nil => rfl
  | cons line rest ih =>
      have hrest := ih fun other hmem => hlines other (List.mem_cons_of_mem _ hmem)
      have hline := beq_eq_false_of_not_mem (hlines line List.mem_cons_self)
      rw [List.flatMap_cons, List.append_assoc, List.singleton_append,
        List.splitOnP_append_cons_of_forall_mem hline _ rfl, hrest]
      rfl

theorem not_mem_toDigits {c : Char} (hc : c.isDigit = false) (n : Nat) :
    c ∉ Nat.toDigits 10 n := by
  intro hmem
  have hdigit := Nat.isDigit_of_mem_toDigits (by decide) (by decide) hmem
  rw [hc] at hdigit
  cases hdigit

/-- A metric that a packed file can describe by a line of its sidecar. -/
structure Plain (metric : Metric) : Prop where
  name : FileFormat.legacy.validateName metric.name = .ok ()
  builtIn : BuiltIn metric.handler
  kind : metric.handler.kind = metric.initial.kind

theorem not_mem_typeName {handler : Handler} (hbuiltIn : BuiltIn handler) :
    ',' ∉ handler.typeName.toList ∧ '\n' ∉ handler.typeName.toList := by
  cases hbuiltIn with
  | @numeric kind _ => cases kind <;> decide
  | text width =>
      change ',' ∉ "string".toList ∧ '\n' ∉ "string".toList
      decide

section Lines

variable {entry : Metric × Offsets}

theorem newline_not_mem_lineOf (hplain : Plain entry.1) : '\n' ∉ lineOf entry := by
  have hname := (fit_of_validateName hplain.name).unreserved rfl '\n' (by simp)
  rw [lineOf]
  simp only [List.mem_append, List.mem_cons, not_or]
  refine ⟨hname, by decide, not_mem_toDigits (by decide) _, by decide, ?_⟩
  exact (not_mem_typeName hplain.builtIn).2

theorem fields?_lineOf (hplain : Plain entry.1) :
    fields? (lineOf entry) = some (entry.1.name.toList,
      [Nat.toDigits 10 entry.2.value.toNat, entry.1.handler.typeName.toList]) := by
  have hname := (fit_of_validateName hplain.name).unreserved rfl '=' (by simp)
  have hdigits : ',' ∉ Nat.toDigits 10 entry.2.value.toNat := not_mem_toDigits (by decide) _
  have htype := (not_mem_typeName hplain.builtIn).1
  rw [fields?, lineOf, Text.splitOnce_append_cons (beq_eq_false_of_not_mem hname) rfl,
    Option.map_some]
  dsimp only
  rw [List.splitOnP_append_cons_of_forall_mem (beq_eq_false_of_not_mem hdigits) _ rfl,
    List.splitOnP_eq_singleton (beq_eq_false_of_not_mem htype)]

end Lines

theorem splitOnP_sidecarText {metrics : List Metric} (hplain : ∀ metric ∈ metrics, Plain metric)
    (layout : Layout) (generation : UInt64) :
    (Packed.sidecarText layout metrics generation).toList.splitOnP (· == '\n') =
      "version=1".toList :: ("generation=".toList ++ Nat.toDigits 10 generation.toNat) ::
        ((metrics.zip layout.offsets).map lineOf ++ [[]]) := by
  have hversion : '\n' ∉ "version=1".toList := by decide
  have hgeneration : '\n' ∉ "generation=".toList ++ Nat.toDigits 10 generation.toNat := by
    rw [List.mem_append, not_or]
    exact ⟨by decide, not_mem_toDigits (by decide) _⟩
  have hlines : ∀ line ∈ (metrics.zip layout.offsets).map lineOf, '\n' ∉ line := by
    intro line hmem
    obtain ⟨entry, hentry, rfl⟩ := List.mem_map.mp hmem
    exact newline_not_mem_lineOf (hplain entry.1 (List.of_mem_zip hentry).1)
  have htext : ((metrics.zip layout.offsets).flatMap fun entry =>
      (Packed.sidecarLine entry.1 entry.2).toList) =
      ((metrics.zip layout.offsets).map lineOf).flatMap (· ++ ['\n']) := by
    simp only [toList_sidecarLine, List.flatMap_map]
  rw [toList_sidecarText, htext,
    List.splitOnP_append_cons_of_forall_mem (beq_eq_false_of_not_mem hversion) _ rfl,
    List.splitOnP_append_cons_of_forall_mem (beq_eq_false_of_not_mem hgeneration) _ rfl,
    splitOnP_lines hlines]

section Image

variable {metrics : List Metric} {layout : Layout}

theorem lays_slot_of_plain {entry : Metric × Offsets} (hplain : Plain entry.1)
    (hinside : (slotOf entry).finish ≤ layout.length) :
    Lays (.slot entry.2.value.toNat entry.1.handler entry.1.initial)
      (encoding entry.1.handler entry.1.initial) := by
  apply lays_slot
  · have hlimit : entry.2.value.toNat + entry.1.handler.dataLength.toNat ≤ maxLength :=
      Nat.le_trans hinside layout.length_le
    rw [maxLength] at hlimit
    omega
  · intro held
    exact putBytes_builtIn hplain.builtIn hplain.kind held

theorem lays_of_mem (hplan : FileFormat.legacy.plan metrics = .ok layout)
    (hplain : ∀ metric ∈ metrics, Plain metric) (generation : UInt64) :
    ∀ write ∈ FileFormat.legacy.structureWrites layout metrics generation ++
        [FileFormat.legacy.publishWrite generation],
      (range write).finish ≤ layout.length ∧ ∃ data, Lays write data := by
  have hlength : 9 ≤ layout.length := (stacked_slotOf hplan).2.le
  intro write hmem
  simp only [structureWrites, publishWrite, Packed.header, List.mem_append, List.mem_cons,
    List.not_mem_nil, or_false] at hmem
  rcases hmem with ((rfl | rfl) | hvalue) | rfl
  · refine ⟨?_, _, lays_bytes _ _⟩
    rw [range_wide]
    exact Nat.le_trans (by decide) hlength
  · exact ⟨hlength, _, lays_bytes _ _⟩
  · obtain ⟨entry, hentry, rfl⟩ := List.mem_map.mp hvalue
    have hinside := (slotted_legacy hplan).inside entry hentry
    exact ⟨hinside, _, lays_slot_of_plain (hplain entry.1 (List.of_mem_zip hentry).1) hinside⟩
  · refine ⟨?_, _, lays_bytes _ _⟩
    rw [range_wide]
    exact Nat.le_trans (by decide) hlength

theorem lasting_slot (hplan : FileFormat.legacy.plan metrics = .ok layout) (generation : UInt64)
    {entry : Metric × Offsets} (hentry : entry ∈ metrics.zip layout.offsets) :
    Lasting (FileFormat.legacy.structureWrites layout metrics generation ++
        [FileFormat.legacy.publishWrite generation])
      (.slot entry.2.value.toNat entry.1.handler entry.1.initial) := by
  have hslotted := slotted_legacy hplan
  have hmem : .slot entry.2.value.toNat entry.1.handler entry.1.initial ∈
      FileFormat.legacy.structureWrites layout metrics generation :=
    slot_mem_structureWrites generation hentry
  obtain ⟨before, after, hwrites, hlast⟩ := lasting_of_pairwise (hslotted.follows generation) hmem
    fun _ _ hblank => Write.noConfusion hblank
  refine ⟨before, after ++ [FileFormat.legacy.publishWrite generation], ?_, ?_⟩
  · rw [hwrites, List.append_assoc, List.cons_append]
  · intro later hlater
    rcases List.mem_append.mp hlater with hlater | hmark
    · exact hlast later hlater
    · rw [List.mem_singleton.mp hmark]
      exact hslotted.unmarked generation entry hentry

end Image

/-- The file that the structure and the last mark of a packed file leave in an image. -/
def written (image : Image) (layout : Layout) (metrics : List Metric) (generation : UInt64) :
    Image × Outcome Unit :=
  Write.run image (FileFormat.legacy.structureWrites layout metrics generation ++
    [FileFormat.legacy.publishWrite generation])

/-- A sidecar and a packed file as they are read back. -/
structure ReadBack (metrics : List Metric) (layout : Layout) (generation : UInt64)
    (image : Image) : Prop where
  each : layout.offsets.length = metrics.length
  /-- The text has a line for the version, one for the generation and one for each metric. -/
  lines : ∃ lines, (Packed.sidecarText layout metrics generation).toList.splitOnP (· == '\n') =
      "version=1".toList :: ("generation=".toList ++ Nat.toDigits 10 generation.toNat) ::
        (lines ++ [[]]) ∧
    lines.map fields? = (metrics.zip layout.offsets).map fun entry =>
      some (entry.1.name.toList,
        [Nat.toDigits 10 entry.2.value.toNat, entry.1.handler.typeName.toList])
  ok : (written image layout metrics generation).2 = .ok ()
  /-- At the offset of a metric there is its initial value, whatever the slot held. -/
  values : ∀ entry ∈ metrics.zip layout.offsets, ∀ held, ∃ laid,
    entry.1.handler.putBytes entry.1.handler.dataLength.toNat held entry.1.initial = .ok laid ∧
      Bytes.slice (written image layout metrics generation).1.toBytes entry.2.value.toNat
        entry.1.handler.dataLength.toNat = laid.bytes
  generation : number (written image layout metrics generation).1.toBytes 0 8 = generation.toNat ∧
    generationIn? (Text.utf8 (Packed.sidecarText layout metrics generation)) =
      some (number (written image layout metrics generation).1.toBytes 0 8)

/-- A packed file and its sidecar can be read back, whatever bytes the file had before. -/
theorem readBack_of_plan {metrics : List Metric} {layout : Layout} (generation : UInt64)
    (image : Image) (hplan : FileFormat.legacy.plan metrics = .ok layout)
    (hlength : image.length = layout.length) (hplain : ∀ metric ∈ metrics, Plain metric) :
    ReadBack metrics layout generation image := by
  have hok : (written image layout metrics generation).2 = .ok () := by
    apply run_eq_ok
    rw [hlength]
    exact lays_of_mem hplan hplain generation
  have hmark : number (written image layout metrics generation).1.toBytes 0 8 =
      generation.toNat := by
    have hread := read_run_of_lasting hok ⟨_, [], rfl, fun _ hlater => nomatch hlater⟩
      (lays_publishWrite .legacy generation)
    rw [range_publishWrite] at hread
    exact number_of_read hread generation.toNat_lt
  refine ⟨(slotted_legacy hplan).each, ⟨_, splitOnP_sidecarText hplain layout generation, ?_⟩, hok,
    ?_, hmark, ?_⟩
  · rw [List.map_map]
    apply List.map_congr_left
    intro entry hentry
    exact fields?_lineOf (hplain entry.1 (List.of_mem_zip hentry).1)
  · intro entry hentry held
    have hmetric := hplain entry.1 (List.of_mem_zip hentry).1
    obtain ⟨laid, hput, hbytes⟩ := putBytes_builtIn hmetric.builtIn hmetric.kind held
    refine ⟨laid, hput, ?_⟩
    rw [hbytes]
    exact read_run_of_lasting hok (lasting_slot hplan generation hentry)
      (lays_slot_of_plain hmetric ((slotted_legacy hplan).inside entry hentry))
  · rw [hmark]
    exact generationIn?_sidecarText layout metrics generation

def flagAndCity : List Metric :=
  [⟨"flag", .instant, .item, .numeric .bool, .bool true⟩,
    ⟨"city.été", .discrete, .item, .text 7, .str "Zürich"⟩,
    ⟨"total", .counter, .item, .numeric .i64, .i64 12345678901234⟩]

theorem readBack_flagAndCity : ∃ layout, FileFormat.legacy.plan flagAndCity = .ok layout ∧
    layout.offsets.map Offsets.value = [12, 16, 24] ∧
    (∀ metric ∈ flagAndCity, Plain metric) ∧
    ReadBack flagAndCity layout 42 (.zeros layout.length) := by
  have hplain : ∀ metric ∈ flagAndCity, Plain metric := by
    intro metric hmem
    simp only [flagAndCity, List.mem_cons, List.not_mem_nil, or_false] at hmem
    rcases hmem with rfl | rfl | rfl
    · exact ⟨by decide, .numeric (by decide), rfl⟩
    · exact ⟨by decide, .text 7, rfl⟩
    · exact ⟨by decide, .numeric (by decide), rfl⟩
  have hplan : FileFormat.legacy.plan flagAndCity = .ok
      ⟨32, [⟨none, none, 12⟩, ⟨none, none, 16⟩, ⟨none, none, 24⟩], [⟨.values, 12, 3⟩],
        by decide⟩ := rfl
  exact ⟨_, hplan, rfl, hplain, readBack_of_plan 42 _ hplan rfl hplain⟩

end MappedMetrics.Proofs.SidecarReading
