import Mathlib.Data.List.Nodup
import Mathlib.Data.List.Perm.Basic
import MappedMetrics.Proofs.FailedCalls
import MappedMetrics.Proofs.SidecarReading

namespace MappedMetrics.Proofs.SidecarKeys

open MappedMetrics
open MappedMetrics.FileFormat
open MappedMetrics.Proofs.ValueSlots
open MappedMetrics.Proofs.StartedFiles
open MappedMetrics.Proofs.WriterCalls
open MappedMetrics.Proofs.WriterStates
open MappedMetrics.Proofs.SidecarFiles
open MappedMetrics.Proofs.SidecarReading
open MappedMetrics.Proofs.ReadinessMarks
open MappedMetrics.Proofs.FailedCalls

/-- What stands before and behind the first equals sign of a line. -/
def pair? (line : List Char) : Option (String × String) :=
  (Text.splitOnce (· == '=') line).map fun (key, value) => (.ofList key, .ofList value)

/-- The pairs on the lines of a text. -/
def pairs (text : List Char) : List (String × String) :=
  (text.splitOnP (· == '\n')).filterMap pair?

/-- The values that stand under a key. -/
def valuesUnder (key : String) (pairs : List (String × String)) : List String :=
  (pairs.filter (·.1 == key)).map Prod.snd

section Pairs

variable {key value : String} {said : List (String × String)} {x : List Char}

/-- A line break sets apart what stands before it and behind it; all about pairs comes from this. -/
theorem pairs_append_cons (x y : List Char) : pairs (x ++ '\n' :: y) = pairs x ++ pairs y := by
  rw [pairs, List.splitOnP_append_cons x y rfl, List.filterMap_append]
  rfl

theorem pairs_flatMap {α : Type} (entries : List α) (line : α → List Char) :
    pairs (entries.flatMap fun entry => line entry ++ ['\n']) =
      entries.flatMap fun entry => pairs (line entry) := by
  induction entries with
  | nil => rfl
  | cons entry rest ih =>
      rw [List.flatMap_cons, List.flatMap_cons, List.append_assoc, List.singleton_append,
        pairs_append_cons, ih]

theorem splitOnP_append (hx : '\n' ∉ x) (y : List Char) :
    (x ++ y).splitOnP (· == '\n') = (y.splitOnP (· == '\n')).modifyHead (x ++ ·) := by
  obtain ⟨first, rest, hlines⟩ := List.exists_cons_of_ne_nil (List.splitOnP_ne_nil (· == '\n') y)
  induction x with
  | nil => rw [List.nil_append, hlines]; rfl
  | cons c x ih =>
      rw [List.mem_cons, not_or] at hx
      rw [List.cons_append, List.splitOnP_cons_eq_if_modifyHead,
        if_neg (by simpa using Ne.symm hx.1), ih hx.2, hlines]
      rfl

theorem pairs_line (hsign : '=' ∉ x) (hbreak : '\n' ∉ x) (y : List Char) :
    pairs (x ++ '=' :: y) = (.ofList x, .ofList ((y.splitOnP (· == '\n')).headD [])) ::
      (y.splitOnP (· == '\n')).tail.filterMap pair? := by
  have hfront : '\n' ∉ x ++ ['='] := by simp [hbreak]
  have htext : x ++ '=' :: y = x ++ ['='] ++ y := List.append_cons x '=' y
  obtain ⟨first, rest, hlines⟩ := List.exists_cons_of_ne_nil (List.splitOnP_ne_nil (· == '\n') y)
  have hpair : pair? (x ++ ['='] ++ first) = some (.ofList x, .ofList first) := by
    rw [pair?, List.append_assoc, List.singleton_append,
      Text.splitOnce_append_cons (beq_eq_false_of_not_mem hsign) rfl]
    rfl
  rw [pairs, htext, splitOnP_append hfront, hlines, List.modifyHead_cons,
    List.filterMap_cons_some hpair]
  rfl

theorem valuesUnder_append (key : String) (said more : List (String × String)) :
    valuesUnder key (said ++ more) = valuesUnder key said ++ valuesUnder key more := by
  rw [valuesUnder, List.filter_append, List.map_append]
  rfl

theorem valuesUnder_eq_nil (hkey : key ∉ said.map Prod.fst) : valuesUnder key said = [] := by
  rw [valuesUnder, List.map_eq_nil_iff, List.filter_eq_nil_iff]
  rintro pair hmem hsame
  exact hkey (List.mem_map.mpr ⟨pair, hmem, eq_of_beq hsame⟩)

theorem valuesUnder_of_nodup (hnodup : (said.map Prod.fst).Nodup) (hmem : (key, value) ∈ said) :
    valuesUnder key said = [value] := by
  obtain ⟨before, after, rfl⟩ := List.append_of_mem hmem
  rw [List.map_append, List.map_cons, List.nodup_middle, List.nodup_cons, List.mem_append,
    not_or] at hnodup
  obtain ⟨⟨hbefore, hafter⟩, -⟩ := hnodup
  have hself : valuesUnder key ((key, value) :: after) = value :: valuesUnder key after := by
    simp [valuesUnder]
  rw [valuesUnder_append, valuesUnder_eq_nil hbefore, hself, valuesUnder_eq_nil hafter]
  rfl

theorem valuesUnder_flatMap {α : Type} (key : String) (entries : List α)
    (said : α → List (String × String)) :
    valuesUnder key (entries.flatMap said) =
      entries.flatMap fun entry => valuesUnder key (said entry) := by
  rw [valuesUnder, List.filter_flatMap, List.map_flatMap]
  rfl

end Pairs

def headings : List String :=
  ["version", "generation"]

/-- The pairs that a sidecar begins with. -/
def headingPairs (generation : UInt64) : List (String × String) :=
  [("version", "1"), ("generation", toString generation)]

/-- The lines of the name of a metric's type; those of the built-in types have one. -/
def typeLines (metric : Metric) : List (List Char) :=
  metric.handler.typeName.toList.splitOnP (· == '\n')

/-- The pairs on the further lines of the name of a metric's type. -/
def strays (metric : Metric) : List (String × String) :=
  (typeLines metric).tail.filterMap pair?

def strayKeys (metrics : List Metric) : List String :=
  metrics.flatMap fun metric => (strays metric).map Prod.fst

/-- What stands under the name of a metric: the offset and the type, as far as its first line. -/
def described (entry : Metric × Offsets) : String :=
  toString entry.2.value ++ "," ++ String.ofList ((typeLines entry.1).headD [])

def metricPairs (metrics : List Metric) (layout : Layout) : List (String × String) :=
  (metrics.zip layout.offsets).map fun entry => (entry.1.name, described entry)

/-- The keys that names of types bring along are new, and no two are the same. -/
structure Apart (metrics : List Metric) : Prop where
  nodup : (strayKeys metrics).Nodup
  fresh : ∀ key ∈ strayKeys metrics, key ∉ headings ∧ key ∉ metrics.map Metric.name

def sidecarPairs (layout : Layout) (metrics : List Metric) (generation : UInt64) :
    List (String × String) :=
  pairs (Packed.sidecarText layout metrics generation).toList

/-- A sidecar as its keys and values are read. -/
structure Keyed (metrics : List Metric) (layout : Layout) (generation : UInt64) : Prop where
  each : layout.offsets.length = metrics.length
  /-- The heading comes first and then every metric, each with what the name of its type adds. -/
  pairs : sidecarPairs layout metrics generation = headingPairs generation ++
    (metrics.zip layout.offsets).flatMap fun entry =>
      (entry.1.name, described entry) :: strays entry.1
  /-- The name of a type that is one line is given whole and adds nothing. -/
  plain : ∀ entry ∈ metrics.zip layout.offsets, '\n' ∉ entry.1.handler.typeName.toList →
    described entry = s!"{entry.2.value},{entry.1.handler.typeName}" ∧ strays entry.1 = []
  /-- Only a metric named as the heading can repeat a key, unless names of types bring keys. -/
  distinct : ((sidecarPairs layout metrics generation).map Prod.fst).Nodup ↔
    (∀ metric ∈ metrics, metric.name ∉ headings) ∧ Apart metrics
  apart : (∀ metric ∈ metrics, '\n' ∉ metric.handler.typeName.toList) → Apart metrics
  /-- Keys that are all distinct lead to one value each. -/
  read : ((sidecarPairs layout metrics generation).map Prod.fst).Nodup →
    ∀ key value, (key, value) ∈ sidecarPairs layout metrics generation →
      valuesUnder key (sidecarPairs layout metrics generation) = [value]
  /-- A key of the heading is read as long as no metric takes it. -/
  heading : ∀ key value, (key, value) ∈ headingPairs generation →
    key ∉ metrics.map Metric.name → key ∉ strayKeys metrics →
      valuesUnder key (sidecarPairs layout metrics generation) = [value]
  /-- A metric that is not named as the heading is read, whatever the others are named. -/
  beside : ∀ entry ∈ metrics.zip layout.offsets, entry.1.name ∉ headings →
    entry.1.name ∉ strayKeys metrics →
      valuesUnder entry.1.name (sidecarPairs layout metrics generation) = [described entry]
  /-- A metric that is named as the heading stands second under its key. -/
  shadowed : ∀ entry ∈ metrics.zip layout.offsets, ∀ value,
    (entry.1.name, value) ∈ headingPairs generation → entry.1.name ∉ strayKeys metrics →
      valuesUnder entry.1.name (sidecarPairs layout metrics generation) = [value, described entry]

section Lines

variable {entry : Metric × Offsets} {metrics : List Metric} {layout : Layout}

theorem pairs_lineOf (hfit : Fit .legacy entry.1.name) :
    pairs (lineOf entry) = (entry.1.name, described entry) :: strays entry.1 := by
  have hdigits : '\n' ∉ Nat.toDigits 10 entry.2.value.toNat ++ [','] := by
    rw [List.mem_append, not_or]
    exact ⟨not_mem_toDigits (by decide) _, by decide⟩
  obtain ⟨first, rest, hlines⟩ := List.exists_cons_of_ne_nil
    (List.splitOnP_ne_nil (· == '\n') entry.1.handler.typeName.toList)
  have hoffset : toString entry.2.value = .ofList (Nat.toDigits 10 entry.2.value.toNat) :=
    Nat.toString_eq_ofList_toDigits
  rw [lineOf, pairs_line (hfit.unreserved rfl '=' (by simp)) (hfit.unreserved rfl '\n' (by simp)),
    List.append_cons, splitOnP_append hdigits, described, strays, typeLines, hlines,
    String.ofList_toList, List.modifyHead_cons, hoffset]
  simp only [List.headD_cons, List.tail_cons, String.ofList_append]

theorem pairs_generation (generation : UInt64) :
    pairs ("generation=".toList ++ Nat.toDigits 10 generation.toNat) =
      [("generation", toString generation)] := by
  have hdigits : '\n' ∉ Nat.toDigits 10 generation.toNat := not_mem_toDigits (by decide) _
  have hsign : '=' ∉ "generation".toList := by decide
  have hbreak : '\n' ∉ "generation".toList := by decide
  have hline := pairs_line hsign hbreak (Nat.toDigits 10 generation.toNat)
  rw [List.splitOnP_eq_singleton (beq_eq_false_of_not_mem hdigits)] at hline
  have hnumber : toString generation = .ofList (Nat.toDigits 10 generation.toNat) :=
    Nat.toString_eq_ofList_toDigits
  rw [hnumber]
  exact hline

theorem sidecarPairs_eq (hfit : ∀ metric ∈ metrics, Fit .legacy metric.name)
    (layout : Layout) (generation : UInt64) :
    sidecarPairs layout metrics generation = headingPairs generation ++
      (metrics.zip layout.offsets).flatMap fun entry =>
        (entry.1.name, described entry) :: strays entry.1 := by
  have hversion : pairs "version=1".toList = [("version", "1")] := rfl
  have hentries : ∀ entry ∈ metrics.zip layout.offsets,
      pairs (lineOf entry) = (entry.1.name, described entry) :: strays entry.1 :=
    fun entry hmem => pairs_lineOf (hfit entry.1 (List.of_mem_zip hmem).1)
  rw [sidecarPairs, toList_sidecarText, pairs_append_cons, pairs_append_cons, hversion,
    pairs_generation]
  simp only [toList_sidecarLine, pairs_flatMap]
  rw [List.flatMap_congr hentries]
  rfl

theorem keys_eq (hfit : ∀ metric ∈ metrics, Fit .legacy metric.name)
    (heach : layout.offsets.length = metrics.length) (generation : UInt64) :
    (sidecarPairs layout metrics generation).map Prod.fst = headings ++
      metrics.flatMap fun metric => metric.name :: (strays metric).map Prod.fst := by
  have hmetrics : (metrics.zip layout.offsets).map Prod.fst = metrics :=
    List.map_fst_zip heach.ge
  rw [sidecarPairs_eq hfit, List.map_append, List.map_flatMap]
  nth_rewrite 2 [← hmetrics]
  rw [List.flatMap_map]
  rfl

theorem nodup_keys_iff (hfit : ∀ metric ∈ metrics, Fit .legacy metric.name)
    (hnames : (metrics.map Metric.name).Nodup) (heach : layout.offsets.length = metrics.length)
    (generation : UInt64) : ((sidecarPairs layout metrics generation).map Prod.fst).Nodup ↔
      (∀ metric ∈ metrics, metric.name ∉ headings) ∧ Apart metrics := by
  -- The keys that the types bring stand between the names, and only their order differs.
  have hperm : (metrics.map Metric.name ++ strayKeys metrics).Perm
      (metrics.flatMap fun metric => metric.name :: (strays metric).map Prod.fst) :=
    List.map_append_flatMap_perm ..
  have hheadings : headings.Nodup := by decide
  rw [keys_eq hfit heach, ← (hperm.append_left headings).nodup_iff, List.nodup_append',
    List.nodup_append', List.disjoint_append_right]
  simp only [List.disjoint_left]
  constructor
  · rintro ⟨-, ⟨-, hstrays, hbeside⟩, hmetrics, hheading⟩
    refine ⟨fun metric hmem hname => hmetrics hname (List.mem_map_of_mem hmem), hstrays, ?_⟩
    exact fun key hkey => ⟨fun hmem => hheading hmem hkey, fun hmem => hbeside hmem hkey⟩
  · rintro ⟨hmetrics, hstrays, hfresh⟩
    refine ⟨hheadings, ⟨hnames, hstrays, fun key hmem hkey => (hfresh key hkey).2 hmem⟩, ?_,
      fun key hmem hkey => (hfresh key hkey).1 hmem⟩
    intro key hmem hkey
    obtain ⟨metric, hmetric, rfl⟩ := List.mem_map.mp hkey
    exact hmetrics metric hmetric hmem

theorem keys_metricPairs (heach : layout.offsets.length = metrics.length) :
    (metricPairs metrics layout).map Prod.fst = metrics.map Metric.name := by
  have hmetrics : (metrics.zip layout.offsets).map Prod.fst = metrics :=
    List.map_fst_zip heach.ge
  nth_rewrite 2 [← hmetrics]
  rw [metricPairs, List.map_map, List.map_map]
  rfl

theorem valuesUnder_sidecarPairs (hfit : ∀ metric ∈ metrics, Fit .legacy metric.name)
    (layout : Layout) (generation : UInt64) {key : String} (hkey : key ∉ strayKeys metrics) :
    valuesUnder key (sidecarPairs layout metrics generation) =
      valuesUnder key (headingPairs generation) ++
        valuesUnder key (metricPairs metrics layout) := by
  rw [sidecarPairs_eq hfit, metricPairs, valuesUnder_append, List.map_eq_flatMap,
    valuesUnder_flatMap, valuesUnder_flatMap]
  congr 1
  refine List.flatMap_congr fun entry hmem => ?_
  have hstrays : key ∉ (strays entry.1).map Prod.fst := fun hstray =>
    hkey (List.mem_flatMap.mpr ⟨entry.1, (List.of_mem_zip hmem).1, hstray⟩)
  rw [← List.singleton_append, valuesUnder_append, valuesUnder_eq_nil hstrays, List.append_nil]

theorem typeLines_eq {metric : Metric} (hline : '\n' ∉ metric.handler.typeName.toList) :
    typeLines metric = [metric.handler.typeName.toList] :=
  List.splitOnP_eq_singleton (beq_eq_false_of_not_mem hline)

theorem strays_eq_nil {metric : Metric} (hline : '\n' ∉ metric.handler.typeName.toList) :
    strays metric = [] := by
  rw [strays, typeLines_eq hline]
  rfl

theorem described_eq (hline : '\n' ∉ entry.1.handler.typeName.toList) :
    described entry = s!"{entry.2.value},{entry.1.handler.typeName}" := by
  rw [described, typeLines_eq hline, List.headD_cons, String.ofList_toList]
  rfl

theorem apart_of_lines (hlines : ∀ metric ∈ metrics, '\n' ∉ metric.handler.typeName.toList) :
    Apart metrics := by
  have hnone : strayKeys metrics = [] := by
    refine List.flatMap_eq_nil_iff.mpr fun metric hmem => ?_
    rw [strays_eq_nil (hlines metric hmem)]
    rfl
  refine ⟨hnone ▸ List.nodup_nil, fun key hkey => ?_⟩
  rw [hnone] at hkey
  cases hkey

theorem keyed_of_plan (hplan : FileFormat.legacy.plan metrics = .ok layout)
    (hfit : ∀ metric ∈ metrics, Fit .legacy metric.name)
    (hnames : (metrics.map Metric.name).Nodup) (generation : UInt64) :
    Keyed metrics layout generation := by
  have heach := (slotted_of_plan hplan).each
  have hentries : ((metricPairs metrics layout).map Prod.fst).Nodup := by
    rwa [keys_metricPairs heach]
  have hheadings : ((headingPairs generation).map Prod.fst).Nodup :=
    show headings.Nodup by decide
  have hvalue : ∀ entry ∈ metrics.zip layout.offsets, entry.1.name ∉ strayKeys metrics →
      valuesUnder entry.1.name (sidecarPairs layout metrics generation) =
        valuesUnder entry.1.name (headingPairs generation) ++ [described entry] := by
    intro entry hmem hstray
    rw [valuesUnder_sidecarPairs hfit layout generation hstray,
      valuesUnder_of_nodup hentries (List.mem_map_of_mem hmem)]
  refine
    { each := heach
      pairs := sidecarPairs_eq hfit layout generation
      plain := fun entry _ hline => ⟨described_eq hline, strays_eq_nil hline⟩
      distinct := nodup_keys_iff hfit hnames heach generation
      apart := apart_of_lines
      read := fun hnodup key value hmem => valuesUnder_of_nodup hnodup hmem
      heading := fun key value hheading hname hstray => ?_
      beside := fun entry hmem hname hstray => ?_
      shadowed := fun entry hmem value hheading hstray => ?_ }
  · rw [← keys_metricPairs heach] at hname
    rw [valuesUnder_sidecarPairs hfit layout generation hstray,
      valuesUnder_of_nodup hheadings hheading, valuesUnder_eq_nil hname, List.append_nil]
  · rw [hvalue entry hmem hstray, valuesUnder_eq_nil hname, List.nil_append]
  · rw [hvalue entry hmem hstray, valuesUnder_of_nodup hheadings hheading, List.singleton_append]

end Lines

section Writers

variable {writer : Writer} {layout : Layout} {generation : UInt64} {volume : Volume}

theorem keyed_of_agrees (hagrees : Agrees writer) (hformat : writer.format = .legacy)
    (hplan : FileFormat.legacy.plan writer.metrics = .ok layout) (generation : UInt64) :
    Keyed writer.metrics layout generation := by
  have hfit := hagrees.fit
  rw [hformat] at hfit
  exact keyed_of_plan hplan hfit (nodup_names hagrees.indexed) generation

theorem read_sidecar_of_start (hformat : writer.format = .legacy)
    (hplan : FileFormat.legacy.plan writer.metrics = .ok layout)
    (hstart : (writer.start volume generation).result = .ok ()) :
    (writer.start volume generation).volume.read (Packed.sidecarPath writer.path) =
      .ok (.ofBytes (Text.utf8 (Packed.sidecarText layout writer.metrics generation))) := by
  have hbeside : writer.format.sidecar? writer.path layout writer.metrics generation =
      some (Packed.sidecarPath writer.path,
        Packed.sidecarText layout writer.metrics generation) := by
    rw [hformat]
    rfl
  rw [← hformat] at hplan
  obtain ⟨file, image, laid, accompanied, hlaid, haccompanied, hvolume⟩ :=
    laid_of_start hplan hstart
  rw [hvolume]
  exact read_beside hlaid haccompanied hbeside _

end Writers

/-- Whatever calls a writer of packed files has had, its sidecar describes each of its metrics, and
the keys are distinct if and only if no metric is named as a key of the heading and no name of a
type brings a key of its own that is taken. A start leaves that text as the sidecar. -/
theorem keyed_after (path : String) (turns : List Turn) :
    let writer := after (.ofPath path .legacy) turns
    (∀ layout generation, FileFormat.legacy.plan writer.metrics = .ok layout →
      Keyed writer.metrics layout generation) ∧
    ∀ host volume generation, (writer.startOn host volume generation).result = .ok () →
      ∃ layout, Keyed writer.metrics layout generation ∧
        (writer.startOn host volume generation).volume.read (Packed.sidecarPath path) =
          .ok (.ofBytes (Text.utf8 (Packed.sidecarText layout writer.metrics generation))) := by
  intro writer
  have hagrees : Agrees writer := agrees_after (agrees_ofPath path .legacy) turns
  obtain ⟨hpath, hformat⟩ : writer.path = path ∧ writer.format = .legacy :=
    path_after (.ofPath path .legacy) turns
  refine ⟨fun layout generation hplan => keyed_of_agrees hagrees hformat hplan generation, ?_⟩
  intro host volume generation hstart
  have hsame := start_of_startOn hstart
  rw [hsame] at hstart ⊢
  obtain ⟨layout, _, hstarted⟩ := started_of_start hstart
  have hplan : FileFormat.legacy.plan writer.metrics = .ok layout := hformat ▸ hstarted.plan
  refine ⟨layout, keyed_of_agrees hagrees hformat hplan generation, ?_⟩
  rw [← hpath]
  exact read_sidecar_of_start hformat hplan hstart

def versioned : Turn :=
  ⟨.willing, .empty, .addMetric "version" .item .discrete (.u32 2), trivial⟩

/-- A count, and a metric that is named as the first key of the heading. -/
def countAndVersion : Writer :=
  after (.ofPath "m" .legacy) [counted, versioned]

def twoSlots : Layout :=
  ⟨20, [⟨none, none, 12⟩, ⟨none, none, 16⟩], [⟨.values, 12, 2⟩], by decide⟩

theorem plan_countAndVersion :
    FileFormat.legacy.plan countAndVersion.metrics = .ok twoSlots := rfl

theorem write_sidecar_m (image text : Image) :
    Volume.write ⟨[(["m"], .file image)]⟩ "m.txt" text =
      .ok (⟨[(["m"], .file image), (["m.txt"], .file text)]⟩, ["m.txt"]) := by
  have hroute : Volume.route "m.txt" = .ok ⟨.home, [], "m.txt", false⟩ := by
    have hparts : "m.txt".splitOn "/" = ["m.txt"] := by
      rw [splitOn_stroke]
      rfl
    rw [Volume.route, if_neg (by decide), if_neg (by decide), if_neg (by decide), hparts]
    rfl
  rw [Volume.write, hroute]
  rfl

theorem start_countAndVersion : (countAndVersion.start .empty 7).result = .ok () := by
  have hlaid : Laid countAndVersion twoSlots 7 .empty ⟨"m", ["m"], twoSlots.length⟩ _ _ :=
    ⟨⟨_, create_m (show twoSlots.length ≤ Volume.maxLength by decide), rfl⟩, rfl⟩
  exact (start_of_accompanied rfl plan_countAndVersion hlaid ⟨_, write_sidecar_m _ _⟩).1

theorem keyed_countAndVersion :
    FileFormat.legacy.plan countAndVersion.metrics = .ok twoSlots ∧
      Keyed countAndVersion.metrics twoSlots 7 ∧
      (countAndVersion.startOn .willing .empty 7).result = .ok () ∧
      ∃ layout, Keyed countAndVersion.metrics layout 7 ∧
        (countAndVersion.startOn .willing .empty 7).volume.read "m.txt" =
          .ok (.ofBytes (Text.utf8 (Packed.sidecarText layout countAndVersion.metrics 7))) := by
  obtain ⟨hkeyed, hread⟩ := keyed_after "m" [counted, versioned]
  have hstart : (countAndVersion.startOn .willing .empty 7).result = .ok () := by
    rw [startOn_willing]
    exact start_countAndVersion
  exact ⟨plan_countAndVersion, hkeyed twoSlots 7 plan_countAndVersion, hstart,
    hread .willing .empty 7 hstart⟩

/-- A metric is accepted under the name of a key of the heading, and the sidecar has that key
twice. -/
theorem not_nodup_countAndVersion : ¬ ∀ path turns layout generation,
    FileFormat.legacy.plan (after (.ofPath path .legacy) turns).metrics = .ok layout →
      ((sidecarPairs layout (after (.ofPath path .legacy) turns).metrics generation).map
        Prod.fst).Nodup := by
  intro hall
  have hnodup := hall "m" [counted, versioned] twoSlots 7 plan_countAndVersion
  have hagrees : Agrees countAndVersion := agrees_after (agrees_ofPath "m" .legacy) _
  have hnames := ((keyed_of_agrees hagrees rfl plan_countAndVersion 7).distinct.mp hnodup).1
  have hversion : "version" ∈ countAndVersion.metrics.map Metric.name := by decide
  obtain ⟨metric, hmem, hname⟩ := List.mem_map.mp hversion
  refine hnames metric hmem ?_
  rw [hname]
  decide

end MappedMetrics.Proofs.SidecarKeys
