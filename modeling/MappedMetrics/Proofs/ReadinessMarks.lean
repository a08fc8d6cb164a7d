import MappedMetrics.Proofs.SelfDescription
import MappedMetrics.Proofs.SidecarFiles
import MappedMetrics.Proofs.UpdateFrames

/-!
What a reader may see of a file while it is started. The late mark is written last, so whenever it
agrees with the early one, every other byte is the one that the start leaves.
-/

namespace MappedMetrics.Proofs.ReadinessMarks

open MappedMetrics
open MappedMetrics.FileFormat
open MappedMetrics.Proofs.Spans
open MappedMetrics.Proofs.WriteRuns
open MappedMetrics.Proofs.ValueSlots
open MappedMetrics.Proofs.StartedFiles
open MappedMetrics.Proofs.UpdateFrames
open MappedMetrics.Proofs.SelfDescription
open MappedMetrics.Proofs.SidecarFiles

/-- Where the late mark stands. -/
def mark : FileFormat → Span
  | .legacy => ⟨0, 8⟩
  | .mmv => ⟨16, 8⟩

def lateMark (format : FileFormat) (image : Image) : Nat :=
  number image.toBytes (mark format).start 8

/-- The generation that is written early: in the header, or in the sidecar. -/
def earlyMark? (format : FileFormat) (path : String) (seen : Volume) (image : Image) :
    Option Nat :=
  match format with
  | .legacy => (seen.read (Packed.sidecarPath path)).toOption.bind fun sidecar =>
      generationIn? sidecar.toBytes
  | .mmv => some (number image.toBytes 8 8)

/-- A file looks ready: its marks agree on a generation. -/
def Marked (format : FileFormat) (path : String) (seen : Volume) : Prop :=
  ∃ image, seen.read path = .ok image ∧ lateMark format image ≠ 0 ∧
    earlyMark? format path seen image = some (lateMark format image)

/-- What may be seen of an image while a write to it is under way. Each byte of the range is the old
one, or a zero, or the one that the write leaves; in a slot, where handlers write, it is any. -/
structure Torn (image : Image) (write : Write) (seen : Image) : Prop where
  length : seen.length = image.length
  frame : ∀ i : Nat, ¬ (range write).Holds i → seen.toBytes[i]? = image.toBytes[i]?
  part : (∃ offset handler value, write = .slot offset handler value) ∨
    ∀ i : Nat, seen.toBytes[i]? = image.toBytes[i]? ∨ seen.toBytes[i]? = some 0 ∨
      seen.toBytes[i]? = (Write.run image [write]).1.toBytes[i]?

theorem Torn.refl (image : Image) (write : Write) : Torn image write image :=
  ⟨rfl, fun _ _ => rfl, .inr fun _ => .inl rfl⟩

theorem run_singleton {image : Image} {write : Write} {offset : Nat} {laid : Patch}
    (hpatch : write.patch image = .ok (offset, laid)) :
    Write.run image [write] = (image.lay offset laid, .ok ()) := by
  rw [Write.run_cons, hpatch]
  rfl

theorem Torn.overwrite {image seen : Image} {write : Write} {offset : Nat} {laid : Patch}
    {data : Bytes} (htorn : Torn image write seen)
    (hpatch : write.patch image = .ok (offset, laid))
    (hdata : data <+: laid.bytes ∨ data <+: List.replicate laid.width 0) :
    Torn image write (seen.overwrite offset data) := by
  have hrange := range_of_patch hpatch
  have hwidth : data.length ≤ laid.width := by
    rcases hdata with hhead | hhead
    · exact laid.length_bytes ▸ hhead.length_le
    · have hlength := hhead.length_le
      rwa [List.length_replicate] at hlength
  refine ⟨htorn.length, ?_, htorn.part.imp id fun hpart i => ?_⟩
  · intro i houtside
    rw [hrange] at houtside
    simp only [Span.Holds, Span.finish] at houtside
    rw [Image.getElem?_overwrite, if_neg (by omega)]
    exact htorn.frame i (by rw [hrange]; simp only [Span.Holds, Span.finish]; omega)
  · rw [Image.getElem?_overwrite]
    split
    · rename_i hinside
      have hi : i - offset < data.length := by omega
      rcases hdata with hhead | hhead
      · refine .inr (.inr ?_)
        have hholds : (range write).Holds i := by
          rw [hrange]
          simp only [Span.Holds, Span.finish]
          omega
        rw [run_singleton hpatch, getElem?_of_holds hholds, read_lay_of_patch hpatch, hrange,
          List.prefix_iff_getElem?.mp hhead _ hi, List.getElem?_eq_getElem hi]
      · refine .inr (.inl ?_)
        rw [List.getElem?_eq_getElem hi]
        exact congrArg some (List.eq_of_mem_replicate (hhead.subset (List.getElem_mem hi)))
    · exact hpart i

theorem torn_run (image : Image) (write : Write) :
    Torn image write (Write.run image [write]).1 := by
  refine ⟨Write.length_run image [write], fun i houtside => ?_, .inr fun i => .inr (.inr rfl)⟩
  refine getElem?_run_of_outside fun other hmem => ?_
  rwa [List.mem_singleton.mp hmem]

/-- Nothing but zeros stands where the late mark is to be. -/
def Unmarked (format : FileFormat) (image : Image) : Prop :=
  ∀ i byte, (mark format).Holds i → image.toBytes[i]? = some byte → byte = 0

/-- A write goes nowhere near the late mark, or leaves zeros there. -/
def Clears (format : FileFormat) (write : Write) : Prop :=
  (range write).Apart (mark format) ∨
    (∀ offset handler value, write ≠ .slot offset handler value) ∧
      Lays write (List.replicate (range write).length 0)

theorem toNat_eq_zero {bytes : Bytes} (hzeros : ∀ byte ∈ bytes, byte = 0) :
    Bytes.toNat bytes = 0 := by
  induction bytes with
  | nil => rfl
  | cons byte rest ih =>
      obtain ⟨rfl, hrest⟩ := List.forall_mem_cons.mp hzeros
      rw [Bytes.toNat, ih hrest]
      rfl

theorem lateMark_eq_zero {format : FileFormat} {image : Image} (hunmarked : Unmarked format image) :
    lateMark format image = 0 := by
  refine toNat_eq_zero fun byte hmem => ?_
  obtain ⟨i, hi⟩ := List.mem_iff_getElem?.mp hmem
  have hlength : (mark format).length = 8 := by cases format <;> rfl
  rw [Bytes.slice, List.getElem?_take, List.getElem?_drop] at hi
  split at hi
  · rename_i hwithin
    refine hunmarked _ byte ⟨Nat.le_add_right _ i, ?_⟩ hi
    rw [Span.finish, hlength]
    exact Nat.add_lt_add_left hwithin _
  · cases hi

theorem unmarked_zeros (format : FileFormat) (length : Nat) : Unmarked format (.zeros length) := by
  intro i byte _ hbyte
  rw [Image.zeros, Image.toBytes_uniform] at hbyte
  exact List.eq_of_mem_replicate (List.mem_of_getElem? hbyte)

theorem Torn.unmarked {format : FileFormat} {image seen : Image} {write : Write}
    (htorn : Torn image write seen) (hclears : Clears format write)
    (hunmarked : Unmarked format image) : Unmarked format seen := by
  intro i byte hmark hbyte
  rcases hclears with hapart | ⟨hnever, hlays⟩
  · rw [htorn.frame i (hapart.symm.not_holds hmark)] at hbyte
    exact hunmarked i byte hmark hbyte
  · rcases htorn.part with ⟨offset, handler, value, hslot⟩ | hpart
    · exact absurd hslot (hnever offset handler value)
    · rcases hpart i with hold | hzero | hlaid
      · exact hunmarked i byte hmark (hold ▸ hbyte)
      · rw [hzero] at hbyte
        exact (Option.some.inj hbyte).symm
      · rw [hlaid, Write.run_cons] at hbyte
        split at hbyte
        · rename_i offset laid hpatch
          change (image.lay offset laid).toBytes[i]? = some byte at hbyte
          by_cases hholds : (range write).Holds i
          · rw [getElem?_of_holds hholds, read_lay_of_patch hpatch,
              bytes_of_lays hlays hpatch] at hbyte
            exact List.eq_of_mem_replicate (List.mem_of_getElem? hbyte)
          · rw [getElem?_lay_of_patch hpatch hholds] at hbyte
            exact hunmarked i byte hmark hbyte
        · exact hunmarked i byte hmark hbyte

theorem unmarked_run {format : FileFormat} {image : Image} {writes : List Write}
    (hclears : ∀ write ∈ writes, Clears format write) (hunmarked : Unmarked format image) :
    Unmarked format (Write.run image writes).1 := by
  induction writes generalizing image with
  | nil => exact hunmarked
  | cons write rest ih =>
      obtain ⟨hfirst, hrest⟩ := List.forall_mem_cons.mp hclears
      have hnext := (torn_run image write).unmarked hfirst hunmarked
      rw [Write.run_cons]
      split
      · rename_i hpatch
        rw [run_singleton hpatch] at hnext
        exact ih hrest hnext
      · exact hunmarked

theorem range_publishWrite (format : FileFormat) (generation : UInt64) :
    range (format.publishWrite generation) = mark format := by
  cases format <;> exact StructureWrites.range_wide _ _

theorem lays_publishWrite (format : FileFormat) (generation : UInt64) :
    Lays (format.publishWrite generation) (Bytes.ofNat 8 generation.toNat) := by
  cases format <;> exact lays_bytes _ _

theorem clears_blank {format : FileFormat} (offset width : Nat) :
    Clears format (.blank offset width) :=
  .inr ⟨fun _ _ _ hslot => Write.noConfusion hslot, lays_blank offset width⟩

theorem clears_publishWrite_zero (format : FileFormat) : Clears format (format.publishWrite 0) := by
  refine .inr ⟨?_, ?_⟩
  · cases format <;> exact fun _ _ _ hslot => Write.noConfusion hslot
  · rw [range_publishWrite]
    cases format <;> exact lays_publishWrite _ 0

theorem clears_of_mem {format : FileFormat} {metrics : List Metric} {layout : Layout}
    (hplan : format.plan metrics = .ok layout) {generation : UInt64} {write : Write}
    (hmem : write ∈ format.structureWrites layout metrics generation) : Clears format write := by
  have hfollows := (slotted_of_plan hplan).follows generation
  have hzero : format.publishWrite 0 ∈ format.structureWrites layout metrics generation := by
    cases format <;> simp [publishWrite, structureWrites, Packed.header, Described.header]
  -- The zero is one of the writes, and no two of them go to the same place but for blanks.
  obtain ⟨before, after, hwrites⟩ := List.append_of_mem hzero
  rw [hwrites] at hfollows hmem
  obtain ⟨_, hrest, hcross⟩ := List.pairwise_append.mp hfollows
  have hmark := range_publishWrite format 0
  rcases List.mem_append.mp hmem with hbefore | hmem
  · rcases hcross write hbefore _ List.mem_cons_self with ⟨offset, width, rfl⟩ | hapart
    · exact clears_blank offset width
    · exact .inl (hmark ▸ hapart)
  · rcases List.mem_cons.mp hmem with rfl | hafter
    · exact clears_publishWrite_zero format
    · rcases (List.pairwise_cons.mp hrest).1 write hafter with ⟨_, _, hblank⟩ | hapart
      · cases format <;> cases hblank
      · exact .inl (hmark ▸ hapart.symm)

theorem finish_mark_le {format : FileFormat} {metrics : List Metric} {layout : Layout}
    (hplan : format.plan metrics = .ok layout) : (mark format).finish ≤ layout.length := by
  cases format with
  | legacy => exact Nat.le_of_succ_le (PackedLayout.stacked_slotOf hplan).2.le
  | mmv =>
      have hexact := SelfDescribingLayout.exact_of_plan hplan
      have hzero : .wide 16 0 ∈
          StructureWrites.writesAt layout 0 (StructureWrites.entries metrics) := by
        simp [StructureWrites.writesAt, Described.header]
      have hfinish := StructureWrites.range_finish_le hexact hzero
      rwa [StructureWrites.range_wide] at hfinish

section Moments

variable (writer : Writer) (layout : Layout) (generation : UInt64) (volume : Volume)

/-- All but the late mark is written into the file. -/
structure Laid (file : MappedFile) (image : Image) (laid : Volume) : Prop where
  created : ∃ made, MappedFile.create volume writer.path layout.length = (made, .ok file) ∧
    laid = file.replace made image
  written : Write.run (.zeros layout.length)
    (writer.format.structureWrites layout writer.metrics generation) = (image, .ok ())

def sidecarBytes? : Option (String × Bytes) :=
  (writer.format.sidecar? writer.path layout writer.metrics generation).map
    fun sidecar => (sidecar.1, Text.utf8 sidecar.2)

/-- The sidecar, if there is to be one, has given bytes. -/
def Accompanied (sidecar : Option (String × Bytes)) (laid accompanied : Volume) : Prop :=
  match sidecar with
  | none => accompanied = laid
  | some (path, text) => ∃ place, laid.write path (.ofBytes text) = .ok (accompanied, place)

/-- What there is of the files at some moment of a start, once the file is emptied. -/
inductive Moment : Volume → Prop
  | emptied {made : Volume} {place : Place}
      (hmade : volume.write writer.path (.zeros 0) = .ok (made, place)) : Moment made
  | laying {made : Volume} {file : MappedFile} {before after : List Write} {write : Write}
      {image seen : Image}
      (hcreate : MappedFile.create volume writer.path layout.length = (made, .ok file))
      (hwrites : writer.format.structureWrites layout writer.metrics generation =
        before ++ write :: after)
      (hbefore : Write.run (.zeros layout.length) before = (image, .ok ()))
      (htorn : Torn image write seen) : Moment (file.replace made seen)
  | laid {file : MappedFile} {image : Image} {laid : Volume}
      (hlaid : Laid writer layout generation volume file image laid) : Moment laid
  | describing {file : MappedFile} {image : Image} {laid seen : Volume} {path : String}
      {text head : Bytes} (hlaid : Laid writer layout generation volume file image laid)
      (hsidecar : sidecarBytes? writer layout generation = some (path, text))
      (hhead : head <+: text) (hseen : Accompanied (some (path, head)) laid seen) : Moment seen
  | marking {file : MappedFile} {image seen : Image} {laid accompanied : Volume}
      (hlaid : Laid writer layout generation volume file image laid)
      (haccompanied : Accompanied (sidecarBytes? writer layout generation) laid accompanied)
      (htorn : Torn image (writer.format.publishWrite generation) seen) :
      Moment (file.replace accompanied seen)

end Moments

section Start

variable {writer : Writer} {layout : Layout} {generation : UInt64} {volume : Volume}
  {file : MappedFile} {image : Image} {laid accompanied : Volume}

theorem Laid.stands (hlaid : Laid writer layout generation volume file image laid) :
    Stands laid writer.path file.place image := by
  obtain ⟨⟨made, hcreate, rfl⟩, _⟩ := hlaid
  exact (stands_of_create hcreate).put_self image

theorem Laid.length (hlaid : Laid writer layout generation volume file image laid) :
    image.length = layout.length := by
  have hlength := congrArg (fun result => result.1.length) hlaid.written
  rw [← hlength, Write.length_run]
  rfl

theorem Laid.unmarked (hplan : writer.format.plan writer.metrics = .ok layout)
    (hlaid : Laid writer layout generation volume file image laid) :
    Unmarked writer.format image := by
  have hclears : ∀ write ∈ writer.format.structureWrites layout writer.metrics generation,
      Clears writer.format write := fun write hmem => clears_of_mem hplan hmem
  have hrun := unmarked_run hclears (unmarked_zeros writer.format layout.length)
  rwa [hlaid.written] at hrun

theorem path_of_sidecarBytes? {path : String} {text : Bytes}
    (hsidecar : sidecarBytes? writer layout generation = some (path, text)) :
    path = Packed.sidecarPath writer.path := by
  cases hformat : writer.format with
  | legacy =>
      rw [sidecarBytes?, hformat] at hsidecar
      exact (congrArg Prod.fst (Option.some.inj hsidecar)).symm
  | mmv =>
      rw [sidecarBytes?, hformat] at hsidecar
      cases hsidecar

theorem Laid.stands_beside {head : Bytes} {seen : Volume}
    (hlaid : Laid writer layout generation volume file image laid)
    (hseen : Accompanied (some (Packed.sidecarPath writer.path, head)) laid seen) :
    Stands seen writer.path file.place image ∧
      ∃ beside, Stands seen (Packed.sidecarPath writer.path) beside (.ofBytes head) := by
  obtain ⟨beside, hwrite⟩ := hseen
  exact ⟨hlaid.stands.write_sidecar hwrite, beside, stands_of_write hwrite⟩

theorem Laid.stands_accompanied (hlaid : Laid writer layout generation volume file image laid)
    (haccompanied : Accompanied (sidecarBytes? writer layout generation) laid accompanied) :
    Stands accompanied writer.path file.place image := by
  cases hsidecar : sidecarBytes? writer layout generation with
  | none =>
      rw [hsidecar] at haccompanied
      exact haccompanied ▸ hlaid.stands
  | some sidecar =>
      obtain ⟨path, text⟩ := sidecar
      obtain rfl := path_of_sidecarBytes? hsidecar
      exact (hlaid.stands_beside (hsidecar ▸ haccompanied)).1

theorem Laid.run_publishWrite (hplan : writer.format.plan writer.metrics = .ok layout)
    (hlaid : Laid writer layout generation volume file image laid) :
    (Write.run image [writer.format.publishWrite generation]).2 = .ok () := by
  refine run_eq_ok fun write hmem => ?_
  rw [List.mem_singleton.mp hmem, range_publishWrite, hlaid.length]
  exact ⟨finish_mark_le hplan, _, lays_publishWrite writer.format generation⟩

theorem start_of_accompanied (hphase : writer.phase = .unstarted)
    (hplan : writer.format.plan writer.metrics = .ok layout)
    (hlaid : Laid writer layout generation volume file image laid)
    (haccompanied : Accompanied (sidecarBytes? writer layout generation) laid accompanied) :
    (writer.start volume generation).result = .ok () ∧
      (writer.start volume generation).volume =
        file.replace accompanied (Write.run image [writer.format.publishWrite generation]).1 := by
  have hmark := hlaid.run_publishWrite hplan
  obtain ⟨⟨made, hcreate, rfl⟩, hrun⟩ := hlaid
  obtain ⟨_, _, hzeros⟩ := create_ok hcreate
  have hpublish : ∃ sidecar, writer.publish volume layout generation =
      (file.replace accompanied (Write.run image [writer.format.publishWrite generation]).1,
        .ok (file, sidecar)) := by
    simp only [Writer.publish, hcreate, hzeros, hrun]
    rw [sidecarBytes?] at haccompanied
    cases hsidecar : writer.format.sidecar? writer.path layout writer.metrics generation with
    | none =>
        rw [hsidecar] at haccompanied
        obtain rfl : accompanied = _ := haccompanied
        refine ⟨none, ?_⟩
        simp only [hmark]
        rfl
    | some sidecar =>
        rw [hsidecar] at haccompanied
        obtain ⟨place, hwrite⟩ := haccompanied
        refine ⟨some sidecar.1, ?_⟩
        simp only [hwrite, hmark]
        rfl
  obtain ⟨sidecar, hpublish⟩ := hpublish
  simp only [Writer.start, Writer.startBy, hphase, hplan, hpublish]
  exact ⟨trivial, trivial⟩

theorem accompanied_or_refused (hphase : writer.phase = .unstarted)
    (hplan : writer.format.plan writer.metrics = .ok layout)
    (hlaid : Laid writer layout generation volume file image laid) :
    (∃ accompanied, Accompanied (sidecarBytes? writer layout generation) laid accompanied) ∨
      (writer.start volume generation).result ≠ .ok () ∧
        (writer.start volume generation).volume = laid := by
  obtain ⟨⟨made, hcreate, rfl⟩, hrun⟩ := hlaid
  obtain ⟨_, _, hzeros⟩ := create_ok hcreate
  cases hsidecar : writer.format.sidecar? writer.path layout writer.metrics generation with
  | none =>
      refine .inl ⟨file.replace made image, ?_⟩
      rw [sidecarBytes?, hsidecar]
      exact rfl
  | some sidecar =>
      cases hwrite : (file.replace made image).write sidecar.1
          (.ofBytes (Text.utf8 sidecar.2)) with
      | error flaw =>
          refine .inr ?_
          simp only [Writer.start, Writer.startBy, hphase, hplan, Writer.publish, hcreate, hzeros,
            hrun, hsidecar, hwrite]
          constructor
          · intro hok
            cases hok
          · rfl
      | ok written =>
          refine .inl ⟨written.1, ?_⟩
          rw [sidecarBytes?, hsidecar]
          exact ⟨written.2, hwrite⟩

/-- A start writes the whole file and its sidecar, or it fails and leaves what there was at some
moment before that. -/
theorem start_cases (hphase : writer.phase = .unstarted)
    (hplan : writer.format.plan writer.metrics = .ok layout) :
    (∃ file image laid accompanied, Laid writer layout generation volume file image laid ∧
        Accompanied (sidecarBytes? writer layout generation) laid accompanied) ∨
      (writer.start volume generation).result ≠ .ok () ∧
        ∀ emptied place, volume.write writer.path (.zeros 0) = .ok (emptied, place) →
          Moment writer layout generation volume (writer.start volume generation).volume := by
  -- A step that fails leaves the files as the steps before it left them.
  rcases hcreate : MappedFile.create volume writer.path layout.length with ⟨made, fault | file⟩
  · right
    simp only [Writer.start, Writer.startBy, hphase, hplan, Writer.publish, hcreate]
    constructor
    · intro hok
      cases hok
    · intro emptied place hmade
      simp only [MappedFile.create, hmade] at hcreate
      split at hcreate
      · cases hcreate
        exact .emptied hmade
      · cases hcreate
  · obtain ⟨_, _, hzeros⟩ := create_ok hcreate
    rcases hrun : Write.run (.zeros layout.length)
      (writer.format.structureWrites layout writer.metrics generation) with ⟨image, fault | _⟩
    · right
      obtain ⟨before, write, after, hwrites, hbefore, _⟩ := exists_patch_of_run hrun
      simp only [Writer.start, Writer.startBy, hphase, hplan, Writer.publish, hcreate, hzeros, hrun]
      constructor
      · intro hok
        cases hok
      · exact fun _ _ _ => .laying hcreate hwrites hbefore (.refl _ _)
    · have hlaid : Laid writer layout generation volume file image (file.replace made image) :=
        ⟨⟨made, hcreate, rfl⟩, hrun⟩
      rcases accompanied_or_refused hphase hplan hlaid with
        ⟨accompanied, haccompanied⟩ | ⟨hfailed, hvolume⟩
      · exact .inl ⟨file, image, _, accompanied, hlaid, haccompanied⟩
      · exact .inr ⟨hfailed, fun _ _ _ => hvolume ▸ .laid hlaid⟩

theorem not_marked {path : String} {place : Place} {seen : Volume}
    (hstands : Stands seen path place image) (hunmarked : Unmarked writer.format image) :
    ¬ Marked writer.format path seen := by
  rintro ⟨found, hread, hmark, _⟩
  rw [hstands.read] at hread
  cases hread
  exact hmark (lateMark_eq_zero hunmarked)

/-- Files in which every byte but those of the late mark is the one that the start leaves. -/
structure Settled (writer : Writer) (layout : Layout) (generation : UInt64)
    (seen last : Volume) : Prop where
  data : ∃ image final, seen.read writer.path = .ok image ∧ last.read writer.path = .ok final ∧
    image.length = final.length ∧ ∀ i : Nat, ¬ (mark writer.format).Holds i →
      image.toBytes[i]? = final.toBytes[i]?
  sidecar : ∀ path text,
    writer.format.sidecar? writer.path layout writer.metrics generation = some (path, text) →
      seen.read path = .ok (.ofBytes (Text.utf8 text)) ∧
      last.read path = .ok (.ofBytes (Text.utf8 text))

theorem read_beside {path text : String}
    (hlaid : Laid writer layout generation volume file image laid)
    (haccompanied : Accompanied (sidecarBytes? writer layout generation) laid accompanied)
    (hsidecar : writer.format.sidecar? writer.path layout writer.metrics generation =
      some (path, text)) (seen : Image) :
    (file.replace accompanied seen).read path = .ok (.ofBytes (Text.utf8 text)) := by
  have hbytes : sidecarBytes? writer layout generation = some (path, Text.utf8 text) := by
    rw [sidecarBytes?, hsidecar]
    rfl
  rw [hbytes] at haccompanied
  obtain rfl := path_of_sidecarBytes? hbytes
  obtain ⟨hstands, beside, hbeside⟩ := hlaid.stands_beside haccompanied
  exact (hbeside.put_other hstands seen (hstands.ne_sidecar hbeside).symm).read

/-- Once the late mark is under way, all the rest is there. -/
theorem settled_of_marking (hlaid : Laid writer layout generation volume file image laid)
    (haccompanied : Accompanied (sidecarBytes? writer layout generation) laid accompanied)
    {seen final : Image} (hseen : Torn image (writer.format.publishWrite generation) seen)
    (hfinal : Torn image (writer.format.publishWrite generation) final) :
    Settled writer layout generation (file.replace accompanied seen)
      (file.replace accompanied final) := by
  -- The late mark is the only write under way, and it is outside everything else.
  have hstands := hlaid.stands_accompanied haccompanied
  constructor
  · refine ⟨seen, final, (hstands.put_self seen).read, (hstands.put_self final).read, ?_, ?_⟩
    · rw [hseen.length, hfinal.length]
    · intro i houtside
      rw [← range_publishWrite writer.format generation] at houtside
      rw [hseen.frame i houtside, hfinal.frame i houtside]
  · intro path text hsidecar
    constructor
    · exact read_beside hlaid haccompanied hsidecar seen
    · exact read_beside hlaid haccompanied hsidecar final

theorem Laid.read_late (hplan : writer.format.plan writer.metrics = .ok layout)
    (hlaid : Laid writer layout generation volume file image laid) :
    read (Write.run image [writer.format.publishWrite generation]).1 (mark writer.format) =
      Bytes.ofNat 8 generation.toNat := by
  have hlasting : Lasting [writer.format.publishWrite generation]
      (writer.format.publishWrite generation) :=
    ⟨[], [], rfl, fun _ hlater => absurd hlater List.not_mem_nil⟩
  have hread := read_run_of_lasting (hlaid.run_publishWrite hplan) hlasting
    (lays_publishWrite writer.format generation)
  rwa [range_publishWrite] at hread

theorem Laid.read_early (hplan : writer.format.plan writer.metrics = .ok layout)
    (hlaid : Laid writer layout generation volume file image laid)
    (hformat : writer.format = .mmv) :
    read (Write.run image [writer.format.publishWrite generation]).1 ⟨8, 8⟩ =
      Bytes.ofNat 8 generation.toNat := by
  have hearly : .wide 8 generation ∈
      writer.format.structureWrites layout writer.metrics generation := by
    rw [hformat]
    simp [structureWrites, Described.header]
  have hlasting := lasting_of_pairwise ((slotted_of_plan hplan).follows generation) hearly
    fun _ _ hblank => Write.noConfusion hblank
  have hread := read_run_of_lasting (congrArg Prod.snd hlaid.written) hlasting (lays_bytes _ _)
  rw [hlaid.written, StructureWrites.range_wide] at hread
  have hapart : ∀ write ∈ [writer.format.publishWrite generation],
      (range write).Apart ⟨8, 8⟩ := by
    intro write hmem
    rw [List.mem_singleton.mp hmem, range_publishWrite, hformat]
    exact .inr (by decide)
  rwa [read_run_of_apart hapart]

theorem earlyMark?_eq (hplan : writer.format.plan writer.metrics = .ok layout)
    (hlaid : Laid writer layout generation volume file image laid)
    (haccompanied : Accompanied (sidecarBytes? writer layout generation) laid accompanied) :
    let final := (Write.run image [writer.format.publishWrite generation]).1
    earlyMark? writer.format writer.path (file.replace accompanied final) final =
      some generation.toNat := by
  intro final
  cases hformat : writer.format with
  | legacy =>
      have hsidecar : writer.format.sidecar? writer.path layout writer.metrics generation =
          some (Packed.sidecarPath writer.path,
            Packed.sidecarText layout writer.metrics generation) := by
        rw [hformat]
        rfl
      simp only [earlyMark?, read_beside hlaid haccompanied hsidecar, Except.toOption,
        Option.bind_some, Image.toBytes_ofBytes, generationIn?_sidecarText]
  | mmv =>
      exact congrArg some (number_of_read (hlaid.read_early hplan hformat) generation.toNat_lt)

theorem marked_of_accompanied (hplan : writer.format.plan writer.metrics = .ok layout)
    (hlaid : Laid writer layout generation volume file image laid)
    (haccompanied : Accompanied (sidecarBytes? writer layout generation) laid accompanied)
    (hgeneration : generation ≠ 0) :
    Marked writer.format writer.path (file.replace accompanied
      (Write.run image [writer.format.publishWrite generation]).1) := by
  have hlate : lateMark writer.format
      (Write.run image [writer.format.publishWrite generation]).1 = generation.toNat := by
    have hread := hlaid.read_late hplan
    have hspan : mark writer.format = ⟨(mark writer.format).start, 8⟩ := by
      cases writer.format <;> rfl
    rw [hspan] at hread
    rw [lateMark, number_of_read hread generation.toNat_lt]
  refine ⟨_, ((hlaid.stands_accompanied haccompanied).put_self _).read, ?_, ?_⟩
  · rw [hlate]
    exact fun hzero => hgeneration (UInt64.toNat_inj.mp hzero)
  · rw [hlate]
    exact earlyMark?_eq hplan hlaid haccompanied

theorem moment_of_start (hphase : writer.phase = .unstarted)
    (hplan : writer.format.plan writer.metrics = .ok layout) {emptied : Volume} {place : Place}
    (hmade : volume.write writer.path (.zeros 0) = .ok (emptied, place)) :
    Moment writer layout generation volume (writer.start volume generation).volume := by
  rcases start_cases hphase hplan with
    ⟨file, image, laid, accompanied, hlaid, haccompanied⟩ | ⟨_, hmoment⟩
  · rw [(start_of_accompanied hphase hplan hlaid haccompanied).2]
    exact .marking hlaid haccompanied (torn_run _ _)
  · exact hmoment _ _ hmade

theorem settled_of_marked (hphase : writer.phase = .unstarted)
    (hplan : writer.format.plan writer.metrics = .ok layout) {seen : Volume}
    (hmoment : Moment writer layout generation volume seen)
    (hmarked : Marked writer.format writer.path seen) :
    (writer.start volume generation).result = .ok () ∧
      Settled writer layout generation seen (writer.start volume generation).volume := by
  cases hmoment with
  | emptied hmade =>
      exact absurd hmarked (not_marked (stands_of_write hmade) (unmarked_zeros _ _))
  | @laying _ _ before after write image partly hcreate hwrites hbefore htorn =>
      have hclears : ∀ other ∈ before ++ write :: after, Clears writer.format other := by
        intro other hmem
        exact clears_of_mem hplan (hwrites ▸ hmem)
      have himage := unmarked_run
        (fun other hmem => hclears other (List.mem_append_left _ hmem))
        (unmarked_zeros writer.format layout.length)
      rw [hbefore] at himage
      have hwrite := hclears write (List.mem_append_right _ List.mem_cons_self)
      have hstands := (stands_of_create hcreate).put_self partly
      exact absurd hmarked (not_marked hstands (htorn.unmarked hwrite himage))
  | laid hlaid => exact absurd hmarked (not_marked hlaid.stands (hlaid.unmarked hplan))
  | describing hlaid hsidecar _ hseen =>
      obtain rfl := path_of_sidecarBytes? hsidecar
      obtain ⟨hstands, _⟩ := hlaid.stands_beside hseen
      exact absurd hmarked (not_marked hstands (hlaid.unmarked hplan))
  | marking hlaid haccompanied htorn =>
      obtain ⟨hresult, hvolume⟩ := start_of_accompanied hphase hplan hlaid haccompanied
      rw [hvolume]
      exact ⟨hresult, settled_of_marking hlaid haccompanied htorn (torn_run _ _)⟩

end Start

/-- What may be seen of a file while it is started, and what is left of it in the end. -/
structure ReadyLast (writer : Writer) (layout : Layout) (generation : UInt64) (volume : Volume) :
    Prop where
  /-- The first bytes of any write may be there without the others. -/
  laying : ∀ {made file before write after image offset laid data},
    MappedFile.create volume writer.path layout.length = (made, .ok file) →
    writer.format.structureWrites layout writer.metrics generation = before ++ write :: after →
    Write.run (.zeros layout.length) before = (image, .ok ()) →
    write.patch image = .ok (offset, laid) →
    data <+: laid.bytes ∨ data <+: List.replicate laid.width 0 →
      Moment writer layout generation volume (file.replace made (image.overwrite offset data))
  marking : ∀ {file image laid accompanied data},
    Laid writer layout generation volume file image laid →
    Accompanied (sidecarBytes? writer layout generation) laid accompanied →
    data <+: Bytes.ofNat 8 generation.toNat →
      Moment writer layout generation volume
        (file.replace accompanied (image.overwrite (mark writer.format).start data))
  settled : ∀ seen, Moment writer layout generation volume seen →
    Marked writer.format writer.path seen →
      (writer.start volume generation).result = .ok () ∧
      Settled writer layout generation seen (writer.start volume generation).volume
  left : ∀ {made place}, volume.write writer.path (.zeros 0) = .ok (made, place) →
    Moment writer layout generation volume (writer.start volume generation).volume
  failed : ∀ {made place}, volume.write writer.path (.zeros 0) = .ok (made, place) →
    (writer.start volume generation).result ≠ .ok () →
      ¬ Marked writer.format writer.path (writer.start volume generation).volume
  ready : (writer.start volume generation).result = .ok () → generation ≠ 0 →
    Marked writer.format writer.path (writer.start volume generation).volume
  publish : ∀ image, (Write.run image [writer.format.publishWrite generation]).1.length =
      image.length ∧
    ∀ i : Nat, ¬ (mark writer.format).Holds i →
      (Write.run image [writer.format.publishWrite generation]).1.toBytes[i]? = image.toBytes[i]?

/-- The late mark is written last, so whenever it agrees with the early one, every other byte is the
one that the start leaves. -/
theorem readyLast_of_plan {writer : Writer} {layout : Layout} (hphase : writer.phase = .unstarted)
    (hplan : writer.format.plan writer.metrics = .ok layout) (generation : UInt64)
    (volume : Volume) : ReadyLast writer layout generation volume := by
  constructor
  · intro made file before write after image offset laid data hcreate hwrites hbefore hpatch hdata
    exact .laying hcreate hwrites hbefore ((Torn.refl image write).overwrite hpatch hdata)
  · intro file image laid accompanied data hlaid haccompanied hdata
    have hfits : (range (writer.format.publishWrite generation)).finish ≤ image.length := by
      rw [range_publishWrite, hlaid.length]
      exact finish_mark_le hplan
    obtain ⟨patch, hpatch, hbytes⟩ := lays_publishWrite writer.format generation image hfits
    rw [range_publishWrite] at hpatch
    exact .marking hlaid haccompanied ((Torn.refl _ _).overwrite hpatch (.inl (hbytes ▸ hdata)))
  · exact fun seen hmoment hmarked => settled_of_marked hphase hplan hmoment hmarked
  · exact fun hmade => moment_of_start hphase hplan hmade
  · intro made place hmade hfailed hmarked
    exact hfailed (settled_of_marked hphase hplan (moment_of_start hphase hplan hmade) hmarked).1
  · intro hresult hgeneration
    rcases start_cases hphase hplan with
      ⟨file, image, laid, accompanied, hlaid, haccompanied⟩ | ⟨hfailed, _⟩
    · rw [(start_of_accompanied hphase hplan hlaid haccompanied).2]
      exact marked_of_accompanied hplan hlaid haccompanied hgeneration
    · exact absurd hresult hfailed
  · intro image
    have htorn := torn_run image (writer.format.publishWrite generation)
    refine ⟨htorn.length, fun i houtside => htorn.frame i ?_⟩
    rwa [range_publishWrite]

theorem marked_countAndState : ReadyLast countAndState planned 7 .empty ∧
    Marked countAndState.format countAndState.path (countAndState.start .empty 7).volume := by
  have hready := readyLast_of_plan (show countAndState.phase = .unstarted from rfl)
    plan_countAndState 7 .empty
  exact ⟨hready, hready.ready start_countAndState (by decide)⟩

end MappedMetrics.Proofs.ReadinessMarks
