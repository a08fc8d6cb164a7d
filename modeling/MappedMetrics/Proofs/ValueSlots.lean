import MappedMetrics.Proofs.PackedLayout
import MappedMetrics.Proofs.StructureWrites

namespace MappedMetrics.Proofs.ValueSlots

open MappedMetrics
open MappedMetrics.Proofs.Spans
open MappedMetrics.Proofs.WriteRuns
open MappedMetrics.Proofs.PackedLayout

/-- Every metric has a slot to itself, which no write but that of its value goes to, save for a
blank before it. -/
structure Slotted (format : FileFormat) (metrics : List Metric) (layout : Layout) : Prop where
  each : layout.offsets.length = metrics.length
  apart : (metrics.zip layout.offsets).Pairwise fun a b => (slotOf a).Apart (slotOf b)
  inside : ∀ entry ∈ metrics.zip layout.offsets, (slotOf entry).finish ≤ layout.length
  unmarked : ∀ generation, ∀ entry ∈ metrics.zip layout.offsets,
    (range (format.publishWrite generation)).Apart (slotOf entry)
  follows : ∀ generation, (format.structureWrites layout metrics generation).Pairwise Follows

theorem stacked_packedHeader : Stacked 0 (FileFormat.Packed.header.map range) 9 := by
  simp only [FileFormat.Packed.header, List.map_cons, List.map_nil, StructureWrites.range_wide]
  simp only [range, Stacked, Span.finish, List.length_cons, List.length_nil]
  decide

theorem slotted_legacy {metrics : List Metric} {layout : Layout}
    (hplan : FileFormat.legacy.plan metrics = .ok layout) : Slotted .legacy metrics layout := by
  obtain ⟨heach, hstacked⟩ := stacked_slotOf hplan
  refine ⟨heach, List.pairwise_map.mp hstacked.pairwise, ?_, ?_, ?_⟩
  · exact fun entry hmem => (hstacked.mem_bounds (List.mem_map_of_mem hmem)).2
  · intro generation entry hmem
    have hstart := (hstacked.mem_bounds (List.mem_map_of_mem hmem)).1
    refine .inl (Nat.le_trans ?_ hstart)
    rw [FileFormat.publishWrite, StructureWrites.range_wide]
    decide
  · intro generation
    have hvalues : (FileFormat.initialValues layout metrics).map range =
        (metrics.zip layout.offsets).map slotOf := by
      rw [FileFormat.initialValues, List.map_map]
      rfl
    have hall := stacked_packedHeader.append (hvalues ▸ hstacked)
    rw [← List.map_append] at hall
    exact StructureWrites.follows_of_pairwise_apart hall.pairwise

theorem slotOf_narrowed {metrics : List Metric} {layout : Layout}
    (hexact : SelfDescribingLayout.Exact metrics layout)
    {entry : Metric × SelfDescribingLayout.Place}
    (hmem : entry ∈ StructureWrites.entries metrics) :
    slotOf (entry.1, entry.2.narrowed) = entry.2.slotSpan entry.1 := by
  obtain ⟨_, _, hvalue⟩ := StructureWrites.le_maxLength hexact (List.of_mem_zip hmem).2
  rw [slotOf, SelfDescribingLayout.Place.narrowed, SelfDescribingLayout.toNat_narrow hvalue]
  rfl

theorem slotted_mmv {metrics : List Metric} {layout : Layout}
    (hplan : FileFormat.mmv.plan metrics = .ok layout) : Slotted .mmv metrics layout := by
  have hexact := SelfDescribingLayout.exact_of_plan hplan
  have hzip := StructureWrites.zip_offsets hexact
  have hslot : ∀ entry ∈ StructureWrites.entries metrics,
      slotOf (entry.1, entry.2.narrowed) = entry.2.slotSpan entry.1 :=
    fun _ hmem => slotOf_narrowed hexact hmem
  refine ⟨?_, ?_, ?_, ?_, ?_⟩
  · rw [hexact.offsets, List.length_map]
    exact SelfDescribingLayout.length_placesFrom
  · rw [hzip, List.pairwise_map]
    refine (StructureWrites.pairwise_slots hexact).imp_of_mem fun ha hb hapart => ?_
    rwa [hslot _ ha, hslot _ hb]
  · rw [hzip, List.forall_mem_map]
    intro entry hmem
    rw [hslot entry hmem, hexact.length]
    exact StructureWrites.slot_finish_le hexact hmem
  · rw [hzip]
    intro generation
    rw [List.forall_mem_map]
    intro entry hmem
    rw [hslot entry hmem, FileFormat.publishWrite, StructureWrites.range_wide]
    refine .inl (Nat.le_trans ?_ (StructureWrites.recordsStart_le_slot hexact hmem))
    refine Nat.le_trans ?_ (StructureWrites.descriptorsStart_le metrics)
    change 16 + 8 ≤ 32 + 16 * _
    omega
  · intro generation
    rw [StructureWrites.structureWrites_eq hexact]
    exact StructureWrites.pairwise_writesAt hexact generation

theorem slotted_of_plan {format : FileFormat} {metrics : List Metric} {layout : Layout}
    (hplan : format.plan metrics = .ok layout) : Slotted format metrics layout := by
  cases format with
  | legacy => exact slotted_legacy hplan
  | mmv => exact slotted_mmv hplan

/-- The writes before those of the values. -/
def frontWrites (format : FileFormat) (layout : Layout) (metrics : List Metric)
    (generation : UInt64) : List Write :=
  match format with
  | .legacy => FileFormat.Packed.header
  | .mmv =>
      FileFormat.Described.header layout generation ++ FileFormat.Described.entries layout ++
        (metrics.zip layout.offsets).flatMap fun entry =>
          FileFormat.Described.records entry.1 entry.2

theorem structureWrites_eq_append (format : FileFormat) (layout : Layout) (metrics : List Metric)
    (generation : UInt64) : format.structureWrites layout metrics generation =
      frontWrites format layout metrics generation ++
        FileFormat.initialValues layout metrics := by
  cases format <;> rfl

/-- A write that is not checked against the end of the image. -/
def Direct (write : Write) : Prop :=
  ∀ offset handler value, write ≠ .slot offset handler value

theorem direct_bytes (offset : Nat) (data : Bytes) : Direct (.bytes offset data) :=
  fun _ _ _ hsame => by cases hsame

theorem direct_field (offset width : Nat) (data : Bytes) : Direct (.field offset width data) :=
  fun _ _ _ hsame => by cases hsame

theorem direct_of_mem_records {metric : Metric} {offsets : Offsets} {write : Write}
    (hmem : write ∈ FileFormat.Described.records metric offsets) : Direct write := by
  simp only [FileFormat.Described.records] at hmem
  split at hmem
  · simp only [List.cons_append, List.nil_append, List.mem_cons] at hmem
    rcases hmem with rfl | rfl | rfl | rfl | rfl | rfl | rfl | hmem
    · exact direct_field _ _ _
    iterate 5 exact direct_bytes _ _
    · exact direct_field _ _ _
    · split at hmem
      · rw [List.mem_singleton.mp hmem]
        exact direct_bytes _ _
      · cases hmem
  · cases hmem

theorem direct_of_mem_front {format : FileFormat} {layout : Layout} {metrics : List Metric}
    {generation : UInt64} {write : Write}
    (hmem : write ∈ frontWrites format layout metrics generation) : Direct write := by
  cases format with
  | legacy =>
      simp only [frontWrites, FileFormat.Packed.header, List.mem_cons, List.not_mem_nil,
        or_false] at hmem
      rcases hmem with rfl | rfl <;> exact direct_bytes _ _
  | mmv =>
      simp only [frontWrites, List.mem_append, List.mem_flatMap, or_assoc] at hmem
      rcases hmem with hmem | hmem | ⟨entry, _, hmem⟩
      · simp only [FileFormat.Described.header, List.mem_cons, List.not_mem_nil, or_false] at hmem
        rcases hmem with rfl | rfl | rfl | rfl | rfl | rfl <;> exact direct_bytes _ _
      · obtain ⟨⟨block, index⟩, _, hmem⟩ := List.mem_flatMap.mp hmem
        simp only [FileFormat.Described.entry, List.mem_cons, List.not_mem_nil, or_false] at hmem
        rcases hmem with rfl | rfl | rfl | rfl <;> exact direct_bytes _ _
      · exact direct_of_mem_records hmem

theorem slot_mem_structureWrites {format : FileFormat} {metrics : List Metric} {layout : Layout}
    (generation : UInt64) {entry : Metric × Offsets} (hmem : entry ∈ metrics.zip layout.offsets) :
    .slot entry.2.value.toNat entry.1.handler entry.1.initial ∈
      format.structureWrites layout metrics generation := by
  rw [structureWrites_eq_append]
  exact List.mem_append_right _ (List.mem_map.mpr ⟨entry, hmem, rfl⟩)

theorem zero_run {image : Image} {writes : List Write} {i : Nat}
    (hzero : image.toBytes[i]? = some 0)
    (hwrites : ∀ write ∈ writes,
      (∃ offset width, write = .blank offset width) ∨ ¬ (range write).Holds i) :
    (Write.run image writes).1.toBytes[i]? = some 0 := by
  induction writes generalizing image with
  | nil => exact hzero
  | cons write rest ih =>
      have hrest := fun later hmem => hwrites later (List.mem_cons_of_mem _ hmem)
      rw [Write.run_cons]
      split
      · rename_i offset laid hpatch
        refine ih ?_ hrest
        by_cases hholds : (range write).Holds i
        · rcases hwrites write List.mem_cons_self with ⟨start, width, rfl⟩ | houtside
          · rw [getElem?_of_holds hholds, read_lay_of_patch hpatch,
              bytes_of_lays (lays_blank start width) hpatch]
            refine List.getElem?_replicate_of_lt ?_
            obtain ⟨hfrom, hto⟩ := hholds
            change i < start + width at hto
            change i - start < width
            change start ≤ i at hfrom
            omega
          · exact absurd hholds houtside
        · rw [getElem?_lay_of_patch hpatch hholds, hzero]
      · exact hzero

theorem read_slot_of_run {image : Image} {writes : List Write} {offset : Nat} {handler : Handler}
    {value : MetricValue} (hzeros : ∀ i < image.length, image.toBytes[i]? = some 0)
    (hfollows : writes.Pairwise Follows) (hok : (Write.run image writes).2 = .ok ())
    (hmem : .slot offset handler value ∈ writes) :
    ∃ laid, handler.putBytes handler.dataLength.toNat (fun _ => 0) value = .ok laid ∧
      read (Write.run image writes).1 ⟨offset, handler.dataLength.toNat⟩ = laid.bytes := by
  obtain ⟨before, after, rfl⟩ := List.append_of_mem hmem
  obtain ⟨_, hrest, hcross⟩ := List.pairwise_append.mp hfollows
  -- Nothing later goes to the slot, and nothing but blanks went there before.
  have hlast : ∀ later ∈ after, (range later).Apart (range (.slot offset handler value)) := by
    intro later hlater
    rcases (List.pairwise_cons.mp hrest).1 later hlater with ⟨_, _, hblank⟩ | hapart
    · cases hblank
    · exact hapart.symm
  obtain ⟨start, laid, hpatch, hread⟩ := read_run_of_last hok hlast
  obtain ⟨rfl, hput⟩ := putBytes_of_patch hpatch
  have hheld : (fun i : Fin handler.dataLength.toNat =>
      (Write.run image before).1.byte (start + i)) = fun _ => 0 := by
    funext i
    have hfits := Write.fits_of_patch hpatch
    rw [Handler.width_putBytes hput, Write.length_run] at hfits
    have hholds : (range (.slot start handler value)).Holds (start + i) :=
      ⟨Nat.le_add_right _ _, Nat.add_lt_add_left i.isLt _⟩
    have hzero : (Write.run image before).1.toBytes[start + i.val]? = some 0 := by
      refine zero_run (hzeros _ (by omega)) fun earlier hearlier => ?_
      rcases hcross earlier hearlier _ List.mem_cons_self with hblank | hapart
      · exact .inl hblank
      · exact .inr (hapart.symm.not_holds hholds)
    rw [Image.byte_eq, List.getD_eq_getElem?_getD, hzero]
    rfl
  rw [hheld] at hput
  exact ⟨laid, hput, hread⟩

end MappedMetrics.Proofs.ValueSlots
