import MappedMetrics.Proofs.ValueSlots

namespace MappedMetrics.Proofs.ShortBuffers

open MappedMetrics
open MappedMetrics.Layout
open MappedMetrics.Proofs.Spans
open MappedMetrics.Proofs.SlotPacking
open MappedMetrics.Proofs.WriteRuns
open MappedMetrics.Proofs.PackedLayout
open MappedMetrics.Proofs.SelfDescribingLayout
open MappedMetrics.Proofs.StructureWrites
open MappedMetrics.Proofs.ValueSlots

/-- The end of what is written before the values: of the header, or of the last record. -/
def frontEnd (format : FileFormat) (metrics : List Metric) : Nat :=
  match format with
  | .legacy => 9
  | .mmv => slotsStart metrics

/-- The names that fit their fields, where the format has such fields. -/
def NamesFit (format : FileFormat) (metrics : List Metric) : Prop :=
  format = .mmv → ∀ metric ∈ metrics, (Text.utf8 metric.name).length ≤ 64

theorem halt_of_direct {image : Image} {write : Write} {fault : Fault} (hdirect : Direct write)
    (hpatch : write.patch image = .error fault) : fault = .halted .outOfBounds := by
  have hinside : ∀ {size offset : Nat} {patch : Patch},
      Write.inside size offset patch = .error fault → fault = .halted .outOfBounds := by
    intro size offset patch h
    rw [Write.inside] at h
    split at h
    · cases h
    · cases h
      rfl
  cases write with
  | bytes offset data => exact hinside hpatch
  | field offset width data =>
      simp only [Write.patch] at hpatch
      split at hpatch
      · cases hpatch
        rfl
      · split at hpatch
        · exact hinside hpatch
        · cases hpatch
          rfl
  | slot offset handler value => exact absurd rfl (hdirect offset handler value)

section Front

variable {format : FileFormat} {metrics : List Metric} {layout : Layout} {generation : UInt64}

theorem front_mmv (hexact : Exact metrics layout) :
    frontWrites .mmv layout metrics generation =
      FileFormat.Described.header layout generation ++ FileFormat.Described.entries layout ++
        (entries metrics).flatMap fun entry => recordWrites entry.1 entry.2 := by
  rw [frontWrites, flatMap_records hexact]

theorem finish_le_of_mem_front (hplan : format.plan metrics = .ok layout) {write : Write}
    (hmem : write ∈ frontWrites format layout metrics generation) :
    (range write).finish ≤ frontEnd format metrics := by
  cases format with
  | legacy => exact (stacked_packedHeader.mem_bounds (List.mem_map_of_mem hmem)).2
  | mmv =>
      have hexact := exact_of_plan hplan
      have hend : 32 + 16 * layout.blocks.length = descriptorsStart metrics := by
        rw [hexact.blocks, length_blocks, descriptorsStart]
      have hrecords : recordsStart metrics ≤ slotsStart metrics := Nat.le_add_right _ _
      rw [front_mmv hexact] at hmem
      rcases List.mem_append.mp hmem with hmem | hmem
      · have hfinish := ((stacked_front layout generation).mem_bounds
          (List.mem_map_of_mem hmem)).2
        rw [hend] at hfinish
        exact Nat.le_trans hfinish (Nat.le_trans (descriptorsStart_le metrics) hrecords)
      · obtain ⟨entry, hentry, hmem⟩ := List.mem_flatMap.mp hmem
        obtain ⟨_, hdescriptor, _, hrecord, _⟩ := bounds_of_mem hentry
        rcases within_of_mem_recordWrites hmem with hwithin | hwithin
        · exact Nat.le_trans hwithin.2 (Nat.le_trans hdescriptor hrecords)
        · exact Nat.le_trans hwithin.2 hrecord

theorem exists_mem_front_mmv (hexact : Exact metrics layout) :
    ∃ write ∈ frontWrites .mmv layout metrics generation,
      (range write).finish = slotsStart metrics := by
  rw [front_mmv hexact]
  cases metrics with
  | nil =>
      refine ⟨.word 60 0, List.mem_append_left _ (List.mem_append_right _ ?_), ?_⟩
      · rw [FileFormat.Described.entries, hexact.blocks]
        exact List.mem_flatMap.mpr ⟨(⟨.values, 64, 0⟩, 1), by decide,
          List.mem_of_getElem? (i := 3) rfl⟩
      · rw [range_word]
        rfl
  | cons first rest =>
      have hlast : rest.length < (places (first :: rest)).length := by
        rw [places, length_placesFrom]
        exact Nat.lt_succ_self _
      have hplace := List.getElem?_eq_getElem hlast
      obtain ⟨metric, hentry⟩ := exists_mem_zip length_placesFrom (List.mem_of_getElem? hplace)
      refine ⟨.blank ((places (first :: rest))[rest.length].record + 8) 16,
        List.mem_append_right _ (List.mem_flatMap.mpr ⟨_, hentry, ?_⟩), ?_⟩
      · exact List.mem_append_right _ (List.mem_append_right _ List.mem_cons_self)
      · rw [Write.blank, range_field, (getElem?_placesFrom hplace).2, slotsStart, List.length_cons]
        simp only [Span.finish]
        omega

theorem exists_mem_front (hplan : format.plan metrics = .ok layout) :
    ∃ write ∈ frontWrites format layout metrics generation,
      (range write).finish = frontEnd format metrics := by
  cases format with
  | legacy => exact ⟨_, List.mem_cons_of_mem _ List.mem_cons_self, rfl⟩
  | mmv => exact exists_mem_front_mmv (exact_of_plan hplan)

theorem lays_of_mem_front (hplan : format.plan metrics = .ok layout)
    (hnames : NamesFit format metrics) {write : Write}
    (hmem : write ∈ frontWrites format layout metrics generation) :
    ∃ data, Lays write data := by
  cases format with
  | legacy =>
      simp only [frontWrites, FileFormat.Packed.header, List.mem_cons, List.not_mem_nil,
        or_false] at hmem
      rcases hmem with rfl | rfl <;> exact ⟨_, lays_bytes _ _⟩
  | mmv =>
      rw [front_mmv (exact_of_plan hplan)] at hmem
      exact exists_lays_of_mem_front (hnames rfl) hmem

theorem exists_slot_end (hplan : format.plan metrics = .ok layout)
    (hlength : frontEnd format metrics < layout.length) :
    ∃ entry ∈ metrics.zip layout.offsets, (slotOf entry).finish = layout.length := by
  cases format with
  | legacy =>
      have hend := (exactSlots_of_plan hplan).2
      rw [← slotsOf_eq hplan] at hend
      rcases freeAfter_eq_or 9 (slotsOf metrics layout) with hnone | ⟨slot, hmem, hslot⟩
      · rw [hend, hnone] at hlength
        exact absurd hlength (Nat.lt_irrefl 9)
      · obtain ⟨entry, hentry, rfl⟩ := List.mem_map.mp hmem
        exact ⟨entry, hentry, hslot.trans hend.symm⟩
  | mmv =>
      have hexact := exact_of_plan hplan
      rcases @finishFrom_eq_or metrics (descriptorsStart metrics) (recordsStart metrics)
        (slotsStart metrics) with hnone | ⟨entry, hmem, hslot⟩
      · rw [hexact.length, finish, hnone] at hlength
        exact absurd hlength (Nat.lt_irrefl _)
      · refine ⟨(entry.1, entry.2.narrowed), ?_, ?_⟩
        · rw [zip_offsets hexact]
          exact List.mem_map_of_mem hmem
        · rw [slotOf_narrowed hexact hmem, hslot, hexact.length]
          rfl

end Front

/-- What comes of laying down a file in a buffer. -/
def outcome (image : Image) (format : FileFormat) (layout : Layout) (metrics : List Metric)
    (generation : UInt64) : Outcome Unit :=
  (Write.run image (format.structureWrites layout metrics generation)).2

/-- The refusal of a slot that ends after the buffer. -/
def violation (size : Nat) (slot : Span) : Outcome Unit :=
  (MappingError.boundsViolation slot.start slot.length size).refuse

/-- The first in a list whose slot ends after the buffer. -/
def FirstCut (size : Nat) (entries : List (Metric × Offsets)) (entry : Metric × Offsets) : Prop :=
  ∃ earlier later, entries = earlier ++ entry :: later ∧
    (∀ other ∈ earlier, (slotOf other).finish ≤ size) ∧ size < (slotOf entry).finish

/-- A metric whose value is refused or runs into a fault over some bytes that its slot may hold. -/
def Unencodable (metric : Metric) (fault : Fault) : Prop :=
  ∃ held, metric.handler.putBytes metric.handler.dataLength.toNat held metric.initial =
    .error fault

theorem fault_of_slot {image : Image} {entry : Metric × Offsets} {fault : Fault}
    (hpatch : Write.patch image (.slot entry.2.value.toNat entry.1.handler entry.1.initial) =
      .error fault) (hbound : (slotOf entry).finish < 2 ^ 64) :
    image.length < (slotOf entry).finish ∧ .error fault = violation image.length (slotOf entry) ∨
      (slotOf entry).finish ≤ image.length ∧ Unencodable entry.1 fault := by
  have hword : ¬ 2 ^ 64 ≤ entry.2.value.toNat + entry.1.handler.dataLength.toNat :=
    Nat.not_le.mpr hbound
  simp only [Write.patch] at hpatch
  rw [if_neg hword] at hpatch
  split at hpatch
  · rename_i hcut
    cases hpatch
    exact .inl ⟨hcut, rfl⟩
  · rename_i hinside
    refine .inr ⟨Nat.le_of_not_lt hinside, fun i => image.byte (entry.2.value.toNat + i), ?_⟩
    cases hput : entry.1.handler.putBytes entry.1.handler.dataLength.toNat
        (fun i => image.byte (entry.2.value.toNat + i)) entry.1.initial with
    | error cause =>
        rw [hput] at hpatch
        cases hpatch
        rfl
    | ok laid =>
        rw [hput] at hpatch
        cases hpatch

section Outcome

variable {format : FileFormat} {metrics : List Metric} {layout : Layout} {image : Image}

theorem outcome_of_short_front (hplan : format.plan metrics = .ok layout)
    (hshort : image.length < frontEnd format metrics) (generation : UInt64) :
    outcome image format layout metrics generation = .error (.halted .outOfBounds) := by
  obtain ⟨write, hmem, hfinish⟩ : ∃ write ∈ frontWrites format layout metrics generation,
      (range write).finish = frontEnd format metrics := exists_mem_front hplan
  rw [outcome, structureWrites_eq_append, Write.run_append]
  cases hrun : Write.run image (frontWrites format layout metrics generation) with
  | mk last result =>
      cases result with
      | ok =>
          have hinside := finish_le_of_run (congrArg Prod.snd hrun) hmem
          rw [hfinish] at hinside
          exact absurd hshort (Nat.not_lt.mpr hinside)
      | error fault =>
          obtain ⟨before, failed, after, hfront, -, hpatch⟩ := exists_patch_of_run hrun
          have hfailed : failed ∈ frontWrites format layout metrics generation :=
            hfront ▸ List.mem_append_right _ List.mem_cons_self
          rw [halt_of_direct (direct_of_mem_front hfailed) hpatch]

theorem exists_outcome_of_front (hplan : format.plan metrics = .ok layout)
    (hnames : NamesFit format metrics) (hfits : frontEnd format metrics ≤ image.length)
    (generation : UInt64) : ∃ middle : Image, middle.length = image.length ∧
      outcome image format layout metrics generation =
        (Write.run middle (FileFormat.initialValues layout metrics)).2 := by
  have hok : (Write.run image (frontWrites format layout metrics generation)).2 = .ok () :=
    run_eq_ok fun write hmem =>
      ⟨Nat.le_trans (finish_le_of_mem_front hplan hmem) hfits, lays_of_mem_front hplan hnames hmem⟩
  refine ⟨(Write.run image (frontWrites format layout metrics generation)).1,
    Write.length_run _ _, ?_⟩
  rw [outcome, structureWrites_eq_append, Write.run_append]
  cases hrun : Write.run image (frontWrites format layout metrics generation) with
  | mk last result =>
      rw [hrun] at hok
      cases hok
      rfl

theorem slot_finish_lt (hplan : format.plan metrics = .ok layout) {entry : Metric × Offsets}
    (hmem : entry ∈ metrics.zip layout.offsets) : (slotOf entry).finish < 2 ^ 64 := by
  have hinside := (slotted_of_plan hplan).inside entry hmem
  exact Nat.lt_of_le_of_lt (Nat.le_trans hinside layout.length_le) (by decide)

/-- The values are written up to the first slot that is cut off, or the first value that is not
encoded. -/
theorem fault_of_values (hplan : format.plan metrics = .ok layout)
    (hshort : image.length < layout.length) (hfits : frontEnd format metrics ≤ image.length) :
    ∃ fault, (Write.run image (FileFormat.initialValues layout metrics)).2 = .error fault ∧
      ((∃ entry, FirstCut image.length (metrics.zip layout.offsets) entry ∧
          .error fault = violation image.length (slotOf entry)) ∨
        ∃ entry ∈ metrics.zip layout.offsets,
          (slotOf entry).finish ≤ image.length ∧ Unencodable entry.1 fault) := by
  cases hrun : Write.run image (FileFormat.initialValues layout metrics) with
  | mk last result =>
      cases result with
      | ok =>
          obtain ⟨entry, hmem, hfinish⟩ :=
            exists_slot_end hplan (Nat.lt_of_le_of_lt hfits hshort)
          have hinside := finish_le_of_run (congrArg Prod.snd hrun)
            (List.mem_map_of_mem hmem)
          exact absurd hshort (Nat.not_lt.mpr (hfinish ▸ hinside))
      | error fault =>
          -- The values before the failed write were laid down, so their slots are whole.
          obtain ⟨before, write, after, hvalues, hbefore, hpatch⟩ := exists_patch_of_run hrun
          obtain ⟨earlier, rest, hsplit, rfl, hrest⟩ := List.map_eq_append_iff.mp hvalues
          obtain ⟨entry, later, rfl, rfl, -⟩ := List.map_eq_cons_iff.mp hrest
          have hmem : entry ∈ metrics.zip layout.offsets :=
            hsplit ▸ List.mem_append_right _ List.mem_cons_self
          have hlength : last.length = image.length := by
            rw [← Write.length_run image, hrun]
          refine ⟨fault, rfl, ?_⟩
          rcases fault_of_slot hpatch (slot_finish_lt hplan hmem) with ⟨hcut, hfault⟩ | hvalue
          · rw [hlength] at hcut hfault
            refine .inl ⟨entry, ⟨earlier, later, hsplit, fun other hother => ?_, hcut⟩, hfault⟩
            exact finish_le_of_run (congrArg Prod.snd hbefore) (List.mem_map_of_mem hother)
          · rw [hlength] at hvalue
            exact .inr ⟨entry, hmem, hvalue⟩

theorem outcome_of_fits (hplan : format.plan metrics = .ok layout)
    (hshort : image.length < layout.length) (hnames : NamesFit format metrics)
    (hfits : frontEnd format metrics ≤ image.length) (generation : UInt64) :
    (∃ entry, FirstCut image.length (metrics.zip layout.offsets) entry ∧
      outcome image format layout metrics generation = violation image.length (slotOf entry)) ∨
    ∃ entry ∈ metrics.zip layout.offsets, ∃ fault,
      (slotOf entry).finish ≤ image.length ∧ Unencodable entry.1 fault ∧
        outcome image format layout metrics generation = .error fault := by
  obtain ⟨middle, hmiddle, houtcome⟩ := exists_outcome_of_front hplan hnames hfits generation
  rw [← hmiddle] at hshort hfits
  obtain ⟨fault, hrun, ⟨entry, hcut, hfault⟩ | ⟨entry, hmem, hinside, hvalue⟩⟩ :=
    fault_of_values hplan hshort hfits
  · rw [hmiddle] at hcut hfault
    exact .inl ⟨entry, hcut, (houtcome.trans hrun).trans hfault⟩
  · rw [hmiddle] at hinside
    exact .inr ⟨entry, hmem, fault, hinside, hvalue, houtcome.trans hrun⟩

theorem outcome_ne_ok (hplan : format.plan metrics = .ok layout)
    (hshort : image.length < layout.length) (generation : UInt64) :
    outcome image format layout metrics generation ≠ .ok () := by
  intro hok
  rcases Nat.lt_or_ge image.length (frontEnd format metrics) with hfront | hfits
  · rw [outcome_of_short_front hplan hfront] at hok
    cases hok
  · obtain ⟨entry, hmem, hfinish⟩ := exists_slot_end hplan (Nat.lt_of_le_of_lt hfits hshort)
    have hinside := finish_le_of_run hok (slot_mem_structureWrites generation hmem)
    exact absurd hshort (Nat.not_lt.mpr (hfinish ▸ hinside))

end Outcome

/-- What comes of laying down a file in a buffer that is too short. -/
structure CutShort (image : Image) (format : FileFormat) (layout : Layout) (metrics : List Metric)
    (generation : UInt64) : Prop where
  fails : ∃ fault, outcome image format layout metrics generation = .error fault
  /-- What comes before the values is written without a check. -/
  front : image.length < frontEnd format metrics →
    outcome image format layout metrics generation = .error (.halted .outOfBounds)
  /-- A value is refused where its slot is cut off, unless an earlier one cannot be encoded. -/
  values : NamesFit format metrics → frontEnd format metrics ≤ image.length →
    (∃ entry, FirstCut image.length (metrics.zip layout.offsets) entry ∧
      outcome image format layout metrics generation = violation image.length (slotOf entry)) ∨
    ∃ entry ∈ metrics.zip layout.offsets, ∃ fault,
      (slotOf entry).finish ≤ image.length ∧ Unencodable entry.1 fault ∧
        outcome image format layout metrics generation = .error fault
  refused : NamesFit format metrics → (∀ metric ∈ metrics, ∀ fault, ¬ Unencodable metric fault) →
    frontEnd format metrics ≤ image.length →
    ∃ entry, FirstCut image.length (metrics.zip layout.offsets) entry ∧
      outcome image format layout metrics generation = violation image.length (slotOf entry)

/-- A buffer that is shorter than the layout always makes for a fault. The values are checked
against the end of the buffer, but what is written before them is not. -/
theorem cutShort_of_plan {format : FileFormat} {metrics : List Metric} {layout : Layout}
    {image : Image} (hplan : format.plan metrics = .ok layout)
    (hshort : image.length < layout.length) (generation : UInt64) :
    CutShort image format layout metrics generation := by
  refine
    { fails := ?_
      front := fun hfront => outcome_of_short_front hplan hfront generation
      values := fun hnames hfits => outcome_of_fits hplan hshort hnames hfits generation
      refused := ?_ }
  · cases houtcome : outcome image format layout metrics generation with
    | ok => exact absurd houtcome (outcome_ne_ok hplan hshort generation)
    | error fault => exact ⟨fault, rfl⟩
  · intro hnames hencodes hfits
    rcases outcome_of_fits hplan hshort hnames hfits generation with
      hcut | ⟨entry, hmem, fault, -, hvalue, -⟩
    · exact hcut
    · exact absurd hvalue (hencodes entry.1 (List.of_mem_zip hmem).1 fault)

/-- A buffer may lack no more than the last byte of the slot of a text. -/
theorem cutShort_countAndText : ∃ layout, FileFormat.mmv.plan countAndText = .ok layout ∧
    (Image.zeros 289).length < layout.length ∧
      CutShort (.zeros 289) .mmv layout countAndText 7 := by
  have hplan : FileFormat.mmv.plan countAndText = .ok
      ⟨290, [⟨some 80, some 232, 240⟩, ⟨some 156, some 256, 280⟩],
        [⟨.metrics, 80, 2⟩, ⟨.values, 232, 2⟩, ⟨.strings, 280, 1⟩], by decide⟩ := rfl
  have hshort : (Image.zeros 289).length < 290 := by decide
  exact ⟨_, hplan, hshort, cutShort_of_plan hplan hshort 7⟩

/-- Not every short buffer is refused for its bounds: one that ends inside the last record stops the
program. -/
theorem not_refused_countAndText : ¬ ∀ (format : FileFormat) (metrics : List Metric)
    (layout : Layout) (image : Image) (generation : UInt64), format.plan metrics = .ok layout →
      image.length < layout.length → ∃ offset length,
        outcome image format layout metrics generation =
          (MappingError.boundsViolation offset length image.length).refuse := by
  intro h
  have hplan : FileFormat.mmv.plan countAndText = .ok
      ⟨290, [⟨some 80, some 232, 240⟩, ⟨some 156, some 256, 280⟩],
        [⟨.metrics, 80, 2⟩, ⟨.values, 232, 2⟩, ⟨.strings, 280, 1⟩], by decide⟩ := rfl
  have hshort : (Image.zeros 279).length < 290 := by decide
  have hfront : (Image.zeros 279).length < frontEnd .mmv countAndText := by decide
  obtain ⟨offset, length, hrefused⟩ := h .mmv countAndText _ (.zeros 279) 7 hplan hshort
  rw [outcome_of_short_front hplan hfront] at hrefused
  cases hrefused

end MappedMetrics.Proofs.ShortBuffers
