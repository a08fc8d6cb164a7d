import MappedMetrics.FileFormat
import MappedMetrics.Proofs.SlotPacking

namespace MappedMetrics.Proofs.SelfDescribingLayout

open MappedMetrics
open MappedMetrics.Layout
open MappedMetrics.Proofs.Spans
open MappedMetrics.Proofs.SlotPacking

structure Place where
  descriptor : Nat
  record : Nat
  value : Nat
deriving DecidableEq, Repr

def width (metric : Metric) : Nat :=
  metric.handler.dataLength.toNat

/-- The places of metrics from the offsets of a descriptor, of a record and of a free slot on. -/
def placesFrom : List Metric → Nat → Nat → Nat → List Place
  | [], _, _, _ => []
  | metric :: rest, descriptor, record, slot =>
      if metric.handler.large then
        ⟨descriptor, record, roundUp slot 8⟩ ::
          placesFrom rest (descriptor + 76) (record + 24) (roundUp slot 8 + width metric)
      else
        ⟨descriptor, record, record + 8⟩ ::
          placesFrom rest (descriptor + 76) (record + 24) slot

/-- The end of the last slot, from a free one on. -/
def finishFrom : List Metric → Nat → Nat
  | [], slot => slot
  | metric :: rest, slot =>
      if metric.handler.large then finishFrom rest (roundUp slot 8 + width metric)
      else finishFrom rest slot

section Exact

variable (metrics : List Metric)

def largeCount : Nat :=
  (metrics.filter fun metric => metric.handler.large).length

/-- The number of blocks: slots are a block of their own where there are any. -/
def blockCount : Nat :=
  if largeCount metrics = 0 then 2 else 3

def descriptorsStart : Nat :=
  32 + 16 * blockCount metrics

def recordsStart : Nat :=
  roundUp (descriptorsStart metrics + 76 * metrics.length) 8

def slotsStart : Nat :=
  recordsStart metrics + 24 * metrics.length

def places : List Place :=
  placesFrom metrics (descriptorsStart metrics) (recordsStart metrics) (slotsStart metrics)

def finish : Nat :=
  finishFrom metrics (slotsStart metrics)

def blocks : List Block :=
  [⟨.metrics, descriptorsStart metrics, metrics.length⟩,
    ⟨.values, recordsStart metrics, metrics.length⟩] ++
    if largeCount metrics = 0 then [] else [⟨.strings, slotsStart metrics, largeCount metrics⟩]

end Exact

namespace Place

def descriptorSpan (place : Place) : Span :=
  ⟨place.descriptor, 76⟩

def recordSpan (place : Place) : Span :=
  ⟨place.record, 24⟩

def payloadSpan (place : Place) : Span :=
  ⟨place.record + 8, 16⟩

def slotSpan (place : Place) (metric : Metric) : Span :=
  ⟨place.value, width metric⟩

def narrowed (place : Place) : Offsets :=
  ⟨some (narrow place.descriptor), some (narrow place.record), narrow place.value⟩

def ofOffsets? (offsets : Offsets) : Option Place :=
  match offsets.descriptor, offsets.dataBlock with
  | some descriptor, some record =>
      some ⟨descriptor.toNat, record.toNat, offsets.value.toNat⟩
  | _, _ => none

end Place

theorem toNat_narrow {n : Nat} (hn : n ≤ maxLength) : (narrow n).toNat = n := by
  rw [narrow, if_pos hn]
  exact Nat.mod_eq_of_lt (Nat.lt_of_le_of_lt hn (by decide))

theorem Place.ofOffsets?_narrowed {place : Place} (hdescriptor : place.descriptor ≤ maxLength)
    (hrecord : place.record ≤ maxLength) (hvalue : place.value ≤ maxLength) :
    Place.ofOffsets? place.narrowed = some place := by
  simp only [Place.ofOffsets?, Place.narrowed, toNat_narrow, hdescriptor, hrecord, hvalue]

section Places

variable {metrics : List Metric} {descriptor record slot : Nat}

theorem length_placesFrom :
    (placesFrom metrics descriptor record slot).length = metrics.length := by
  induction metrics generalizing descriptor record slot with
  | nil => rfl
  | cons metric rest ih =>
      rw [placesFrom]
      split <;> rw [List.length_cons, List.length_cons, ih]

theorem stacked_descriptors :
    Stacked descriptor ((placesFrom metrics descriptor record slot).map Place.descriptorSpan)
      (descriptor + 76 * metrics.length) := by
  induction metrics generalizing descriptor record slot with
  | nil => exact Nat.le_refl _
  | cons metric rest ih =>
      have hlength : descriptor + 76 * (metric :: rest).length =
          descriptor + 76 + 76 * rest.length := by
        rw [List.length_cons]
        omega
      rw [placesFrom, hlength]
      split <;> exact ⟨Nat.le_refl _, ih⟩

theorem stacked_records :
    Stacked record ((placesFrom metrics descriptor record slot).map Place.recordSpan)
      (record + 24 * metrics.length) := by
  induction metrics generalizing descriptor record slot with
  | nil => exact Nat.le_refl _
  | cons metric rest ih =>
      have hlength : record + 24 * (metric :: rest).length = record + 24 + 24 * rest.length := by
        rw [List.length_cons]
        omega
      rw [placesFrom, hlength]
      split <;> exact ⟨Nat.le_refl _, ih⟩

def slotSpans (entries : List (Metric × Place)) : List Span :=
  entries.filterMap fun entry =>
    if entry.1.handler.large then some (entry.2.slotSpan entry.1) else none

theorem slotSpans_cons_of_large {metric : Metric} {place : Place}
    {entries : List (Metric × Place)} (hlarge : metric.handler.large = true) :
    slotSpans ((metric, place) :: entries) = place.slotSpan metric :: slotSpans entries := by
  rw [slotSpans, List.filterMap_cons_some (by rw [if_pos hlarge])]
  rfl

theorem slotSpans_cons_of_inline {metric : Metric} {place : Place}
    {entries : List (Metric × Place)} (hinline : metric.handler.large = false) :
    slotSpans ((metric, place) :: entries) = slotSpans entries := by
  rw [slotSpans, List.filterMap_cons_none (by simp only [hinline]; rfl)]
  rfl

theorem stacked_slots :
    Stacked slot (slotSpans (metrics.zip (placesFrom metrics descriptor record slot)))
      (finishFrom metrics slot) := by
  induction metrics generalizing descriptor record slot with
  | nil => exact Nat.le_refl _
  | cons metric rest ih =>
      rw [placesFrom, finishFrom]
      cases hlarge : metric.handler.large with
      | true =>
          rw [if_pos rfl, if_pos rfl, List.zip_cons_cons, slotSpans_cons_of_large hlarge]
          exact ⟨le_roundUp _ (by decide), ih⟩
      | false =>
          rw [if_neg (by decide), if_neg (by decide), List.zip_cons_cons,
            slotSpans_cons_of_inline hlarge]
          exact ih

theorem aligned_placesFrom (hdescriptor : 4 ∣ descriptor) (hrecord : 8 ∣ record) :
    ∀ place ∈ placesFrom metrics descriptor record slot,
      4 ∣ place.descriptor ∧ 8 ∣ place.record ∧ 8 ∣ place.value := by
  induction metrics generalizing descriptor record slot with
  | nil => exact fun place hmem => absurd hmem List.not_mem_nil
  | cons metric rest ih =>
      have hnext : 4 ∣ descriptor + 76 := by omega
      have hlater : 8 ∣ record + 24 := by omega
      intro place hmem
      rw [placesFrom] at hmem
      split at hmem
      · rcases List.mem_cons.mp hmem with rfl | hmem
        · exact ⟨hdescriptor, hrecord, dvd_roundUp _ _⟩
        · exact ih hnext hlater place hmem
      · rcases List.mem_cons.mp hmem with rfl | hmem
        · exact ⟨hdescriptor, hrecord, (Nat.dvd_add_right hrecord).mpr (Nat.dvd_refl 8)⟩
        · exact ih hnext hlater place hmem

theorem value_of_inline : ∀ entry ∈ metrics.zip (placesFrom metrics descriptor record slot),
    entry.1.handler.large = false → entry.2.value = entry.2.record + 8 := by
  induction metrics generalizing descriptor record slot with
  | nil => exact fun entry hmem => absurd hmem List.not_mem_nil
  | cons metric rest ih =>
      intro entry hmem hinline
      rw [placesFrom] at hmem
      split at hmem
      · rename_i hlarge
        rcases List.mem_cons.mp hmem with rfl | hmem
        · exact absurd (hlarge.symm.trans hinline) (by decide)
        · exact ih entry hmem hinline
      · rcases List.mem_cons.mp hmem with rfl | hmem
        · rfl
        · exact ih entry hmem hinline

end Places

theorem valueOffsets_cons_of_large {metric : Metric} {rest : List Metric} {record slot : UInt64}
    {records slots : List UInt64} (hlarge : metric.handler.large = true) :
    FileFormat.Described.valueOffsets (metric :: rest) (record :: records) (slot :: slots) =
      slot :: FileFormat.Described.valueOffsets rest records slots := by
  simp only [FileFormat.Described.valueOffsets, hlarge, if_true]

theorem valueOffsets_cons_of_inline {metric : Metric} {rest : List Metric} {record : UInt64}
    {records slots : List UInt64} (hinline : metric.handler.large = false) :
    FileFormat.Described.valueOffsets (metric :: rest) (record :: records) slots =
      (record + 8) :: FileFormat.Described.valueOffsets rest records slots := by
  simp only [FileFormat.Described.valueOffsets, hinline, Bool.false_eq_true, if_false]

def Place.ofPacked (packed : UInt64 × UInt64 × UInt64) : Place :=
  ⟨packed.1.toNat, packed.2.1.toNat, packed.2.2.toNat⟩

theorem ofPacked_valueOffsets {metrics : List Metric}
    {descriptor record slot descriptorsEnd recordsEnd slotsEnd : UInt64}
    {descriptors records slots : List UInt64}
    (hfour : 4 ∣ descriptor.toNat) (height : 8 ∣ record.toNat)
    (hdescriptors : packSlots? descriptor
      (metrics.map fun _ => (FileFormat.Described.descriptorLength, narrowAlign)) =
        some (descriptors, descriptorsEnd))
    (hrecords : packSlots? record
      (metrics.map fun _ => (FileFormat.Described.recordLength, wideAlign)) =
        some (records, recordsEnd))
    (hslots : packSlots? slot ((metrics.filter fun metric => metric.handler.large).map
      fun metric => (metric.handler.dataLength, wideAlign)) = some (slots, slotsEnd)) :
    (descriptors.zip (records.zip
        (FileFormat.Described.valueOffsets metrics records slots))).map Place.ofPacked =
      placesFrom metrics descriptor.toNat record.toNat slot.toNat ∧
    descriptorsEnd.toNat = descriptor.toNat + 76 * metrics.length ∧
    recordsEnd.toNat = record.toNat + 24 * metrics.length ∧
    slotsEnd.toNat = finishFrom metrics slot.toNat := by
  -- Induction on the metrics: each takes a place of the first two runs, and one of the run of slots
  -- if its value is large.
  induction metrics generalizing descriptor record slot descriptors records slots with
  | nil =>
      cases hdescriptors
      cases hrecords
      cases hslots
      exact ⟨rfl, rfl, rfl, rfl⟩
  | cons metric rest ih =>
      obtain ⟨first, nextDescriptor, descriptors, rfl, hfirst, hnext, hdescriptors⟩ :=
        packSlots?_cons_of_dvd (show narrowAlign.toNat = 2 ^ 2 from rfl) hfour hdescriptors
      obtain ⟨second, nextRecord, records, rfl, hsecond, hafter, hrecords⟩ :=
        packSlots?_cons_of_dvd (show wideAlign.toNat = 2 ^ 3 from rfl) height hrecords
      change nextDescriptor.toNat = descriptor.toNat + 76 at hnext
      change nextRecord.toNat = record.toNat + 24 at hafter
      have hpayload : (second + 8).toNat = record.toNat + 8 := by
        have hbound := nextRecord.toNat_lt
        rw [UInt64.toNat_add, Nat.mod_eq_of_lt (by rw [hsecond]; change _ + 8 < _; omega), hsecond]
        rfl
      have hnextFour : 4 ∣ nextDescriptor.toNat := by omega
      have hnextEight : 8 ∣ nextRecord.toNat := by omega
      rw [placesFrom, finishFrom, List.length_cons]
      cases hlarge : metric.handler.large with
      | true =>
          have hfilter : (metric :: rest).filter (fun metric => metric.handler.large) =
              metric :: rest.filter fun metric => metric.handler.large :=
            List.filter_cons_of_pos hlarge
          rw [hfilter] at hslots
          obtain ⟨third, nextSlot, slots, rfl, hthird, hbehind, hslots⟩ :=
            packSlots?_cons (show wideAlign.toNat = 2 ^ 3 from rfl) hslots
          obtain ⟨hplaces, hdescriptorsEnd, hrecordsEnd, hslotsEnd⟩ :=
            ih hnextFour hnextEight hdescriptors hrecords hslots
          have hbehind : nextSlot.toNat = roundUp slot.toNat 8 + width metric := by
            rw [hbehind, hthird]
            rfl
          rw [if_pos rfl, if_pos rfl, valueOffsets_cons_of_large hlarge, ← hbehind, ← hnext,
            ← hafter]
          refine ⟨?_, by omega, by omega, hslotsEnd⟩
          rw [List.zip_cons_cons, List.zip_cons_cons, List.map_cons, hplaces, Place.ofPacked]
          simp only [hfirst, hsecond, hthird]
          rfl
      | false =>
          have hfilter : (metric :: rest).filter (fun metric => metric.handler.large) =
              rest.filter fun metric => metric.handler.large :=
            List.filter_cons_of_neg (by rw [hlarge]; decide)
          rw [hfilter] at hslots
          obtain ⟨hplaces, hdescriptorsEnd, hrecordsEnd, hslotsEnd⟩ :=
            ih hnextFour hnextEight hdescriptors hrecords hslots
          rw [if_neg (by decide), if_neg (by decide), valueOffsets_cons_of_inline hlarge, ← hnext,
            ← hafter]
          refine ⟨?_, by omega, by omega, hslotsEnd⟩
          rw [List.zip_cons_cons, List.zip_cons_cons, List.map_cons, hplaces, Place.ofPacked]
          simp only [hfirst, hsecond, hpayload]

/-- A planned layout is the exact one with its offsets narrowed. -/
structure Exact (metrics : List Metric) (layout : Layout) : Prop where
  inline_le : ∀ metric ∈ metrics, metric.handler.large = false → width metric ≤ 16
  length : layout.length = finish metrics
  offsets : layout.offsets = (places metrics).map Place.narrowed
  blocks : layout.blocks = blocks metrics

theorem width_le_of_oversized? {metrics : List Metric}
    (hnone : FileFormat.Described.oversized? metrics = none) :
    ∀ metric ∈ metrics, metric.handler.large = false → width metric ≤ 16 := by
  intro metric hmem hinline
  have hnot := List.find?_eq_none.mp hnone metric.handler (List.mem_map_of_mem hmem)
  simp only [hinline, Bool.not_false, Bool.true_and, decide_eq_true_eq] at hnot
  exact UInt64.le_iff_toNat_le.mp (UInt64.not_lt.mp hnot)

theorem toNat_tableEnd (metrics : List Metric) :
    (FileFormat.Described.headerLength + FileFormat.Described.entryLength *
      (if (metrics.filter fun metric => metric.handler.large).isEmpty then 2 else 3)).toNat =
        descriptorsStart metrics := by
  rw [descriptorsStart, blockCount, largeCount]
  cases metrics.filter fun metric => metric.handler.large <;> rfl

/-- Where a plan does not overflow, it has the parts of the exact layout. -/
theorem eq_ofParts_of_plan? {metrics : List Metric} {outcome : Outcome Layout}
    (hplan : FileFormat.Described.plan? metrics = some outcome) :
    outcome = Layout.ofParts (finish metrics) ((places metrics).map Place.narrowed)
      (blocks metrics) := by
  have hstart := toNat_tableEnd metrics
  have hnone : (metrics.filter fun metric => metric.handler.large).isEmpty =
      decide (largeCount metrics = 0) := by
    rw [largeCount, Bool.eq_iff_iff, List.isEmpty_iff_length_eq_zero, decide_eq_true_eq]
  simp only [FileFormat.Described.plan?, Option.bind_eq_bind, Option.bind_eq_some_iff] at hplan
  generalize FileFormat.Described.headerLength + FileFormat.Described.entryLength *
    (if (metrics.filter fun metric => metric.handler.large).isEmpty then 2 else 3) = start
    at hplan hstart
  obtain ⟨⟨descriptors, descriptorsEnd⟩, hdescriptors, first, hfirst, ⟨records, recordsEnd⟩,
    hrecords, second, hsecond, ⟨slots, slotsEnd⟩, hslots, hparts⟩ := hplan
  have hfirst : first.toNat = roundUp descriptorsEnd.toNat 8 :=
    toNat_of_alignUp? (show wideAlign.toNat = 2 ^ 3 from rfl) hfirst
  have hsecond : second.toNat = roundUp recordsEnd.toNat 8 :=
    toNat_of_alignUp? (show wideAlign.toNat = 2 ^ 3 from rfl) hsecond
  have hfour : 4 ∣ start.toNat := by
    rw [hstart, descriptorsStart]
    omega
  have height : 8 ∣ first.toNat := hfirst ▸ dvd_roundUp _ _
  obtain ⟨hplaces, hdescriptorsEnd, hrecordsEnd, hslotsEnd⟩ :=
    ofPacked_valueOffsets hfour height hdescriptors hrecords hslots
  have hfirst : first.toNat = recordsStart metrics := by
    rw [hfirst, hdescriptorsEnd, hstart, recordsStart]
  have hsecond : second.toNat = slotsStart metrics := by
    rw [hsecond, hrecordsEnd, roundUp_eq_self (by decide) (by omega), hfirst, slotsStart]
  rw [hstart, hfirst, hsecond] at hplaces
  rw [hsecond] at hslotsEnd
  simp only [Option.some.injEq, hslotsEnd, hstart, hfirst, hsecond, hnone, decide_eq_true_eq]
    at hparts
  rw [← hparts, places, ← hplaces, List.map_map]
  rfl

theorem exact_of_plan? {metrics : List Metric} {layout : Layout}
    (hinline : ∀ metric ∈ metrics, metric.handler.large = false → width metric ≤ 16)
    (hplan : FileFormat.Described.plan? metrics = some (.ok layout)) : Exact metrics layout := by
  have hparts := eq_ofParts_of_plan? hplan
  rw [Layout.ofParts] at hparts
  split at hparts
  · cases hparts
    exact ⟨hinline, rfl, rfl, rfl⟩
  · cases hparts

theorem aligned_narrow (metrics : List Metric) : Aligned
    (metrics.map fun _ => (FileFormat.Described.descriptorLength, narrowAlign)) := by
  intro slot hmem
  obtain ⟨_, _, rfl⟩ := List.mem_map.mp hmem
  exact ⟨2, by decide, rfl⟩

theorem aligned_wide {α : Type} (width : α → UInt64) (items : List α) :
    Aligned (items.map fun item => (width item, wideAlign)) := by
  intro slot hmem
  obtain ⟨item, _, rfl⟩ := List.mem_map.mp hmem
  exact ⟨3, Nat.le_refl _, rfl⟩

theorem packedEnd_descriptors (metrics : List Metric) :
    packedEnd (descriptorsStart metrics)
      (metrics.map fun _ => (FileFormat.Described.descriptorLength, narrowAlign)) =
        descriptorsStart metrics + 76 * metrics.length := by
  have hfour : 4 ∣ descriptorsStart metrics := by
    rw [descriptorsStart]
    omega
  exact packedEnd_const (by decide) (by decide) metrics hfour

theorem packedEnd_records (metrics : List Metric) :
    packedEnd (recordsStart metrics)
      (metrics.map fun _ => (FileFormat.Described.recordLength, wideAlign)) =
        slotsStart metrics :=
  packedEnd_const (by decide) (by decide) metrics (dvd_roundUp _ _)

theorem packedEnd_large (metrics : List Metric) (slot : Nat) :
    packedEnd slot ((metrics.filter fun metric => metric.handler.large).map
      fun metric => (metric.handler.dataLength, wideAlign)) = finishFrom metrics slot := by
  induction metrics generalizing slot with
  | nil => rfl
  | cons metric rest ih =>
      rw [finishFrom]
      cases hlarge : metric.handler.large with
      | true =>
          rw [if_pos rfl, List.filter_cons_of_pos (by exact hlarge), List.map_cons, packedEnd, ih]
          rfl
      | false =>
          rw [if_neg (by decide), List.filter_cons_of_neg (by rw [hlarge]; decide), ih]

theorem slotsStart_le_finish (metrics : List Metric) : slotsStart metrics ≤ finish metrics := by
  have hslots : Stacked (slotsStart metrics) (slotSpans (metrics.zip (places metrics)))
      (finish metrics) := stacked_slots
  exact hslots.le

/-- A plan does not overflow where the exact end and one more alignment fit the word. -/
theorem exists_plan? {metrics : List Metric} (hbound : finish metrics + 8 < 2 ^ 64) :
    ∃ outcome, FileFormat.Described.plan? metrics = some outcome := by
  -- Every part ends before the last one does, so that one bound serves for all of them.
  have hslotsStart := slotsStart_le_finish metrics
  have hrecords : recordsStart metrics + 24 * metrics.length = slotsStart metrics := rfl
  have hdescriptors : descriptorsStart metrics + 76 * metrics.length ≤ recordsStart metrics :=
    le_roundUp _ (by decide)
  have height : 8 ∣ slotsStart metrics :=
    (Nat.dvd_add_right (dvd_roundUp _ _)).mpr (Nat.dvd_mul_right_of_dvd (by decide) _)
  have hstart := toNat_tableEnd metrics
  simp only [FileFormat.Described.plan?]
  generalize FileFormat.Described.headerLength + FileFormat.Described.entryLength *
    (if (metrics.filter fun metric => metric.handler.large).isEmpty then 2 else 3) = start
    at hstart ⊢
  have hdescriptorsEnd := packedEnd_descriptors metrics
  rw [← hstart] at hdescriptorsEnd
  obtain ⟨descriptors, descriptorsEnd, hfirstRun, hfirstEnd⟩ :=
    exists_packSlots? start (aligned_narrow metrics) (by omega)
  obtain ⟨first, hfirst, hfirstStart⟩ := exists_alignUp? descriptorsEnd
    (show wideAlign.toNat = 2 ^ 3 from rfl) (by change _ + 8 < _; omega)
  have hfirstStart : first.toNat = recordsStart metrics := by
    rw [hfirstStart, hfirstEnd, hdescriptorsEnd, hstart]
    rfl
  have hrecordsEnd := packedEnd_records metrics
  rw [← hfirstStart] at hrecordsEnd
  obtain ⟨records, recordsEnd, hsecondRun, hsecondEnd⟩ := exists_packSlots? first
    (aligned_wide (fun _ => FileFormat.Described.recordLength) metrics) (by omega)
  obtain ⟨second, hsecond, hsecondStart⟩ := exists_alignUp? recordsEnd
    (show wideAlign.toNat = 2 ^ 3 from rfl) (by change _ + 8 < _; omega)
  have hsecondStart : second.toNat = slotsStart metrics := by
    rw [hsecondStart, hsecondEnd, hrecordsEnd]
    exact roundUp_eq_self (by decide) height
  obtain ⟨slots, slotsEnd, hthirdRun, _⟩ := exists_packSlots? second
    (aligned_wide (fun metric : Metric => metric.handler.dataLength) _)
    (by rw [packedEnd_large, hsecondStart]; exact hbound)
  simp only [hfirstRun, hfirst, hsecondRun, hsecond, hthirdRun, Option.bind_eq_bind,
    Option.bind_some]
  exact ⟨_, rfl⟩

theorem exact_of_plan {metrics : List Metric} {layout : Layout}
    (hplan : FileFormat.mmv.plan metrics = .ok layout) : Exact metrics layout := by
  simp only [FileFormat.plan] at hplan
  split at hplan
  · cases hplan
  · rename_i hnone
    cases hplanned : FileFormat.Described.plan? metrics with
    | none =>
        rw [hplanned] at hplan
        cases hplan
    | some outcome =>
        rw [hplanned, Option.getD_some] at hplan
        exact exact_of_plan? (width_le_of_oversized? hnone) (hplan ▸ hplanned)

/-- The parts of a file: the header, the table of contents, the descriptors, the records, and the
slots of the large values among metrics with their places. -/
def regions (metrics : List Metric) (entryCount : Nat) (places : List Place) : List Span :=
  [⟨0, 32⟩, ⟨32, 16 * entryCount⟩] ++ places.map Place.descriptorSpan ++
    places.map Place.recordSpan ++ slotSpans (metrics.zip places)

theorem stacked_regions (metrics : List Metric) :
    Stacked 0 (regions metrics (blockCount metrics) (places metrics)) (finish metrics) := by
  have hheader : Stacked 0 [⟨0, 32⟩, ⟨32, 16 * blockCount metrics⟩] (descriptorsStart metrics) :=
    ⟨Nat.le_refl _, Nat.le_refl _, Nat.le_refl _⟩
  have hrecordsStart : descriptorsStart metrics + 76 * metrics.length ≤ recordsStart metrics :=
    le_roundUp _ (by decide)
  exact ((hheader.append stacked_descriptors).append
    (stacked_records.mono hrecordsStart)).append stacked_slots

theorem length_blocks (metrics : List Metric) :
    (blocks metrics).length = blockCount metrics := by
  rw [blocks, blockCount, List.length_append]
  split <;> rfl

theorem exists_strings_iff (metrics : List Metric) :
    (∃ block ∈ blocks metrics, block.kind = .strings) ↔
      ∃ metric ∈ metrics, metric.handler.large = true := by
  have hcount : largeCount metrics = 0 ↔ ∀ metric ∈ metrics, ¬ metric.handler.large = true := by
    rw [largeCount, List.length_eq_zero_iff, List.filter_eq_nil_iff]
  rw [blocks]
  split
  · rename_i hnone
    refine iff_of_false ?_ ?_
    · rintro ⟨block, hmem, hkind⟩
      simp only [List.append_nil, List.mem_cons, List.not_mem_nil, or_false] at hmem
      rcases hmem with rfl | rfl <;> cases hkind
    · rintro ⟨metric, hmem, hlarge⟩
      exact hcount.mp hnone metric hmem hlarge
  · rename_i hsome
    refine iff_of_true ⟨_, List.mem_append_right _ List.mem_cons_self, rfl⟩ ?_
    apply Classical.byContradiction
    intro hnot
    exact hsome (hcount.mpr fun metric hmem hlarge => hnot ⟨metric, hmem, hlarge⟩)

/-- Exact slots for values of given widths, from a free one on. -/
def packFrom : Nat → List Nat → List Nat
  | _, [] => []
  | slot, width :: rest => roundUp slot 8 :: packFrom (roundUp slot 8 + width) rest

theorem values_of_large {metrics : List Metric} {descriptor record slot : Nat} :
    (slotSpans (metrics.zip (placesFrom metrics descriptor record slot))).map Span.start =
      packFrom slot ((metrics.filter fun metric => metric.handler.large).map width) := by
  induction metrics generalizing descriptor record slot with
  | nil => rfl
  | cons metric rest ih =>
      rw [placesFrom]
      cases hlarge : metric.handler.large with
      | true =>
          rw [if_pos rfl, List.zip_cons_cons, slotSpans_cons_of_large hlarge, List.map_cons, ih,
            List.filter_cons_of_pos (by exact hlarge), List.map_cons, packFrom]
          rfl
      | false =>
          rw [if_neg (by decide), List.zip_cons_cons, slotSpans_cons_of_inline hlarge, ih,
            List.filter_cons_of_neg (by rw [hlarge]; decide)]

theorem getElem?_placesFrom {metrics : List Metric} {descriptor record slot i : Nat}
    {place : Place} (hplace : (placesFrom metrics descriptor record slot)[i]? = some place) :
    place.descriptor = descriptor + 76 * i ∧ place.record = record + 24 * i := by
  induction metrics generalizing descriptor record slot i with
  | nil => cases hplace
  | cons metric rest ih =>
      rw [placesFrom] at hplace
      cases i with
      | zero =>
          split at hplace <;>
          · cases hplace
            exact ⟨rfl, rfl⟩
      | succ i =>
          split at hplace <;>
          · obtain ⟨hdescriptor, hrecord⟩ := ih hplace
            exact ⟨by omega, by omega⟩

theorem finishFrom_eq_or {metrics : List Metric} {descriptor record slot : Nat} :
    finishFrom metrics slot = slot ∨
      ∃ entry ∈ metrics.zip (placesFrom metrics descriptor record slot),
        (entry.2.slotSpan entry.1).finish = finishFrom metrics slot := by
  induction metrics generalizing descriptor record slot with
  | nil => exact .inl rfl
  | cons metric rest ih =>
      rw [finishFrom, placesFrom]
      split
      · rcases @ih (descriptor + 76) (record + 24) (roundUp slot 8 + width metric) with
          hend | ⟨entry, hmem, hend⟩
        · rw [hend]
          exact .inr ⟨_, List.mem_cons_self, rfl⟩
        · exact .inr ⟨entry, List.mem_cons_of_mem _ hmem, hend⟩
      · rcases @ih (descriptor + 76) (record + 24) slot with
          hend | ⟨entry, hmem, hend⟩
        · exact .inl hend
        · exact .inr ⟨entry, List.mem_cons_of_mem _ hmem, hend⟩

def placesOf (layout : Layout) : List Place :=
  layout.offsets.filterMap Place.ofOffsets?

theorem exists_mem_zip {metrics : List Metric} {places : List Place} {place : Place}
    (hlength : places.length = metrics.length) (hmem : place ∈ places) :
    ∃ metric, (metric, place) ∈ metrics.zip places := by
  obtain ⟨i, hi, rfl⟩ := List.mem_iff_getElem.mp hmem
  refine ⟨metrics[i], List.mem_iff_getElem.mpr ⟨i, ?_, List.getElem_zip⟩⟩
  rw [List.length_zip]
  omega

theorem le_finish {metrics : List Metric} {place : Place} (hmem : place ∈ places metrics) :
    place.descriptor ≤ finish metrics ∧ place.record ≤ finish metrics ∧
      place.value ≤ finish metrics := by
  have hbounds : ∀ span ∈ regions metrics (blockCount metrics) (places metrics),
      span.finish ≤ finish metrics := fun span hspan =>
    ((stacked_regions metrics).mem_bounds hspan).2
  have hdescriptor : place.descriptor + 76 ≤ finish metrics :=
    hbounds place.descriptorSpan (List.mem_append_left _ (List.mem_append_left _
      (List.mem_append_right _ (List.mem_map_of_mem hmem))))
  have hrecord : place.record + 24 ≤ finish metrics :=
    hbounds place.recordSpan (List.mem_append_left _
      (List.mem_append_right _ (List.mem_map_of_mem hmem)))
  obtain ⟨metric, hentry⟩ := exists_mem_zip length_placesFrom hmem
  refine ⟨by omega, by omega, ?_⟩
  cases hlarge : metric.handler.large with
  | true =>
      have hslot : place.value + width metric ≤ finish metrics := by
        refine hbounds (place.slotSpan metric) (List.mem_append_right _ ?_)
        exact List.mem_filterMap.mpr ⟨(metric, place), hentry, by rw [if_pos hlarge]⟩
      omega
  | false =>
      have hvalue : place.value = place.record + 8 := value_of_inline _ hentry hlarge
      omega

theorem Exact.map_ofOffsets? {metrics : List Metric} {layout : Layout}
    (hexact : Exact metrics layout) :
    layout.offsets.map Place.ofOffsets? = (places metrics).map some := by
  rw [hexact.offsets, List.map_map, List.map_inj_left]
  intro place hmem
  have hlength := layout.length_le
  rw [hexact.length] at hlength
  obtain ⟨hdescriptor, hrecord, hvalue⟩ := le_finish hmem
  exact Place.ofOffsets?_narrowed (by omega) (by omega) (by omega)

theorem Exact.placesOf {metrics : List Metric} {layout : Layout} (hexact : Exact metrics layout) :
    placesOf layout = places metrics := by
  have hmap := congrArg (List.filterMap id) hexact.map_ofOffsets?
  rwa [List.filterMap_map, List.filterMap_map, Function.id_comp, Function.id_comp,
    List.filterMap_some] at hmap

structure WellPlanned (metrics : List Metric) (layout : Layout) : Prop where
  /-- Every metric has a place, and no offset is cut off. -/
  exact : layout.offsets.map Place.ofOffsets? = (places metrics).map some
  one_each : (placesOf layout).length = metrics.length
  length : layout.length = finish metrics
  blocks : layout.blocks = blocks metrics
  /-- The table of contents is as long as the space that is left for it. -/
  reserved : descriptorsStart metrics = 32 + 16 * layout.blocks.length
  /-- Slots have a block of their own if and only if a value is large. -/
  slotted : (∃ block ∈ layout.blocks, block.kind = .strings) ↔
    ∃ metric ∈ metrics, metric.handler.large = true
  arrays : ∀ i place, (placesOf layout)[i]? = some place →
    place.descriptor = descriptorsStart metrics + 76 * i ∧
      place.record = recordsStart metrics + 24 * i
  /-- Large values have the packed slots, one after the other. -/
  slots : (slotSpans (metrics.zip (placesOf layout))).map Span.start =
    packFrom (slotsStart metrics) ((metrics.filter fun metric => metric.handler.large).map width)
  /-- Every other value lies in its own record. -/
  inline : ∀ entry ∈ metrics.zip (placesOf layout), entry.1.handler.large = false →
    (entry.2.slotSpan entry.1).Within entry.2.payloadSpan
  aligned : ∀ place ∈ placesOf layout, 4 ∣ place.descriptor ∧ 8 ∣ place.record ∧ 8 ∣ place.value
  apart : (regions metrics layout.blocks.length (placesOf layout)).Pairwise Span.Apart
  inside : ∀ span ∈ regions metrics layout.blocks.length (placesOf layout),
    span.finish ≤ layout.length

/-- The offsets of a planned file are those of an exact layout, where numbers have no bound and each
part of the file follows the part before it. -/
theorem wellPlanned_of_plan {metrics : List Metric} {layout : Layout}
    (hplan : FileFormat.mmv.plan metrics = .ok layout) : WellPlanned metrics layout := by
  have hexact := exact_of_plan hplan
  have hplaces := hexact.placesOf
  have hcount : layout.blocks.length = blockCount metrics := by
    rw [hexact.blocks, length_blocks]
  have hstacked := stacked_regions metrics
  have hfour : 4 ∣ descriptorsStart metrics := by
    rw [descriptorsStart]
    omega
  refine
    { exact := hexact.map_ofOffsets?
      one_each := by rw [hplaces, places, length_placesFrom]
      length := hexact.length
      blocks := hexact.blocks
      reserved := by rw [hcount, descriptorsStart]
      slotted := by rw [hexact.blocks]; exact exists_strings_iff metrics
      arrays := ?_
      slots := by rw [hplaces, places, values_of_large]
      inline := ?_
      aligned := ?_
      apart := by rw [hplaces, hcount]; exact hstacked.pairwise
      inside := ?_ }
  · intro i place hplace
    rw [hplaces] at hplace
    exact getElem?_placesFrom hplace
  · rw [hplaces]
    intro entry hmem hinline
    have hvalue := value_of_inline entry hmem hinline
    have hwidth := hexact.inline_le entry.1 (List.of_mem_zip hmem).1 hinline
    refine ⟨Nat.le_of_eq hvalue.symm, ?_⟩
    change entry.2.value + width entry.1 ≤ entry.2.record + 8 + 16
    omega
  · rw [hplaces]
    exact aligned_placesFrom hfour (dvd_roundUp _ _)
  · rw [hplaces, hcount, hexact.length]
    exact fun span hmem => (hstacked.mem_bounds hmem).2

/-- A count in its record, and a text of at most 9 bytes in a slot of its own. -/
def countAndText : List Metric :=
  [⟨"count", .counter, .item, .numeric .i64, .i64 0⟩,
    ⟨"text", .discrete, .item, .text 10, .str "idle"⟩]

theorem wellPlanned_countAndText : ∃ layout, FileFormat.mmv.plan countAndText = .ok layout ∧
    layout.length = 290 ∧ WellPlanned countAndText layout := by
  have hplan : FileFormat.mmv.plan countAndText = .ok
      ⟨290, [⟨some 80, some 232, 240⟩, ⟨some 156, some 256, 280⟩],
        [⟨.metrics, 80, 2⟩, ⟨.values, 232, 2⟩, ⟨.strings, 280, 1⟩], by decide⟩ := rfl
  exact ⟨_, hplan, rfl, wellPlanned_of_plan hplan⟩

end MappedMetrics.Proofs.SelfDescribingLayout
