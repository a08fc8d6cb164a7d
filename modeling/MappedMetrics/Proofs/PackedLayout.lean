import MappedMetrics.FileFormat
import MappedMetrics.Proofs.SelfDescribingLayout

namespace MappedMetrics.Proofs.PackedLayout

open MappedMetrics
open MappedMetrics.Layout
open MappedMetrics.Proofs.Spans
open MappedMetrics.Proofs.SlotPacking
open MappedMetrics.Proofs.SelfDescribingLayout

/-- The slot of a metric. -/
def slotOf (entry : Metric × Offsets) : Span :=
  ⟨entry.2.value.toNat, entry.1.handler.dataLength.toNat⟩

/-- The alignment of a slot by its length. -/
def alignmentOf (length : Nat) : Nat :=
  if length = 8 then 8 else 4

theorem alignmentOf_pos (length : Nat) : 0 < alignmentOf length := by
  rw [alignmentOf]
  split <;> decide

theorem toNat_alignmentFor (width : UInt64) :
    (alignmentFor width).toNat = alignmentOf width.toNat := by
  have height : width = 8 ↔ width.toNat = 8 := UInt64.toNat_inj.symm
  simp only [alignmentFor, alignmentOf, height]
  split <;> rfl

theorem aligned_slots (metrics : List Metric) : Aligned (FileFormat.Packed.slots metrics) := by
  intro slot hmem
  obtain ⟨metric, _, rfl⟩ := List.mem_map.mp hmem
  simp only [alignmentFor]
  split
  · exact ⟨3, Nat.le_refl _, rfl⟩
  · exact ⟨2, by decide, rfl⟩

/-- The slots of a layout. -/
def slotsOf (metrics : List Metric) (layout : Layout) : List Span :=
  (metrics.zip layout.offsets).map slotOf

/-- The slots of a packed file, where numbers have no bound. -/
def exactSlots (metrics : List Metric) : List Span :=
  spansFrom 9 (FileFormat.Packed.slots metrics)

theorem length_exactSlots (metrics : List Metric) :
    (exactSlots metrics).length = metrics.length := by
  rw [exactSlots, length_spansFrom, FileFormat.Packed.slots, List.length_map]

theorem stacked_exactSlots (metrics : List Metric) :
    Stacked 9 (exactSlots metrics) (freeAfter 9 (exactSlots metrics)) :=
  stacked_spansFrom (aligned_slots metrics) 9

/-- A slot without a descriptor and a record. -/
def offsetsAt (slot : Span) : Offsets :=
  ⟨none, none, narrow slot.start⟩

section Planned

variable {metrics : List Metric} {layout : Layout}

theorem exists_packed_of_plan (hplan : FileFormat.legacy.plan metrics = .ok layout) :
    ∃ values finish, packSlots? 9 (FileFormat.Packed.slots metrics) = some (values, finish) ∧
      layout.length = finish.toNat ∧
      layout.offsets = values.map fun value => ⟨none, none, narrow value.toNat⟩ := by
  simp only [FileFormat.plan] at hplan
  cases hplanned : FileFormat.Packed.plan? metrics with
  | none =>
      rw [hplanned] at hplan
      cases hplan
  | some outcome =>
      rw [hplanned, Option.getD_some] at hplan
      subst hplan
      simp only [FileFormat.Packed.plan?, Option.bind_eq_bind, Option.bind_eq_some_iff,
        Option.some.injEq, Layout.ofParts] at hplanned
      obtain ⟨⟨values, finish⟩, hpacked, hparts⟩ := hplanned
      split at hparts
      · cases hparts
        exact ⟨values, finish, hpacked, rfl, rfl⟩
      · cases hparts

theorem exactSlots_of_plan (hplan : FileFormat.legacy.plan metrics = .ok layout) :
    layout.offsets = (exactSlots metrics).map offsetsAt ∧
      layout.length = freeAfter 9 (exactSlots metrics) := by
  obtain ⟨values, finish, hpacked, hfinish, hoffsets⟩ := exists_packed_of_plan hplan
  obtain ⟨hstarts, hend⟩ := exact_of_packSlots? (aligned_slots metrics) hpacked
  refine ⟨?_, hfinish.trans hend⟩
  calc layout.offsets = (values.map UInt64.toNat).map fun start => ⟨none, none, narrow start⟩ := by
        rw [hoffsets, List.map_map]
        rfl
    _ = (exactSlots metrics).map offsetsAt := by
        rw [hstarts, List.map_map]
        rfl

theorem map_slotOf_spansFrom {free : Nat}
    (hfits : ∀ slot ∈ spansFrom free (FileFormat.Packed.slots metrics), slot.start ≤ maxLength) :
    (metrics.zip ((spansFrom free (FileFormat.Packed.slots metrics)).map offsetsAt)).map slotOf =
      spansFrom free (FileFormat.Packed.slots metrics) := by
  induction metrics generalizing free with
  | nil => rfl
  | cons metric rest ih =>
      obtain ⟨hfirst, hrest⟩ := List.forall_mem_cons.mp hfits
      rw [FileFormat.Packed.slots, List.map_cons, spansFrom, List.map_cons, List.zip_cons_cons,
        List.map_cons]
      refine congr (congrArg List.cons ?_) (ih hrest)
      rw [slotOf, offsetsAt, toNat_narrow hfirst]

theorem slotsOf_eq (hplan : FileFormat.legacy.plan metrics = .ok layout) :
    slotsOf metrics layout = exactSlots metrics := by
  obtain ⟨hoffsets, hlength⟩ := exactSlots_of_plan hplan
  have hlimit := layout.length_le
  rw [hlength] at hlimit
  rw [slotsOf, hoffsets]
  refine map_slotOf_spansFrom fun slot hmem => ?_
  exact Nat.le_trans (Nat.le_add_right _ _)
    (Nat.le_trans ((stacked_exactSlots metrics).mem_bounds hmem).2 hlimit)

theorem stacked_slotOf (hplan : FileFormat.legacy.plan metrics = .ok layout) :
    layout.offsets.length = metrics.length ∧
      Stacked 9 ((metrics.zip layout.offsets).map slotOf) layout.length := by
  obtain ⟨hoffsets, hlength⟩ := exactSlots_of_plan hplan
  have hslots : (metrics.zip layout.offsets).map slotOf = exactSlots metrics := slotsOf_eq hplan
  refine ⟨by rw [hoffsets, List.length_map, length_exactSlots], ?_⟩
  rw [hslots, hlength]
  exact stacked_exactSlots metrics

theorem start_of_getElem? {i : Nat} {slot : Span} (hslot : (exactSlots metrics)[i]? = some slot) :
    slot.start =
      roundUp (freeAfter 9 ((exactSlots metrics).take i)) (alignmentOf slot.length) := by
  obtain ⟨hi, -⟩ := List.getElem?_eq_some_iff.mp hslot
  rw [length_exactSlots] at hi
  have hpair : (FileFormat.Packed.slots metrics)[i]? =
      some (metrics[i].handler.dataLength, alignmentFor metrics[i].handler.dataLength) := by
    rw [FileFormat.Packed.slots, List.getElem?_map, List.getElem?_eq_getElem hi]
    rfl
  have hexact : (spansFrom 9 (FileFormat.Packed.slots metrics))[i]? = _ := getElem?_spansFrom hpair
  rw [exactSlots] at hslot
  rw [hslot, toNat_alignmentFor] at hexact
  cases hexact
  rfl

end Planned

/-- Where the slots of a packed file lie. -/
structure WellPacked (metrics : List Metric) (layout : Layout) : Prop where
  one_each : layout.offsets.length = metrics.length
  /-- A packed file has neither descriptors nor blocks of data. -/
  bare : ∀ offsets ∈ layout.offsets, offsets.descriptor = none ∧ offsets.dataBlock = none
  /-- No offset is cut off where it is narrowed. -/
  exact : slotsOf metrics layout = exactSlots metrics
  length : layout.length = freeAfter 9 (slotsOf metrics layout)
  inside : ∀ slot ∈ slotsOf metrics layout, 9 ≤ slot.start ∧ slot.finish ≤ layout.length
  apart : (slotsOf metrics layout).Pairwise Span.Apart
  ordered : (slotsOf metrics layout).Pairwise fun first second => first.start ≤ second.start
  aligned : ∀ slot ∈ slotsOf metrics layout, alignmentOf slot.length ∣ slot.start
  /-- A slot begins as soon behind the one before it as its alignment allows. -/
  tight : ∀ i slot, (slotsOf metrics layout)[i]? = some slot →
    freeAfter 9 ((slotsOf metrics layout).take i) ≤ slot.start ∧
      slot.start < freeAfter 9 ((slotsOf metrics layout).take i) + alignmentOf slot.length
  /-- A further metric leaves the offsets of the others as they are. -/
  extended : ∀ metric longer, FileFormat.legacy.plan (metrics ++ [metric]) = .ok longer →
    ∃ last, longer.offsets = layout.offsets ++ [last]

/-- The slots of a packed file follow the header and each other, each at the least multiple of its
alignment, and the file ends with the last of them. -/
theorem wellPacked_of_plan {metrics : List Metric} {layout : Layout}
    (hplan : FileFormat.legacy.plan metrics = .ok layout) : WellPacked metrics layout := by
  obtain ⟨hoffsets, hlength⟩ := exactSlots_of_plan hplan
  have hslots := slotsOf_eq hplan
  have hstacked := stacked_exactSlots metrics
  refine
    { one_each := by rw [hoffsets, List.length_map, length_exactSlots]
      bare := ?_
      exact := hslots
      length := by rw [hslots, hlength]
      inside := ?_
      apart := by rw [hslots]; exact hstacked.pairwise
      ordered := by rw [hslots]; exact hstacked.ordered
      aligned := ?_
      tight := ?_
      extended := ?_ }
  · intro offsets hmem
    rw [hoffsets] at hmem
    obtain ⟨slot, -, rfl⟩ := List.mem_map.mp hmem
    exact ⟨rfl, rfl⟩
  · rw [hslots, hlength]
    exact fun slot hmem => hstacked.mem_bounds hmem
  · rw [hslots]
    intro slot hmem
    obtain ⟨i, hslot⟩ := List.mem_iff_getElem?.mp hmem
    rw [start_of_getElem? hslot]
    exact dvd_roundUp _ _
  · rw [hslots]
    intro i slot hslot
    rw [start_of_getElem? hslot]
    exact ⟨le_roundUp _ (alignmentOf_pos _), roundUp_lt _ (alignmentOf_pos _)⟩
  · intro metric longer hlonger
    have hsplit : FileFormat.Packed.slots (metrics ++ [metric]) =
        FileFormat.Packed.slots metrics ++ FileFormat.Packed.slots [metric] :=
      List.map_append
    rw [(exactSlots_of_plan hlonger).1, hoffsets, exactSlots, hsplit, spansFrom_append,
      List.map_append]
    exact ⟨_, rfl⟩

/-- Slots of four, eight, five and eight bytes. -/
def mixed : List Metric :=
  [⟨"flag", .discrete, .item, .numeric .bool, .bool true⟩,
    ⟨"total", .counter, .item, .numeric .i64, .i64 7⟩,
    ⟨"text", .discrete, .item, .text 5, .str "idle"⟩,
    ⟨"ratio", .instant, .item, .numeric .f64, .f64 0⟩]

theorem wellPacked_mixed : ∃ layout, FileFormat.legacy.plan mixed = .ok layout ∧
    layout.length = 40 ∧ WellPacked mixed layout := by
  have hplan : FileFormat.legacy.plan mixed = .ok
      ⟨40, [⟨none, none, 12⟩, ⟨none, none, 16⟩, ⟨none, none, 24⟩, ⟨none, none, 32⟩],
        [⟨.values, 12, 4⟩], by decide⟩ := rfl
  exact ⟨_, hplan, rfl, wellPacked_of_plan hplan⟩

end MappedMetrics.Proofs.PackedLayout
