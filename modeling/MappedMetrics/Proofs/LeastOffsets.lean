import Mathlib.Order.Bounds.Basic
import MappedMetrics.Proofs.PlanningSums

namespace MappedMetrics.Proofs.LeastOffsets

open MappedMetrics.Layout
open MappedMetrics.Proofs.Spans
open MappedMetrics.Proofs.SlotPacking
open MappedMetrics.Proofs.PlanningSums

/-- The multiples of an alignment that are not below an offset. -/
def multiplesFrom (offset align : Nat) : Set Nat :=
  {n | align ∣ n ∧ offset ≤ n}

theorem isLeast_roundUp {align : Nat} (offset : Nat) (halign : 0 < align) :
    IsLeast (multiplesFrom offset align) (roundUp offset align) := by
  refine ⟨⟨dvd_roundUp offset align, le_roundUp offset halign⟩, ?_⟩
  rintro n ⟨hdvd, hle⟩
  exact roundUp_le hle hdvd

/-- What the mask makes of an offset. -/
structure Masks (offset align : UInt64) : Prop where
  /-- There is a least multiple from the offset on, and the mask gives it modulo the word. -/
  wraps : ∃ least, IsLeast (multiplesFrom offset.toNat align.toNat) least ∧
    (alignUp offset align).toNat = least % 2 ^ 64
  /-- Wherever a word can hold the least multiple, the mask gives the multiple itself. -/
  exact : ∀ least < 2 ^ 64, IsLeast (multiplesFrom offset.toNat align.toNat) least →
    (alignUp offset align).toNat = least
  /-- Rounding up is stopped where the sum in between leaves the word. -/
  checked : alignUp? offset align =
    if offset.toNat + align.toNat < 2 ^ 64 then some (alignUp offset align) else none

theorem masks_of_power (offset : UInt64) {align : UInt64} {k : Nat}
    (halign : align.toNat = 2 ^ k) : Masks offset align := by
  have hpos : 0 < align.toNat := halign ▸ Nat.two_pow_pos k
  have hround := isLeast_roundUp offset.toNat hpos
  have hword := toNat_alignUp offset halign
  refine ⟨⟨_, hround, hword⟩, fun least hleast hmultiple => ?_, ?_⟩
  · rw [hword, hround.unique hmultiple, Nat.mod_eq_of_lt hleast]
  · have hzero : align ≠ 0 := by
      rintro rfl
      exact Nat.lt_irrefl 0 hpos
    rw [alignUp?, if_neg hzero, add?]
    split <;> rfl

/-- Offsets that follow one another as closely as the alignments of their slots allow. -/
structure Tight (start : UInt64) (slots : List (UInt64 × UInt64)) (offsets : List UInt64)
    (finish : UInt64) : Prop where
  one_each : offsets.length = slots.length
  least : ∀ i slot offset, slots[i]? = some slot → offsets[i]? = some offset →
    IsLeast (multiplesFrom (freeAfter start.toNat ((placed slots offsets).take i)) slot.2.toNat)
      offset.toNat
  finish : finish.toNat = freeAfter start.toNat (placed slots offsets)

section Packing

variable {start finish : UInt64} {slots : List (UInt64 × UInt64)} {offsets : List UInt64}

theorem tight_of_packSlots? (hpowers : PowerAligned slots)
    (hpacked : packSlots? start slots = some (offsets, finish)) :
    Tight start slots offsets finish := by
  obtain ⟨hplaced, hfinish⟩ := placed_of_packSlots? hpowers hpacked
  refine ⟨length_of_packSlots? hpacked, fun i slot offset hslot hoffset => ?_, ?_⟩
  · obtain ⟨k, hk⟩ := hpowers slot (List.mem_of_getElem? hslot)
    have hspan : (placed slots offsets)[i]? = some ⟨offset.toNat, slot.1.toNat⟩ := by
      rw [placed, List.getElem?_zipWith, hslot, hoffset]
    have hexact : (spansFrom start.toNat slots)[i]? = _ := getElem?_spansFrom hslot
    rw [← hplaced, hspan] at hexact
    obtain ⟨hstart, -⟩ := Span.mk.inj (Option.some.inj hexact)
    rw [hstart]
    exact isLeast_roundUp _ (hk ▸ Nat.two_pow_pos k)
  · rw [hplaced, hfinish]

theorem packSlots?_append (start : UInt64) (slots more : List (UInt64 × UInt64)) :
    packSlots? start (slots ++ more) = (packSlots? start slots).bind fun (first, middle) =>
      (packSlots? middle more).map fun (second, finish) => (first ++ second, finish) := by
  induction slots generalizing start with
  | nil =>
      rw [List.nil_append, packSlots?, Option.bind_some]
      dsimp only
      cases packSlots? start more <;> rfl
  | cons slot rest ih =>
      obtain ⟨width, align⟩ := slot
      rw [List.cons_append, packSlots?, packSlots?]
      simp only [ih, Option.bind_eq_bind, Option.bind_assoc, Option.bind_some, Option.map_eq_bind,
        Function.comp_def, List.cons_append]

end Packing

/-- What packing makes of slots from an offset on. -/
structure Packs (start : UInt64) (slots : List (UInt64 × UInt64)) : Prop where
  /-- Without a sum beyond the word there are offsets, each the least that there can be. -/
  packed : (∀ sum ∈ packedSums start.toNat slots, sum < 2 ^ 64) →
    ∃ offsets finish, packSlots? start slots = some (offsets, finish) ∧
      Tight start slots offsets finish
  /-- With a sum beyond the word there are no offsets. -/
  stopped : ∀ sum ∈ packedSums start.toNat slots, 2 ^ 64 ≤ sum → packSlots? start slots = none
  append : ∀ more, packSlots? start (slots ++ more) =
    (packSlots? start slots).bind fun (first, middle) =>
      (packSlots? middle more).map fun (second, finish) => (first ++ second, finish)

/-- The mask rounds up to the least multiple of any power of two, and packing places slots at such
multiples, one after the other. -/
theorem packs_least :
    (∀ (offset align : UInt64) (k : Nat), align.toNat = 2 ^ k → Masks offset align) ∧
      ∀ (start : UInt64) (slots : List (UInt64 × UInt64)), PowerAligned slots →
        Packs start slots := by
  refine ⟨fun offset align k halign => masks_of_power offset halign, ?_⟩
  intro start slots hpowers
  have hsome : (packSlots? start slots).isSome = true ↔ _ := isSome_packSlots? hpowers
  refine ⟨fun hsums => ?_, fun sum hmem hbeyond => ?_, packSlots?_append start slots⟩
  · obtain ⟨⟨offsets, finish⟩, hpacked⟩ := Option.isSome_iff_exists.mp (hsome.mpr hsums)
    exact ⟨offsets, finish, hpacked, tight_of_packSlots? hpowers hpacked⟩
  · refine Option.not_isSome_iff_eq_none.mp fun hpacked => ?_
    exact absurd (hsome.mp hpacked sum hmem) (Nat.not_lt.mpr hbeyond)

/-- Slots of alignments four, sixteen, one and eight. -/
def fourAlignments : List (UInt64 × UInt64) :=
  [(4, 4), (20, 16), (3, 1), (8, 8)]

theorem powerAligned_fourAlignments : PowerAligned fourAlignments := by
  intro slot hmem
  simp only [fourAlignments, List.mem_cons, List.not_mem_nil, or_false] at hmem
  rcases hmem with rfl | rfl | rfl | rfl
  · exact ⟨2, rfl⟩
  · exact ⟨4, rfl⟩
  · exact ⟨0, rfl⟩
  · exact ⟨3, rfl⟩

/-- The last offset of the word is rounded up to zero, and four slots lie behind nine bytes. -/
theorem packs_fourAlignments :
    (8 : UInt64).toNat = 2 ^ 3 ∧ Masks 0xFFFFFFFFFFFFFFFF 8 ∧ alignUp 0xFFFFFFFFFFFFFFFF 8 = 0 ∧
      PowerAligned fourAlignments ∧ (∀ sum ∈ packedSums 9 fourAlignments, sum < 2 ^ 64) ∧
      Tight 9 fourAlignments [12, 16, 36, 40] 48 := by
  obtain ⟨hmasks, hpacks⟩ := packs_least
  have hsums : ∀ sum ∈ packedSums 9 fourAlignments, sum < 2 ^ 64 := by decide
  obtain ⟨offsets, finish, hpacked, htight⟩ :=
    (hpacks 9 fourAlignments powerAligned_fourAlignments).packed hsums
  have hrun : packSlots? 9 fourAlignments = some ([12, 16, 36, 40], 48) := rfl
  rw [hrun] at hpacked
  cases hpacked
  exact ⟨rfl, hmasks _ 8 3 rfl, rfl, powerAligned_fourAlignments, hsums, htight⟩

end MappedMetrics.Proofs.LeastOffsets
