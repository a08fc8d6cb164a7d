import MappedMetrics.Layout.Slots
import MappedMetrics.Proofs.Spans

namespace MappedMetrics.Proofs.SlotPacking

open MappedMetrics.Layout
open MappedMetrics.Proofs.Spans

/-- The least multiple of `align` from `offset` on. -/
def roundUp (offset align : Nat) : Nat :=
  (offset + align - 1) / align * align

theorem dvd_roundUp (offset align : Nat) : align ∣ roundUp offset align :=
  Nat.dvd_mul_left _ _

theorem le_roundUp {align : Nat} (offset : Nat) (halign : 0 < align) :
    offset ≤ roundUp offset align := by
  have hdiv := Nat.div_add_mod (offset + align - 1) align
  have hmod := Nat.mod_lt (offset + align - 1) halign
  rw [Nat.mul_comm] at hdiv
  rw [roundUp]
  omega

theorem roundUp_lt {align : Nat} (offset : Nat) (halign : 0 < align) :
    roundUp offset align < offset + align := by
  have hdiv := Nat.div_mul_le_self (offset + align - 1) align
  rw [roundUp]
  omega

theorem roundUp_le {offset align bound : Nat} (hle : offset ≤ bound) (hdvd : align ∣ bound) :
    roundUp offset align ≤ bound := by
  obtain ⟨count, rfl⟩ := hdvd
  rcases Nat.eq_zero_or_pos align with rfl | halign
  · simp [roundUp]
  · have hcount : (offset + align - 1) / align < count + 1 := by
      rw [Nat.div_lt_iff_lt_mul halign, Nat.add_mul, Nat.mul_comm count]
      omega
    rw [roundUp, Nat.mul_comm align]
    exact Nat.mul_le_mul_right _ (Nat.le_of_lt_succ hcount)

theorem roundUp_eq_self {offset align : Nat} (halign : 0 < align) (hdvd : align ∣ offset) :
    roundUp offset align = offset :=
  Nat.le_antisymm (roundUp_le (Nat.le_refl _) hdvd) (le_roundUp offset halign)

theorem and_sub_two_pow {n k width : Nat} (hk : k ≤ width) (hn : n < 2 ^ width) :
    n &&& (2 ^ width - 2 ^ k) = n / 2 ^ k * 2 ^ k := by
  have hmask : 2 ^ width - 2 ^ k = 2 ^ width - ((2 ^ k - 1) + 1) := by
    rw [Nat.sub_add_cancel (Nat.two_pow_pos k)]
  have hlow : 2 ^ k - 1 < 2 ^ width :=
    Nat.lt_of_lt_of_le (Nat.sub_lt (Nat.two_pow_pos k) Nat.one_pos)
      (Nat.pow_le_pow_right (by decide) hk)
  apply Nat.eq_of_testBit_eq
  intro i
  rw [Nat.testBit_and, hmask, Nat.testBit_two_pow_sub_succ hlow, Nat.testBit_two_pow_sub_one,
    Nat.testBit_mul_two_pow, Nat.testBit_div_two_pow]
  by_cases hlowBit : i < k
  · simp [hlowBit, Nat.not_le.mpr hlowBit]
  · have hrest : i - k + k = i := Nat.sub_add_cancel (Nat.le_of_not_lt hlowBit)
    rw [hrest]
    by_cases hbit : i < width
    · simp [hbit, hlowBit, Nat.le_of_not_lt hlowBit]
    · have hzero : n.testBit i = false :=
        Nat.testBit_lt_two_pow (Nat.lt_of_lt_of_le hn
          (Nat.pow_le_pow_right (by decide) (Nat.le_of_not_lt hbit)))
      simp [hzero]

theorem mod_div_mul_two_pow {k width : Nat} (hk : k ≤ width) (n : Nat) :
    n % 2 ^ width / 2 ^ k * 2 ^ k = n / 2 ^ k * 2 ^ k % 2 ^ width := by
  have hsplit : 2 ^ width = 2 ^ k * 2 ^ (width - k) := by
    rw [← Nat.pow_add, Nat.add_sub_cancel' hk]
  rw [hsplit, Nat.mod_mul_right_div_self, Nat.mul_comm (2 ^ k), Nat.mul_mod_mul_right]

/-- Where the least multiple leaves the word, the mask gives what it is modulo the word. -/
theorem toNat_alignUp (offset : UInt64) {align : UInt64} {k : Nat} (halign : align.toNat = 2 ^ k) :
    (alignUp offset align).toNat = roundUp offset.toNat align.toNat % 2 ^ 64 := by
  have hpos : 0 < align.toNat := halign ▸ Nat.two_pow_pos k
  have hk : k ≤ 64 := by
    apply Nat.le_of_lt
    rw [← Nat.pow_lt_pow_iff_right (show 1 < 2 by decide), ← halign]
    exact align.toNat_lt
  have hone : (align - 1).toNat = align.toNat - 1 :=
    UInt64.toNat_sub_of_le align 1 (UInt64.le_iff_toNat_le.mpr hpos)
  have hmask : (~~~(align - 1)).toNat = 2 ^ 64 - 2 ^ k := by
    rw [UInt64.toNat_not, hone, ← halign, UInt64.size]
    omega
  have hsum : (offset + align - 1).toNat = (offset.toNat + align.toNat - 1) % 2 ^ 64 := by
    rw [UInt64.toNat_sub, UInt64.toNat_add, UInt64.toNat_one]
    omega
  rw [alignUp, UInt64.toNat_and, hmask, hsum,
    and_sub_two_pow hk (Nat.mod_lt _ (Nat.two_pow_pos 64)), roundUp, halign]
  exact mod_div_mul_two_pow hk _

theorem toNat_of_alignUp? {offset align result : UInt64} {k : Nat}
    (halign : align.toNat = 2 ^ k) (hresult : alignUp? offset align = some result) :
    result.toNat = roundUp offset.toNat align.toNat := by
  have hpos : 0 < align.toNat := halign ▸ Nat.two_pow_pos k
  rw [alignUp?] at hresult
  split at hresult
  · cases hresult
  · obtain ⟨sum, hsum, rfl⟩ := Option.map_eq_some_iff.mp hresult
    have hbound : offset.toNat + align.toNat < 2 ^ 64 := by
      rw [← toNat_of_add? hsum]
      exact sum.toNat_lt
    rw [toNat_alignUp offset halign,
      Nat.mod_eq_of_lt (Nat.lt_trans (roundUp_lt _ hpos) hbound)]

theorem packSlots?_cons {start width align finish : UInt64} {rest : List (UInt64 × UInt64)}
    {offsets : List UInt64} {k : Nat} (halign : align.toNat = 2 ^ k)
    (hpacked : packSlots? start ((width, align) :: rest) = some (offsets, finish)) :
    ∃ offset next later, offsets = offset :: later ∧
      offset.toNat = roundUp start.toNat align.toNat ∧
      next.toNat = offset.toNat + width.toNat ∧
      packSlots? next rest = some (later, finish) := by
  simp only [packSlots?, Option.bind_eq_bind, Option.bind_eq_some_iff] at hpacked
  obtain ⟨offset, hoffset, next, hnext, ⟨later, last⟩, hlater, hall⟩ := hpacked
  cases hall
  exact ⟨offset, next, later, rfl, toNat_of_alignUp? halign hoffset, toNat_of_add? hnext, hlater⟩

theorem packSlots?_cons_of_dvd {start width align finish : UInt64} {rest : List (UInt64 × UInt64)}
    {offsets : List UInt64} {k : Nat} (halign : align.toNat = 2 ^ k)
    (hdvd : align.toNat ∣ start.toNat)
    (hpacked : packSlots? start ((width, align) :: rest) = some (offsets, finish)) :
    ∃ offset next later, offsets = offset :: later ∧ offset.toNat = start.toNat ∧
      next.toNat = start.toNat + width.toNat ∧ packSlots? next rest = some (later, finish) := by
  obtain ⟨offset, next, later, hoffsets, hoffset, hnext, hlater⟩ := packSlots?_cons halign hpacked
  have hpos : 0 < align.toNat := halign ▸ Nat.two_pow_pos k
  have hstays : offset.toNat = start.toNat := hoffset.trans (roundUp_eq_self hpos hdvd)
  exact ⟨offset, next, later, hoffsets, hstays, hstays ▸ hnext, hlater⟩

/-- The end of packed slots where numbers have no bound. -/
def packedEnd : Nat → List (UInt64 × UInt64) → Nat
  | start, [] => start
  | start, (width, align) :: rest => packedEnd (roundUp start align.toNat + width.toNat) rest

/-- Slots whose alignments are powers of two. -/
def PowerAligned (slots : List (UInt64 × UInt64)) : Prop :=
  ∀ slot ∈ slots, ∃ k, slot.2.toNat = 2 ^ k

/-- Slots of at most eight bytes' alignment, a power of two. -/
def Aligned (slots : List (UInt64 × UInt64)) : Prop :=
  ∀ slot ∈ slots, ∃ k, k ≤ 3 ∧ slot.2.toNat = 2 ^ k

theorem Aligned.powers {slots : List (UInt64 × UInt64)} (halign : Aligned slots) :
    PowerAligned slots := by
  intro slot hmem
  obtain ⟨k, -, hk⟩ := halign slot hmem
  exact ⟨k, hk⟩

theorem le_packedEnd {slots : List (UInt64 × UInt64)} (halign : Aligned slots) (start : Nat) :
    start ≤ packedEnd start slots := by
  induction slots generalizing start with
  | nil => exact Nat.le_refl _
  | cons slot rest ih =>
      obtain ⟨k, _, hk⟩ := halign slot List.mem_cons_self
      have hround : start ≤ roundUp start slot.2.toNat :=
        le_roundUp _ (hk ▸ Nat.two_pow_pos k)
      have hrest := ih (fun other hmem => halign other (List.mem_cons_of_mem _ hmem))
        (roundUp start slot.2.toNat + slot.1.toNat)
      exact Nat.le_trans (Nat.le_trans hround (Nat.le_add_right _ _)) hrest

/-- The spans of slots, given as widths with alignments, where numbers have no bound. -/
def spansFrom : Nat → List (UInt64 × UInt64) → List Span
  | _, [] => []
  | free, (width, align) :: rest =>
      ⟨roundUp free align.toNat, width.toNat⟩ ::
        spansFrom (roundUp free align.toNat + width.toNat) rest

/-- The first byte that is free once spans are taken one after the other. -/
def freeAfter (free : Nat) (spans : List Span) : Nat :=
  (spans.getLast?.map Span.finish).getD free

theorem freeAfter_cons (free : Nat) (span : Span) (spans : List Span) :
    freeAfter free (span :: spans) = freeAfter span.finish spans := by
  cases spans <;> rfl

theorem freeAfter_eq_or (free : Nat) (spans : List Span) :
    freeAfter free spans = free ∨ ∃ span ∈ spans, span.finish = freeAfter free spans := by
  rw [freeAfter]
  cases hlast : spans.getLast? with
  | none => exact .inl rfl
  | some span => exact .inr ⟨span, List.mem_of_getLast? hlast, rfl⟩

theorem spansFrom_append (free : Nat) (first second : List (UInt64 × UInt64)) :
    spansFrom free (first ++ second) =
      spansFrom free first ++ spansFrom (freeAfter free (spansFrom free first)) second := by
  induction first generalizing free with
  | nil => rfl
  | cons slot rest ih =>
      obtain ⟨width, align⟩ := slot
      rw [List.cons_append, spansFrom, spansFrom, ih, freeAfter_cons]
      rfl

theorem getElem?_spansFrom {slots : List (UInt64 × UInt64)} {free i : Nat} {slot : UInt64 × UInt64}
    (hslot : slots[i]? = some slot) :
    (spansFrom free slots)[i]? =
      some ⟨roundUp (freeAfter free ((spansFrom free slots).take i)) slot.2.toNat,
        slot.1.toNat⟩ := by
  induction slots generalizing free i with
  | nil => cases hslot
  | cons first rest ih =>
      obtain ⟨width, align⟩ := first
      cases i with
      | zero =>
          cases hslot
          rfl
      | succ i =>
          rw [spansFrom, List.getElem?_cons_succ, ih hslot, List.take_succ_cons, freeAfter_cons]
          rfl

theorem length_spansFrom (free : Nat) (slots : List (UInt64 × UInt64)) :
    (spansFrom free slots).length = slots.length := by
  induction slots generalizing free with
  | nil => rfl
  | cons slot rest ih => rw [spansFrom, List.length_cons, List.length_cons, ih]

theorem stacked_spansFrom {slots : List (UInt64 × UInt64)} (halign : Aligned slots) (free : Nat) :
    Stacked free (spansFrom free slots) (freeAfter free (spansFrom free slots)) := by
  induction slots generalizing free with
  | nil => exact Nat.le_refl _
  | cons slot rest ih =>
      obtain ⟨width, align⟩ := slot
      obtain ⟨k, _, hk⟩ := halign _ List.mem_cons_self
      replace hk : align.toNat = 2 ^ k := hk
      rw [spansFrom, freeAfter_cons]
      refine ⟨le_roundUp _ (hk ▸ Nat.two_pow_pos k), ?_⟩
      exact ih (fun other hmem => halign other (List.mem_cons_of_mem _ hmem)) _

theorem freeAfter_spansFrom (free : Nat) (slots : List (UInt64 × UInt64)) :
    freeAfter free (spansFrom free slots) = packedEnd free slots := by
  induction slots generalizing free with
  | nil => rfl
  | cons slot rest ih =>
      obtain ⟨width, align⟩ := slot
      rw [spansFrom, freeAfter_cons, packedEnd]
      exact ih _

/-- Slots at the offsets that they are given. -/
def placed (slots : List (UInt64 × UInt64)) (offsets : List UInt64) : List Span :=
  List.zipWith (fun slot offset => ⟨offset.toNat, slot.1.toNat⟩) slots offsets

theorem placed_of_packSlots? {start finish : UInt64} {slots : List (UInt64 × UInt64)}
    {offsets : List UInt64} (hpowers : PowerAligned slots)
    (hpacked : packSlots? start slots = some (offsets, finish)) :
    placed slots offsets = spansFrom start.toNat slots ∧
      finish.toNat = freeAfter start.toNat (spansFrom start.toNat slots) := by
  induction slots generalizing start offsets with
  | nil =>
      cases hpacked
      exact ⟨rfl, rfl⟩
  | cons slot rest ih =>
      obtain ⟨width, align⟩ := slot
      obtain ⟨k, hk⟩ := hpowers _ List.mem_cons_self
      obtain ⟨offset, next, later, rfl, hoffset, hnext, hlater⟩ := packSlots?_cons hk hpacked
      obtain ⟨hplaced, hfinish⟩ :=
        ih (fun other hmem => hpowers other (List.mem_cons_of_mem _ hmem)) hlater
      have hspan : next.toNat = roundUp start.toNat align.toNat + width.toNat := by
        rw [hnext, hoffset]
      rw [hspan] at hplaced hfinish
      rw [spansFrom, freeAfter_cons, ← hplaced, placed, List.zipWith_cons_cons, hoffset]
      exact ⟨rfl, hplaced ▸ hfinish⟩

theorem map_start_placed {slots : List (UInt64 × UInt64)} {offsets : List UInt64}
    (hlength : offsets.length = slots.length) :
    (placed slots offsets).map Span.start = offsets.map UInt64.toNat := by
  calc (placed slots offsets).map Span.start
      = ((slots.zip offsets).map Prod.snd).map UInt64.toNat := by
        rw [placed, List.map_zipWith, List.map_map, List.map_zip_eq_zipWith]
        rfl
    _ = offsets.map UInt64.toNat := by rw [List.map_snd_zip (Nat.le_of_eq hlength)]

theorem exact_of_packSlots? {start finish : UInt64} {slots : List (UInt64 × UInt64)}
    {offsets : List UInt64} (halign : Aligned slots)
    (hpacked : packSlots? start slots = some (offsets, finish)) :
    offsets.map UInt64.toNat = (spansFrom start.toNat slots).map Span.start ∧
      finish.toNat = freeAfter start.toNat (spansFrom start.toNat slots) := by
  obtain ⟨hplaced, hfinish⟩ := placed_of_packSlots? halign.powers hpacked
  rw [← map_start_placed (length_of_packSlots? hpacked), hplaced]
  exact ⟨rfl, hfinish⟩

theorem exists_add? {a b : UInt64} (hbound : a.toNat + b.toNat < 2 ^ 64) :
    ∃ c, add? a b = some c ∧ c.toNat = a.toNat + b.toNat := by
  have hadd : add? a b = some (a + b) := if_pos hbound
  exact ⟨a + b, hadd, toNat_of_add? hadd⟩

theorem exists_alignUp? (offset : UInt64) {align : UInt64} {k : Nat} (halign : align.toNat = 2 ^ k)
    (hbound : offset.toNat + align.toNat < 2 ^ 64) :
    ∃ result, alignUp? offset align = some result ∧
      result.toNat = roundUp offset.toNat align.toNat := by
  obtain ⟨sum, hsum, _⟩ := exists_add? hbound
  have hzero : align ≠ 0 := by
    rintro rfl
    exact absurd halign (Nat.ne_of_lt (Nat.two_pow_pos k))
  have hup : alignUp? offset align = some (alignUp offset align) := by
    rw [alignUp?, if_neg hzero, hsum, Option.map_some]
  exact ⟨_, hup, toNat_of_alignUp? halign hup⟩

/-- Packing gives an answer where the end and one more alignment fit the word. -/
theorem exists_packSlots? (start : UInt64) {slots : List (UInt64 × UInt64)}
    (halign : Aligned slots) (hbound : packedEnd start.toNat slots + 8 < 2 ^ 64) :
    ∃ offsets finish, packSlots? start slots = some (offsets, finish) ∧
      finish.toNat = packedEnd start.toNat slots := by
  induction slots generalizing start with
  | nil => exact ⟨[], start, rfl, rfl⟩
  | cons slot rest ih =>
      obtain ⟨width, align⟩ := slot
      obtain ⟨k, hle, hk⟩ := halign (width, align) List.mem_cons_self
      replace hk : align.toNat = 2 ^ k := hk
      have hrest : Aligned rest := fun other hmem => halign other (List.mem_cons_of_mem _ hmem)
      have height : 2 ^ k ≤ 2 ^ 3 := Nat.pow_le_pow_right (by decide) hle
      have hround : start.toNat ≤ roundUp start.toNat align.toNat :=
        le_roundUp _ (hk ▸ Nat.two_pow_pos k)
      have hnext : roundUp start.toNat align.toNat + width.toNat ≤
          packedEnd start.toNat ((width, align) :: rest) := le_packedEnd hrest _
      obtain ⟨offset, hoffset, hexact⟩ := exists_alignUp? start hk (by omega)
      obtain ⟨next, hadd, hsum⟩ := exists_add? (a := offset) (b := width) (by omega)
      have hlater : packedEnd start.toNat ((width, align) :: rest) =
          packedEnd next.toNat rest := by
        rw [packedEnd, hsum, hexact]
      obtain ⟨offsets, finish, hpacked, hfinish⟩ := ih next hrest (hlater ▸ hbound)
      refine ⟨offset :: offsets, finish, ?_, hlater ▸ hfinish⟩
      simp only [packSlots?, hoffset, hadd, hpacked, Option.bind_eq_bind, Option.bind_some]

theorem packedEnd_const {α : Type} {width align : UInt64} (halign : 0 < align.toNat)
    (hwidth : align.toNat ∣ width.toNat) (items : List α) {start : Nat}
    (hstart : align.toNat ∣ start) :
    packedEnd start (items.map fun _ => (width, align)) = start + width.toNat * items.length := by
  induction items generalizing start with
  | nil => rfl
  | cons item rest ih =>
      rw [List.map_cons, packedEnd, roundUp_eq_self halign hstart,
        ih ((Nat.dvd_add_right hstart).mpr hwidth), List.length_cons, Nat.mul_succ]
      omega

end MappedMetrics.Proofs.SlotPacking
