import MappedMetrics.Proofs.CloseDecimals
import MappedMetrics.Proofs.DoubleRounding

/-!
Singles read from the literals that they were written as. A literal is read as a double first, but
all the same every finite single comes back: either the literal is far enough from the middles
around the single, or its double is exact, or it is one of the close decimals.
-/

namespace MappedMetrics.Proofs.SingleReadings

open MappedMetrics
open MappedMetrics.Json
open MappedMetrics.Decimal
open MappedMetrics.Proofs.BinaryRounding
open MappedMetrics.Proofs.DoubleArithmetic
open MappedMetrics.Proofs.JsonFloats
open MappedMetrics.Proofs.LiteralReading
open MappedMetrics.Proofs.RoundingErrors
open MappedMetrics.Proofs.ShortestDigits
open MappedMetrics.Proofs.FloatReadings
open MappedMetrics.Proofs.CloseDecimals
open MappedMetrics.Proofs.DoubleRounding

section Halves

variable {code m j : Nat} {q : ℤ}

/-- The middles around a single as numbers of half units of the single before it. -/
structure Halves (code : Nat) (q : ℤ) (m j : Nat) : Prop where
  least : -149 ≤ q
  most : q ≤ 104
  units : m + 1 ≤ 2 ^ 24
  value : magnitude binary32 (code + 1) = (m + 1) * 2 ^ q
  before : middle binary32 code = (2 * m + 1 : Nat) * 2 ^ (q - 1)
  after : middle binary32 (code + 1) = j * 2 ^ (q - 1)
  last : j = 2 * m + 3 ∨ j = lastMiddle

theorem decode_binary32 (code : Nat) : binary32.decode code =
    if code / 2 ^ 23 = 0 then (code, (-149 : ℤ))
    else (2 ^ 23 + code % 2 ^ 23, -149 + (code / 2 ^ 23 - 1 : Nat)) :=
  rfl

theorem decode_bounds (hfinite : code < binary32.infinityCode) :
    -149 ≤ (binary32.decode code).2 ∧ (binary32.decode code).2 ≤ 104 ∧
      (binary32.decode code).1 + 1 ≤ 2 ^ 24 := by
  have htop : binary32.infinityCode = 255 * 2 ^ 23 := rfl
  rw [decode_binary32]
  split <;> dsimp only <;> omega

theorem decode_succ (code : Nat) : (binary32.decode (code + 1)).2 = (binary32.decode code).2 ∨
    (binary32.decode (code + 1)).2 = (binary32.decode code).2 + 1 ∧
      (binary32.decode code).1 + 1 = 2 ^ 24 := by
  rw [decode_binary32, decode_binary32]
  split <;> split <;> dsimp only <;> omega

theorem exists_halves (hfinite : code + 1 < binary32.infinityCode) :
    ∃ q m j, Halves code q m j := by
  have hfirst : code < binary32.infinityCode := by omega
  obtain ⟨hleast, hmost, hunits⟩ := decode_bounds hfirst
  have hcode : magnitude binary32 code =
      (binary32.decode code).1 * 2 ^ (binary32.decode code).2 := rfl
  have hnext := magnitude_succ (f := binary32) code
  have hafter := magnitude_succ (f := binary32) (code + 1)
  have hsucc := decode_succ code
  generalize (binary32.decode (code + 1)).2 = q' at *
  generalize (binary32.decode code).1 = m at *
  generalize (binary32.decode code).2 = q at *
  have hhalf : (2 : ℚ) ^ q = 2 * 2 ^ (q - 1) := by
    rw [zpow_sub_one₀ (by norm_num)]
    ring
  rcases hsucc with rfl | ⟨rfl, hlast⟩
  · refine ⟨q', m, 2 * m + 3, hleast, hmost, hunits, ?_, ?_, ?_, .inl rfl⟩
    · rw [hnext, hcode]
      ring
    · rw [middle, hnext, hcode, hhalf]
      push_cast
      ring
    · rw [middle, hafter, hnext, hcode, hhalf]
      push_cast
      ring
  · refine ⟨q, m, lastMiddle, hleast, hmost, hunits, ?_, ?_, ?_, .inr rfl⟩
    · rw [hnext, hcode]
      ring
    · rw [middle, hnext, hcode, hhalf]
      push_cast
      ring
    · have hm : (m : ℚ) + 1 = 2 ^ 24 := by exact_mod_cast hlast
      have hlastMiddle : (lastMiddle : ℚ) = 2 * (m + 1) + 2 := by
        rw [hm, lastMiddle]
        norm_num
      rw [middle, hafter, hnext, hcode, two_zpow_succ, hhalf, hlastMiddle]
      ring

end Halves

section Decimals

variable {code m j : Nat} {q : ℤ}

theorem Halves.before_eq (hhalves : Halves code q m j) :
    middle binary32 code = magnitude binary32 (code + 1) - 2 ^ (q - 1) := by
  rw [hhalves.before, hhalves.value, zpow_sub_one₀ (by norm_num)]
  push_cast
  ring

theorem Halves.le_after (hhalves : Halves code q m j) :
    magnitude binary32 (code + 1) + 2 ^ (q - 1) ≤ middle binary32 (code + 1) := by
  have hlast : 2 * m + 3 ≤ j := by
    have hunits := hhalves.units
    rcases hhalves.last with rfl | rfl
    · exact le_rfl
    · rw [lastMiddle]
      omega
  have hlast' : (2 * m + 3 : ℚ) ≤ j := by exact_mod_cast hlast
  have hhalf := two_zpow_pos (q - 1)
  have hunit : (2 : ℚ) ^ q = 2 ^ (q - 1) * 2 := by
    rw [zpow_sub_one₀ (by norm_num)]
    ring
  rw [hhalves.after, hhalves.value, hunit]
  nlinarith

theorem Halves.value_bounds (hhalves : Halves code q m j) :
    2 ^ (q - 2) * 4 ≤ magnitude binary32 (code + 1) ∧
      magnitude binary32 (code + 1) ≤ 2 ^ (q - 2) * 2 ^ 26 := by
  have hquarter := two_zpow_pos (q - 2)
  have hunit : (2 : ℚ) ^ q = 2 ^ (q - 2) * 4 := by
    rw [zpow_sub₀ (by norm_num)]
    norm_num
  have hm : (m : ℚ) + 1 ≤ 2 ^ 24 := by exact_mod_cast hhalves.units
  have hm' : (0 : ℚ) ≤ m := Nat.cast_nonneg m
  rw [hhalves.value, hunit]
  constructor <;> nlinarith

theorem exponentFor_spec (hleast : -149 ≤ q) (hmost : q ≤ 104) :
    (10 : ℚ) ^ (exponentFor q - 1) ≤ 2 ^ (q - 2) ∧ (2 : ℚ) ^ (q - 2) ≤ 10 ^ exponentFor q := by
  have hguess := Int.mul_ediv_add_emod ((q - 2) * 59) 196
  constructor
  · exact ten_zpow_le_two_zpow (by rw [exponentFor]; omega) (by rw [exponentFor]; omega)
  · exact two_zpow_le_ten_zpow (by rw [exponentFor]; omega) (by rw [exponentFor]; omega)

theorem exponentFor_bounds (hleast : -149 ≤ q) (hmost : q ≤ 104) :
    -45 ≤ exponentFor q ∧ exponentFor q ≤ 31 := by
  rw [exponentFor]
  omega

theorem ofDecimal_of_lt {digits : Nat} {e : ℤ} (hdigits : digits < 2 ^ 32) (hleast : -46 ≤ e)
    (hmost : e ≤ 31) : binary32.ofDecimal digits e = nearest binary32 (digits * 10 ^ e) := by
  have hlog : digits.log2 < 32 := by
    rcases Nat.eq_zero_or_pos digits with rfl | hpos
    · decide
    · exact (Nat.log2_lt hpos.ne').mpr hdigits
  exact ofDecimal_eq (by omega) (by omega)

theorem exists_fine (hfinite : code + 1 < binary32.infinityCode) (hhalves : Halves code q m j) :
    ∃ digits, neighbour? binary32 .even (code + 1) (exponentFor q - 1) = some digits ∧
      |(digits : ℚ) * 10 ^ (exponentFor q - 1) - magnitude binary32 (code + 1)| ≤
        2 ^ (q - 2) / 2 := by
  obtain ⟨hgrid, hgrid'⟩ := exponentFor_spec hhalves.least hhalves.most
  obtain ⟨hlow, hhigh⟩ := hhalves.value_bounds
  have hpos := ten_zpow_pos (exponentFor q - 1)
  have hscaled : ∀ digits : Nat,
      |(digits : ℚ) - magnitude binary32 (code + 1) / 10 ^ (exponentFor q - 1)| ≤ 1 / 2 →
        |(digits : ℚ) * 10 ^ (exponentFor q - 1) - magnitude binary32 (code + 1)| ≤
          2 ^ (q - 2) / 2 := by
    intro digits hnear
    have hmul := mul_le_mul_of_nonneg_right hnear hpos.le
    rw [← abs_of_pos hpos, ← abs_mul, abs_of_pos hpos, sub_mul,
      div_mul_cancel₀ _ hpos.ne'] at hmul
    linarith
  have hread : ∀ digits : Nat,
      |(digits : ℚ) - magnitude binary32 (code + 1) / 10 ^ (exponentFor q - 1)| ≤ 1 / 2 →
        binary32.ofDecimal digits (exponentFor q - 1) = code + 1 := by
    intro digits hnear
    have hclose := abs_le.mp (hscaled digits hnear)
    have hdigits : digits < 2 ^ 32 := by
      have hratio : magnitude binary32 (code + 1) / 10 ^ (exponentFor q - 1) ≤ 2 ^ 26 * 10 := by
        rw [div_le_iff₀ hpos]
        have hten : (10 : ℚ) ^ exponentFor q = 10 ^ (exponentFor q - 1) * 10 := by
          rw [zpow_sub_one₀ (by norm_num)]
          ring
        linarith
      have hlt : (digits : ℚ) < 2 ^ 32 := by linarith [(abs_le.mp hnear).2]
      exact_mod_cast hlt
    have hexponent := exponentFor_bounds hhalves.least hhalves.most
    have hhalf : (2 : ℚ) ^ (q - 1) = 2 ^ (q - 2) * 2 := by
      rw [← two_zpow_succ]
      congr 1
      ring
    have hquarter := two_zpow_pos (q - 2)
    rw [ofDecimal_of_lt hdigits (by omega) (by omega)]
    refine nearest_of_between (by linarith [hclose.1]) hfinite.le ?_ ?_
    · rw [hhalves.before_eq]
      linarith [hclose.1]
    · linarith [hclose.2, hhalves.le_after]
  obtain ⟨digits, hhit, hnear⟩ := exists_neighbour? .even hread
  exact ⟨digits, hhit, hscaled digits hnear⟩

/-- The value of the digits that are found for a single. -/
def decimalOf (code : Nat) : ℚ :=
  (shortest binary32 .even code).1 * 10 ^ (shortest binary32 .even code).2

theorem near_or_multiple (hfinite : code + 1 < binary32.infinityCode)
    (hhalves : Halves code q m j) :
    |decimalOf (code + 1) - magnitude binary32 (code + 1)| ≤ 2 ^ (q - 2) / 2 ∨
      ∃ w : Nat, w ≤ 2 ^ 27 ∧ decimalOf (code + 1) = w * 10 ^ exponentFor q ∧
        (shortest binary32 .even (code + 1)).1 ≤ w ∧
        exponentFor q ≤ (shortest binary32 .even (code + 1)).2 := by
  obtain ⟨hgrid, hgrid'⟩ := exponentFor_spec hhalves.least hhalves.most
  obtain ⟨hlow, hhigh⟩ := hhalves.value_bounds
  have hquarter := two_zpow_pos (q - 2)
  have hpos := ten_zpow_pos (exponentFor q)
  obtain ⟨finest, hfinest, hnear⟩ := exists_fine hfinite hhalves
  have hfine : magnitude binary32 (code + 1) < 10 ^ (exponentFor q - 1 + 17) := by
    have hsplit : (10 : ℚ) ^ (exponentFor q - 1 + 17) = 10 ^ exponentFor q * 10 ^ 16 := by
      rw [← zpow_natCast, ← ten_zpow_add]
      congr 1
      norm_num
      ring
    rw [hsplit]
    linarith
  obtain ⟨digits, e, hshortest, hhit, hcoarser, hcoarse⟩ :=
    exists_hit (ordinary_binary32 (show 0 < code + 1 by omega) hfinite) hfinest (by linarith)
      hfine
  obtain ⟨hvalue, hfewer, hexponent⟩ := stripZeros_spec 20 digits e
  rw [← hshortest] at hvalue hfewer hexponent
  -- On the fine grid the digits are near; on any coarser one they are a multiple of its step.
  rcases hcoarser.eq_or_lt with rfl | hlt
  · obtain rfl : digits = finest := Option.some.inj (hhit.symm.trans hfinest)
    exact .inl (by rwa [decimalOf, hvalue])
  · obtain ⟨k, hk⟩ : ∃ k : Nat, e = exponentFor q + k := ⟨(e - exponentFor q).toNat, by omega⟩
    have hmultiple : (digits : ℚ) * 10 ^ e = (digits * 10 ^ k : Nat) * 10 ^ exponentFor q := by
      rw [hk, ten_zpow_add, zpow_natCast]
      push_cast
      ring
    refine .inr ⟨digits * 10 ^ k, ?_, hvalue.trans hmultiple,
      hfewer.trans (Nat.le_mul_of_pos_right _ (Nat.pow_pos (by decide))), by omega⟩
    have hsum : (digits : ℚ) * 10 ^ e ≤ 2 * magnitude binary32 (code + 1) := by
      have hdigits := mul_le_mul_of_nonneg_right (hit_of_neighbour? hhit).2 (ten_zpow_pos e).le
      rw [add_mul, div_mul_cancel₀ _ (ten_zpow_pos e).ne'] at hdigits
      linarith
    rw [hmultiple] at hsum
    have hle : ((digits * 10 ^ k : Nat) : ℚ) ≤ 2 ^ 27 := by
      refine le_of_mul_le_mul_right ?_ hpos
      linarith
    exact_mod_cast hle

end Decimals

section Narrowing

variable {code m j read w i : Nat} {q : ℤ} {d v : ℚ}

theorem narrowed_of_readsBack (hreads : Reads singleStyle binary32 code read)
    (hback : readsBack code = true) : narrowed read = code := by
  have htop := infinityCode_binary64
  have hfinite := hreads.finite
  have hbits : (double read).toBits.toNat = read := by
    rw [toBits_double hfinite.le]
    exact UInt64.toNat_ofNat_of_lt' (hfinite.trans (by decide))
  have hdenominator : 0 < (binary64.quotient read).2 := Nat.two_pow_pos _
  simp only [readsBack, hreads.read, hbits] at hback
  rw [narrowed, ← quotient_eq, ← roundQuotient_eq _ hdenominator]
  exact eq_of_beq hback

theorem narrowed_of_close (hfinite : code + 1 < binary32.infinityCode)
    (hhalves : Halves code q m j) (hclose : |v - magnitude binary32 (code + 1)| ≤ 2 ^ (q - 2) / 2)
    (hnear : Near (32 / (10 * 2 ^ 53)) d v) : nearest binary32 d = code + 1 := by
  obtain ⟨hlow, hhigh⟩ := hhalves.value_bounds
  have hquarter := two_zpow_pos (q - 2)
  have hhalf : (2 : ℚ) ^ (q - 1) = 2 ^ (q - 2) * 2 := by
    rw [← two_zpow_succ]
    congr 1
    ring
  have hbefore := hhalves.before_eq
  have hafter := hhalves.le_after
  rw [abs_le] at hclose
  rw [hhalf] at hbefore hafter
  refine nearest_of_between (by linarith [hnear.low, hclose.1]) hfinite.le ?_ ?_
  · linarith [hnear.low, hclose.1]
  · linarith [hnear.high, hclose.2]

theorem le_div_add {a b n k : Nat} (hn : 0 < n) (hle : a * n ≤ b * n + k) : a ≤ k / n + b := by
  have hdifference : (a - b) * n ≤ k := by
    rw [Nat.sub_mul]
    omega
  have hquotient := (Nat.le_div_iff_mul_le hn).mpr hdifference
  omega

theorem even_of_near (hnear : |(w : ℚ) * 10 ^ exponentFor q - i * 2 ^ (q - 1)| ≤
      32 / (10 * 2 ^ 53) * (lastMiddle * 2 ^ (q - 1))) :
    Even (wholeUnits q).1 (wholeUnits q).2
      (lastMiddle * (wholeUnits q).2 * 32 / (10 * 2 ^ 53)) w i := by
  obtain ⟨scale, hscale, hx, hy⟩ : ∃ scale : ℚ, 0 < scale ∧
      ((wholeUnits q).1 : ℚ) = 10 ^ exponentFor q * scale ∧
      ((wholeUnits q).2 : ℚ) = 2 ^ (q - 1) * scale := by
    refine ⟨2 ^ (-(q - 1)).toNat * 10 ^ (-exponentFor q).toNat, by positivity, ?_, ?_⟩
    · rw [wholeUnits, zpow_eq_div (by norm_num : (10 : ℚ) ≠ 0) (exponentFor q)]
      push_cast
      field_simp
    · rw [wholeUnits, zpow_eq_div (by norm_num : (2 : ℚ) ≠ 0) (q - 1)]
      push_cast
      field_simp
  generalize (wholeUnits q).1 = x at *
  generalize (wholeUnits q).2 = y at *
  have hscaled := mul_le_mul_of_nonneg_right hnear hscale.le
  rw [← abs_of_pos hscale, ← abs_mul, abs_of_pos hscale, abs_le] at hscaled
  have hw : (w : ℚ) * x = w * 10 ^ exponentFor q * scale := by rw [hx, mul_assoc]
  have hi : (i : ℚ) * y = i * 2 ^ (q - 1) * scale := by rw [hy, mul_assoc]
  have hbound : (lastMiddle : ℚ) * y = lastMiddle * 2 ^ (q - 1) * scale := by rw [hy, mul_assoc]
  constructor
  · refine le_div_add (by decide) ?_
    have hle : (w : ℚ) * x * (10 * 2 ^ 53) ≤ i * y * (10 * 2 ^ 53) + lastMiddle * y * 32 := by
      rw [hw, hi, hbound]
      linarith [hscaled.2]
    exact_mod_cast hle
  · refine le_div_add (by decide) ?_
    have hle : (i : ℚ) * y * (10 * 2 ^ 53) ≤ w * x * (10 * 2 ^ 53) + lastMiddle * y * 32 := by
      rw [hw, hi, hbound]
      linarith [hscaled.1]
    exact_mod_cast hle

/-- Beyond the units of exact doubles, a decimal next to a middle reads back. -/
theorem readsBack_of_near (hleast : -149 ≤ q) (hmost : q ≤ 104)
    (hrange : exponentFor q < -12 ∨ 9 < exponentFor q) (hw : w ≤ 2 ^ 27) (hi : 0 < i)
    (hodd : i % 2 = 1 ∧ i ≤ lastMiddle ∨ i = lastMiddle)
    (hnear : |(w : ℚ) * 10 ^ exponentFor q - i * 2 ^ (q - 1)| ≤
      32 / (10 * 2 ^ 53) * (lastMiddle * 2 ^ (q - 1))) :
    readsBack (nearest binary32 (w * 10 ^ exponentFor q)) = true := by
  have hunit : unitPasses q = true := by
    rw [exponentFor] at hrange
    rcases hrange with hlow | hhigh
    · have hq := unitPasses_low (q + 149).toNat (by omega)
      rwa [Int.toNat_of_nonneg (by omega), add_sub_cancel_right] at hq
    · have hq := unitPasses_high (q - 32).toNat (by omega)
      rwa [Int.toNat_of_nonneg (by omega), sub_add_cancel] at hq
  have heven := even_of_near hnear
  have hexponent := exponentFor_bounds hleast hmost
  have hpass := test_of_sumsPass (a := w) (b := i) hunit (by omega)
    (by rw [Nat.mul_zero, Nat.zero_add, Nat.mul_one]; omega)
    (by rwa [Nat.mul_one, Nat.mul_zero, Nat.add_zero, Nat.mul_zero, Nat.zero_add, Nat.mul_one])
  rw [Nat.mul_one, Nat.mul_zero, Nat.add_zero, Nat.mul_zero, Nat.zero_add, Nat.mul_one,
    middlePasses, ofDecimal_of_lt (hw.trans_lt (by decide)) (by omega) (by omega)] at hpass
  simp only [Bool.or_eq_true, Bool.and_eq_true, beq_iff_eq, bne_iff_ne] at hpass
  exact hpass.resolve_left (by omega)

theorem narrowed_of_multiple (hfinite : code + 1 < binary32.infinityCode)
    (hhalves : Halves code q m j) (hrange : exponentFor q < -12 ∨ 9 < exponentFor q)
    (hw : w ≤ 2 ^ 27) (hpos : 0 < w)
    (hnearest : nearest binary32 (w * 10 ^ exponentFor q) = code + 1)
    (hreads : Reads singleStyle binary32 (code + 1) read)
    (hnear : Near (32 / (10 * 2 ^ 53)) (magnitude binary64 read) (w * 10 ^ exponentFor q)) :
    narrowed read = code + 1 := by
  have hv : (0 : ℚ) < w * 10 ^ exponentFor q := mul_pos (by positivity) (ten_zpow_pos _)
  obtain ⟨hlow, hhigh⟩ := between_of_nearest hv hfinite hnearest
  have hhalf := two_zpow_pos (q - 1)
  have hunits := hhalves.units
  have hj : j % 2 = 1 ∧ j ≤ lastMiddle ∨ j = lastMiddle :=
    hhalves.last.imp_left fun hnext => by rw [lastMiddle]; omega
  have hlast : (j : ℚ) ≤ lastMiddle := by
    have hle : j ≤ lastMiddle := hj.elim And.right le_of_eq
    exact_mod_cast hle
  have hmost := mul_le_mul_of_nonneg_right hlast hhalf.le
  have hafter := hhalves.after
  have hbefore := hhalves.before
  have hback : ∀ i : Nat, 0 < i → (i % 2 = 1 ∧ i ≤ lastMiddle ∨ i = lastMiddle) →
      |(w : ℚ) * 10 ^ exponentFor q - i * 2 ^ (q - 1)| ≤
        32 / (10 * 2 ^ 53) * (lastMiddle * 2 ^ (q - 1)) → narrowed read = code + 1 := by
    intro i hi hodd hclose
    have hread := readsBack_of_near hhalves.least hhalves.most hrange hw hi hodd hclose
    rw [hnearest] at hread
    exact narrowed_of_readsBack hreads hread
  rcases le_or_gt (magnitude binary64 read) (middle binary32 code) with hreached | hbeyond
  · refine hback (2 * m + 1) (by omega) (.inl (by rw [lastMiddle]; omega)) ?_
    rw [← hbefore, abs_le]
    constructor <;> linarith [hnear.low]
  rcases le_or_gt (middle binary32 (code + 1)) (magnitude binary64 read) with hreached | hbelow
  · refine hback j (by rw [lastMiddle] at hj; omega) hj ?_
    rw [← hafter, abs_le]
    constructor <;> linarith [hnear.high]
  exact nearest_of_between (hnear.pos (by norm_num) hv) hfinite.le hbeyond hbelow

end Narrowing

section Singles

variable {code m j w : Nat} {q e : ℤ} {v : ℚ}

theorem Halves.range (hhalves : Halves code q m j) (hlow : middle binary32 code ≤ v)
    (hhigh : v ≤ middle binary32 (code + 1)) :
    2 ^ (-150 : ℤ) ≤ v ∧ v ≤ 2 ^ (q - 1) * 2 ^ 26 := by
  have hhalf := two_zpow_pos (q - 1)
  have hleast := hhalves.least
  have hunits := hhalves.units
  constructor
  · have hm : (1 : ℚ) ≤ (2 * m + 1 : Nat) := by exact_mod_cast Nat.le_add_left 1 _
    calc (2 : ℚ) ^ (-150 : ℤ) ≤ 2 ^ (q - 1) := zpow_le_zpow_right₀ (by norm_num) (by omega)
      _ ≤ (2 * m + 1 : Nat) * 2 ^ (q - 1) := le_mul_of_one_le_left hhalf.le hm
      _ ≤ v := hhalves.before ▸ hlow
  · have hj : j ≤ 2 ^ 26 := by
      rcases hhalves.last with rfl | rfl
      · omega
      · decide
    have hj' : (j : ℚ) ≤ 2 ^ 26 := by exact_mod_cast hj
    rw [hhalves.after] at hhigh
    nlinarith

theorem written_bounds (hleast : -12 ≤ exponentFor q) (hmost : exponentFor q ≤ 9) (hw : w ≤ 2 ^ 27)
    (hdigits : (shortest binary32 .even (code + 1)).1 ≤ w)
    (hexponent : exponentFor q ≤ (shortest binary32 .even (code + 1)).2)
    (hpos : 0 < (written singleStyle binary32 (code + 1)).1)
    (hhigh : decimalOf (code + 1) ≤ 2 ^ (q - 1) * 2 ^ 26) :
    (written singleStyle binary32 (code + 1)).1 < 2 ^ 53 ∧
      -22 ≤ (written singleStyle binary32 (code + 1)).2 ∧
      (written singleStyle binary32 (code + 1)).2 ≤ 22 := by
  rcases written_cases compact_singleStyle binary32 (code + 1) with hshortest | ⟨hwhole, hpoint⟩
  · have htie : singleStyle.tie = .even := rfl
    rw [htie] at hshortest
    rw [hshortest] at hpos ⊢
    refine ⟨by omega, by omega, ?_⟩
    by_contra! hlarge
    have hone : (1 : ℚ) ≤ (shortest binary32 .even (code + 1)).1 := by exact_mod_cast hpos
    have hten : (10 : ℚ) ^ (23 : ℤ) ≤ 10 ^ (shortest binary32 .even (code + 1)).2 :=
      zpow_le_zpow_right₀ (by norm_num) hlarge
    have hunit : (2 : ℚ) ^ (q - 1) ≤ 2 ^ (30 : ℤ) := by
      refine zpow_le_zpow_right₀ (by norm_num) ?_
      rw [exponentFor] at hmost
      omega
    have hvalue :=
      le_mul_of_one_le_left (ten_zpow_pos (shortest binary32 .even (code + 1)).2).le hone
    rw [decimalOf] at hhigh
    norm_num at hten hunit
    linarith
  · rw [hpoint]
    exact ⟨hwhole.trans_lt (by decide), by decide, by decide⟩

theorem exists_scaled_of_range (hw : 0 < w) (hbound : w < 10 ^ 18) (hmost : e ≤ 308)
    (hq : q ≤ 104) (hlow : 2 ^ (-150 : ℤ) ≤ (w : ℚ) * 10 ^ e)
    (hhigh : (w : ℚ) * 10 ^ e ≤ 2 ^ (q - 1) * 2 ^ 26) :
    ∃ read, scaled? (UInt64.ofNat w).toFloat e = some (double read) ∧
      read < binary64.infinityCode ∧
      Near (32 / (10 * 2 ^ 53)) (magnitude binary64 read) (w * 10 ^ e) := by
  have hlarge : ∀ k : ℤ, k ≤ -150 → (2 : ℚ) ^ k ≤ w * 10 ^ e := fun k hk =>
    (zpow_le_zpow_right₀ (by norm_num) hk).trans hlow
  have hsmall : (w : ℚ) * 10 ^ e ≤ 2 ^ (1000 : ℤ) := by
    refine hhigh.trans ?_
    calc (2 : ℚ) ^ (q - 1) * 2 ^ 26 ≤ 2 ^ (103 : ℤ) * 2 ^ (26 : ℤ) :=
          mul_le_mul_of_nonneg_right
            (zpow_le_zpow_right₀ (by norm_num) (by omega)) (two_zpow_pos 26).le
      _ = 2 ^ (103 + 26 : ℤ) := (two_zpow_add ..).symm
      _ ≤ 2 ^ (1000 : ℤ) := zpow_le_zpow_right₀ (by norm_num) (by norm_num)
  exact exists_scaled hw (hbound.trans (by decide)) (le_exponent hbound (hlarge _ (by norm_num)))
    hmost (hlarge _ (by norm_num)) hsmall

/-- Every finite single is read as it was. -/
theorem exists_reads_single (hfinite : code < binary32.infinityCode) :
    ∃ read, Reads singleStyle binary32 code read ∧ narrowed read = code := by
  rcases Nat.eq_zero_or_pos code with rfl | hpos
  · exact ⟨0, ⟨by decide, magnitude?_zero⟩, by rw [narrowed, magnitude_zero, nearest_zero]⟩
  obtain ⟨w, e, hwritten, hnearest, hw, hbound, -, hmost, hread⟩ :=
    written_spec compact_singleStyle (by decide) (ordinary_binary32 hpos hfinite)
  obtain ⟨code, rfl⟩ := Nat.exists_eq_add_of_le' hpos
  obtain ⟨q, m, j, hhalves⟩ := exists_halves hfinite
  have hvalue : decimalOf (code + 1) = w * 10 ^ e := by
    have htie : singleStyle.tie = .even := rfl
    rw [decimalOf, ← htie, ← written_value, hwritten]
  have hv : (0 : ℚ) < w * 10 ^ e := mul_pos (by positivity) (ten_zpow_pos e)
  obtain ⟨hbefore, hafter⟩ := between_of_nearest hv hfinite hnearest
  obtain ⟨hlow, hhigh⟩ := hhalves.range hbefore hafter
  have hgeneral : ∃ read, Reads singleStyle binary32 (code + 1) read ∧
      Near (32 / (10 * 2 ^ 53)) (magnitude binary64 read) (w * 10 ^ e) := by
    obtain ⟨read, hscaled, hreadFinite, hnear⟩ :=
      exists_scaled_of_range hw hbound hmost hhalves.most hlow hhigh
    exact ⟨read, ⟨hreadFinite, fun negative => by rw [hread, hscaled]⟩, hnear⟩
  -- Digits that are near bear the errors of reading. Others are a multiple of a power of ten, which
  -- either bears them too or is so moderate that it is read with one rounding.
  rcases near_or_multiple hfinite hhalves with hclose | ⟨n, hn, hmultiple, hdigits, hexponent⟩
  · obtain ⟨read, hreads, hnear⟩ := hgeneral
    rw [hvalue] at hclose
    exact ⟨read, hreads, narrowed_of_close hfinite hhalves hclose hnear⟩
  rw [← hvalue, hmultiple] at hnearest
  have hn' : 0 < n := by
    refine Nat.pos_of_ne_zero fun hzero => ?_
    rw [hzero, Nat.cast_zero, zero_mul, nearest_zero] at hnearest
    exact absurd hnearest (Nat.succ_ne_zero code).symm
  by_cases hfar : exponentFor q < -12 ∨ 9 < exponentFor q
  · obtain ⟨read, hreads, hnear⟩ := hgeneral
    rw [← hvalue, hmultiple] at hnear
    exact ⟨read, hreads, narrowed_of_multiple hfinite hhalves hfar hn hn' hnearest hreads hnear⟩
  · obtain ⟨hleast, hmost'⟩ : -12 ≤ exponentFor q ∧ exponentFor q ≤ 9 := by omega
    have hpositive : 0 < (written singleStyle binary32 (code + 1)).1 := by
      rw [hwritten]
      exact hw
    have hbounds := written_bounds hleast hmost' hn hdigits hexponent hpositive
      (hvalue.le.trans hhigh)
    rw [hwritten] at hbounds
    obtain ⟨hreadFinite, hnarrowed⟩ := narrowed_of_exact hfinite hn' hn hleast hmost' hnearest
    rw [← hmultiple, hvalue] at hreadFinite hnarrowed
    exact ⟨_, ⟨hreadFinite, fun negative => by
      rw [hread, scaled?_exact hw hbounds.1 hbounds.2.1 hbounds.2.2 hreadFinite]⟩, hnarrowed⟩

end Singles

end MappedMetrics.Proofs.SingleReadings
