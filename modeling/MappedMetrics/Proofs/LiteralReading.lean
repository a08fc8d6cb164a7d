import MappedMetrics.Proofs.JsonFloats
import MappedMetrics.Proofs.RoundingErrors

namespace MappedMetrics.Proofs.LiteralReading

open MappedMetrics
open MappedMetrics.Json
open MappedMetrics.Decimal
open MappedMetrics.Proofs.BinaryRounding
open MappedMetrics.Proofs.DoubleArithmetic
open MappedMetrics.Proofs.JsonNumbers
open MappedMetrics.Proofs.JsonFloats
open MappedMetrics.Proofs.RoundingErrors
open MappedMetrics.Proofs.ShortestDigits

section Digits

/-- The number that digits spell after a number that was read before them. -/
def valueFrom (n : Nat) (digits : List Char) : Nat :=
  digits.foldl (fun n c => 10 * n + (digit? c).getD 0) n

theorem le_valueFrom (n : Nat) (digits : List Char) : n ≤ valueFrom n digits := by
  induction digits generalizing n with
  | nil => exact le_rfl
  | cons c digits ih => exact le_trans (by omega) (ih (10 * n + (digit? c).getD 0))

theorem accumulate_eq {limit n : Nat} {digits : List Char} (hle : valueFrom n digits ≤ limit) :
    accumulate limit n digits = (valueFrom n digits, 0) := by
  induction digits generalizing n with
  | nil => rfl
  | cons c digits ih =>
      have hnext := le_trans (le_valueFrom _ digits) hle
      simp only [accumulate, if_pos hnext]
      exact ih hle

theorem valueFrom_append (n : Nat) (left right : List Char) :
    valueFrom n (left ++ right) = valueFrom (valueFrom n left) right :=
  List.foldl_append ..

theorem valueFrom_zeros (n k : Nat) : valueFrom n (List.replicate k '0') = n * 10 ^ k := by
  induction k generalizing n with
  | zero => simp [valueFrom]
  | succ k ih =>
      have hstep : valueFrom n (List.replicate (k + 1) '0') =
          valueFrom (10 * n) (List.replicate k '0') := rfl
      rw [hstep, ih, pow_succ]
      ring

theorem valueFrom_digitChars (n : Nat) : valueFrom 0 (digitChars n) = n :=
  digitsValue_digitChars n

theorem lt_ten_pow_length (n : Nat) : n < 10 ^ (digitChars n).length :=
  (Nat.length_toDigits_le_iff (by decide) Nat.length_toDigits_pos).mp le_rfl

end Digits

section Literals

variable {x : Numeral} {negative : Bool} {n : Nat} {e : ℤ}

/-- All digits of a numeral, the point left out. -/
def allDigits (x : Numeral) : List Char :=
  x.whole ++ x.fraction.getD []

theorem accumulate_allDigits (hle : valueFrom 0 (allDigits x) ≤ maxSignificand) :
    ∃ high, accumulate maxSignificand 0 x.whole = (high, 0) ∧
      accumulate maxSignificand high (x.fraction.getD []) = (valueFrom 0 (allDigits x), 0) := by
  rw [allDigits, valueFrom_append] at hle ⊢
  exact ⟨_, accumulate_eq ((le_valueFrom _ _).trans hle), accumulate_eq hle⟩

theorem magnitude?_of_none (hle : valueFrom 0 (allDigits x) ≤ maxSignificand)
    (hexponent : x.exponent = none) :
    x.magnitude? = scaled? (UInt64.ofNat (valueFrom 0 (allDigits x))).toFloat
      (-(x.fraction.getD []).length) := by
  obtain ⟨high, hwhole, hfraction⟩ := accumulate_allDigits hle
  simp only [Numeral.magnitude?, hwhole, hfraction, hexponent]
  congr 1
  omega

theorem magnitude?_of_some {digits : List Char} (hle : valueFrom 0 (allDigits x) ≤ maxSignificand)
    (hexponent : x.exponent = some (negative, digits)) (hsmall : valueFrom 0 digits ≤ 2 ^ 20)
    (hlength : (x.fraction.getD []).length ≤ 2 ^ 20) :
    x.magnitude? = scaled? (UInt64.ofNat (valueFrom 0 (allDigits x))).toFloat
      ((if negative then -(valueFrom 0 digits : ℤ) else valueFrom 0 digits) -
        (x.fraction.getD []).length) := by
  obtain ⟨high, hwhole, hfraction⟩ := accumulate_allDigits hle
  have hdigits : accumulate maxExponent 0 digits = (valueFrom 0 digits, 0) :=
    accumulate_eq (hsmall.trans (by decide))
  simp only [Numeral.magnitude?, hwhole, hfraction, hexponent, hdigits]
  rw [if_pos trivial]
  congr 1
  split <;> omega

theorem valueFrom_zeros_append (k n : Nat) :
    valueFrom 0 (List.replicate k '0' ++ digitChars n) = n := by
  rw [valueFrom_append, valueFrom_zeros, Nat.zero_mul, valueFrom_digitChars]

theorem whole_le {limit : Nat} (he : 0 ≤ e) (hscale : e + (digitChars n).length - 1 < limit) :
    n * 10 ^ (e.toNat + 1) ≤ 10 ^ (limit + 1) :=
  calc n * 10 ^ (e.toNat + 1) ≤ 10 ^ (digitChars n).length * 10 ^ (e.toNat + 1) :=
        Nat.mul_le_mul_right _ (lt_ten_pow_length n).le
    _ = 10 ^ ((digitChars n).length + (e.toNat + 1)) := (pow_add ..).symm
    _ ≤ 10 ^ (limit + 1) := Nat.pow_le_pow_right (by decide) (by omega)

theorem magnitude?_whole (he : 0 ≤ e) (hscale : e + (digitChars n).length - 1 < 16) :
    (positional negative (digitChars n) e).magnitude? =
      scaled? (UInt64.ofNat (n * 10 ^ (e.toNat + 1))).toFloat (-1) := by
  have hnumeral : positional negative (digitChars n) e =
      ⟨negative, digitChars n ++ List.replicate e.toNat '0', some ['0'], none⟩ := if_pos he
  have hvalue : valueFrom 0 (allDigits (positional negative (digitChars n) e)) =
      n * 10 ^ (e.toNat + 1) := by
    have hdigits : allDigits (positional negative (digitChars n) e) =
        digitChars n ++ List.replicate (e.toNat + 1) '0' := by
      rw [hnumeral, List.replicate_succ', ← List.append_assoc]
      rfl
    rw [hdigits, valueFrom_append, valueFrom_digitChars, valueFrom_zeros]
  have hfits : n * 10 ^ (e.toNat + 1) ≤ 10 ^ (16 + 1) := whole_le he hscale
  have hread := magnitude?_of_none (x := positional negative (digitChars n) e)
    (by rw [hvalue]; exact hfits.trans (by decide)) (by rw [hnumeral])
  rw [hread, hvalue, hnumeral]
  rfl

theorem magnitude?_fraction (hbound : n < 10 ^ 18) (he : e < 0) :
    (positional negative (digitChars n) e).magnitude? = scaled? (UInt64.ofNat n).toFloat e := by
  have hvalue : valueFrom 0 (allDigits (positional negative (digitChars n) e)) = n ∧
      (positional negative (digitChars n) e).exponent = none ∧
      (-((positional negative (digitChars n) e).fraction.getD []).length : ℤ) = e := by
    simp only [positional, if_neg (Int.not_le.mpr he)]
    split
    · rename_i hshort
      refine ⟨valueFrom_zeros_append (_ + 1) n, rfl, ?_⟩
      simp only [Option.getD_some, List.length_append, List.length_replicate]
      omega
    · rename_i hlong
      refine ⟨?_, rfl, ?_⟩
      · rw [allDigits, Option.getD_some, List.take_append_drop, valueFrom_digitChars]
      · simp only [Option.getD_some, List.length_drop]
        omega
  obtain ⟨hvalue, hexponent, hlength⟩ := hvalue
  rw [magnitude?_of_none (by rw [hvalue]; exact hbound.le.trans (by decide)) hexponent, hvalue,
    hlength]

theorem magnitude?_scientific (hbound : n < 10 ^ 18) (hlow : -340 ≤ e) (hhigh : e ≤ 308) :
    (scientific negative (digitChars n) (e + (digitChars n).length - 1)).magnitude? =
      scaled? (UInt64.ofNat n).toFloat e := by
  have hlength : 0 < (digitChars n).length := Nat.length_toDigits_pos
  have hshort : (digitChars n).length ≤ 18 :=
    (Nat.length_toDigits_le_iff (by decide) (by decide)).mpr hbound
  have hvalue : valueFrom 0 (allDigits
        (scientific negative (digitChars n) (e + (digitChars n).length - 1))) = n ∧
      ((scientific negative (digitChars n) (e + (digitChars n).length - 1)).fraction.getD
        []).length = (digitChars n).length - 1 := by
    simp only [scientific, allDigits]
    split
    · rename_i hone
      rw [Option.getD_none, List.append_nil, List.take_of_length_le hone, valueFrom_digitChars]
      exact ⟨rfl, by simp only [List.length_nil]; omega⟩
    · rw [Option.getD_some, List.take_append_drop, valueFrom_digitChars, List.length_drop]
      exact ⟨rfl, rfl⟩
  have hexponent : (scientific negative (digitChars n) (e + (digitChars n).length - 1)).exponent =
      some (decide (e + (digitChars n).length - 1 < 0),
        digitChars (e + (digitChars n).length - 1).natAbs) := rfl
  obtain ⟨hvalue, hfraction⟩ := hvalue
  rw [magnitude?_of_some (by rw [hvalue]; exact hbound.le.trans (by decide)) hexponent
    (by rw [valueFrom_digitChars]; omega) (by omega), hvalue, valueFrom_digitChars, hfraction]
  congr 1
  simp only [decide_eq_true_eq]
  split <;> omega

end Literals

section Scaling

variable {a k : Nat} {e : ℤ}

/-- The code of the double nearest to a power of ten. -/
def power (k : Nat) : Nat :=
  nearest binary64 (10 ^ k)

theorem powerOfTen_eq (hk : k ≤ 308) : powerOfTen k = double (power k) := by
  have hdecimal : binary64.ofDecimal 1 k = power k := by
    have hlog : Nat.log2 1 = 0 := rfl
    rw [ofDecimal_eq (by omega) (by omega), Nat.cast_one, one_mul, zpow_natCast, power]
  rw [powerOfTen, hdecimal, double]

theorem power_lt (hk : k ≤ 308) : power k < binary64.infinityCode := by
  have hle : power k ≤ binary64.infinityCode - 1 := by
    have hdecode : binary64.decode (binary64.infinityCode - 1) = (2 ^ 53 - 1, 971) := by
      decide +kernel
    refine nearest_le (by positivity) ?_
    have hten : (10 : ℚ) ^ (307 : ℤ) ≤ 2 ^ (49 + 971 : ℤ) :=
      ten_zpow_le_two_zpow (by norm_num) (by norm_num)
    have htwo := two_zpow_pos 971
    rw [two_zpow_add] at hten
    rw [magnitude, hdecode]
    calc (10 : ℚ) ^ k ≤ 10 ^ 308 := pow_le_pow_right₀ (by norm_num) hk
      _ = 10 ^ (307 : ℤ) * 10 := pow_succ 10 307
      _ ≤ ((2 ^ 53 - 1 : Nat) : ℚ) * 2 ^ (971 : ℤ) := by
          generalize (2 : ℚ) ^ (971 : ℤ) = unit at *
          generalize (10 : ℚ) ^ (307 : ℤ) = ten at *
          norm_num at hten ⊢
          linarith
  have hinfinity := infinityCode_binary64
  omega

theorem power_pos (k : Nat) : 0 < power k := by
  have hdecode : binary64.decode 1 = (1, -1074) := by decide
  refine le_nearest (by decide) ?_
  calc magnitude binary64 1 = 2 ^ (-1074 : ℤ) := by rw [magnitude, hdecode, Nat.cast_one, one_mul]
    _ ≤ 2 ^ (0 : ℤ) := zpow_le_zpow_right₀ (by norm_num) (by norm_num)
    _ ≤ 10 ^ k := one_le_pow₀ (by norm_num)

theorem scaled?_of_nonneg (ha : a < binary64.infinityCode) (hk : k ≤ 308)
    (hfinite : nearest binary64 (magnitude binary64 a * magnitude binary64 (power k)) <
      binary64.infinityCode) :
    scaled? (double a) k =
      some (double (nearest binary64 (magnitude binary64 a * magnitude binary64 (power k)))) := by
  have hnonneg : (0 : ℤ) ≤ k := Int.natCast_nonneg k
  have hle : (k : ℤ) ≤ 308 := by omega
  rw [scaled?, if_pos hnonneg, if_pos hle, Int.toNat_natCast, powerOfTen_eq hk,
    mul_double ha (power_lt hk)]
  simp only [isInf_double (nearest_le_infinityCode _), beq_false_of_ne hfinite.ne]
  rfl

theorem scaled?_of_neg (ha : a < binary64.infinityCode) (hpos : 0 < k) (hk : k ≤ 308) :
    scaled? (double a) (-k) =
      some (double (nearest binary64 (magnitude binary64 a / magnitude binary64 (power k)))) := by
  have hnonneg : ¬ (0 : ℤ) ≤ -k := by omega
  have hle : (-308 : ℤ) ≤ -k := by omega
  rw [scaled?, if_neg hnonneg, if_pos hle, neg_neg, Int.toNat_natCast, powerOfTen_eq hk,
    div_double ha (power_pos k) (power_lt hk)]

theorem scaled?_of_far (ha : a < binary64.infinityCode) (hpos : 0 < a) (he : e < -308) :
    scaled? (double a) e =
      scaled? (double (nearest binary64 (magnitude binary64 a / magnitude binary64 (power 308))))
        (e + 308) := by
  have hzero : ¬ (double a == 0) = true := by
    rw [beq_zero_double ha.le]
    simpa using hpos.ne'
  rw [scaled?, if_neg (by omega), if_neg (by omega), if_neg hzero, powerOfTen_eq le_rfl,
    div_double ha (power_pos 308) (power_lt le_rfl)]

end Scaling

section Exact

variable {w k : Nat} {e : ℤ}

theorem toFloat_ofNat (hw : w < 2 ^ 64) :
    (UInt64.ofNat w).toFloat = double (nearest binary64 w) := by
  rw [toFloat_eq, UInt64.toNat_ofNat_of_lt' hw]

theorem nearest_natCast (hpos : 0 < w) (hw : w < 2 ^ 53) :
    magnitude binary64 (nearest binary64 w) = w ∧ nearest binary64 w < binary64.infinityCode := by
  have hexact := nearest_units (f := binary64) (q := 0) hpos hw (by decide)
    (by
      rw [magnitude_infinityCode, zpow_zero, mul_one]
      calc (w : ℚ) ≤ 2 ^ 53 := by exact_mod_cast hw.le
        _ = 2 ^ (53 : ℤ) := rfl
        _ < 2 ^ (1024 : ℤ) := zpow_lt_zpow_right₀ (by norm_num) (by norm_num))
  rwa [zpow_zero, mul_one] at hexact

theorem magnitude_power (hk : k ≤ 22) : magnitude binary64 (power k) = 10 ^ k := by
  have hfive : 5 ^ k < 2 ^ 53 := by
    calc 5 ^ k ≤ 5 ^ 22 := Nat.pow_le_pow_right (by decide) hk
      _ < 2 ^ 53 := by decide
  have hten : (10 : ℚ) ^ k = (5 ^ k : Nat) * 2 ^ (k : ℤ) := by
    rw [zpow_natCast, Nat.cast_pow, ← mul_pow]
    norm_num
  have hfinite : (10 : ℚ) ^ k < magnitude binary64 binary64.infinityCode := by
    rw [magnitude_infinityCode]
    calc (10 : ℚ) ^ k ≤ 10 ^ 22 := pow_le_pow_right₀ (by norm_num) hk
      _ < 2 ^ (74 : ℤ) := by norm_num
      _ ≤ 2 ^ (1024 : ℤ) := zpow_le_zpow_right₀ (by norm_num) (by norm_num)
  rw [hten] at hfinite
  rw [power, hten]
  exact (nearest_units (by positivity) hfive (by have hmin := minExponent_binary64; omega)
    hfinite).1

theorem scaled?_exact (hpos : 0 < w) (hw : w < 2 ^ 53) (hlow : -22 ≤ e) (hhigh : e ≤ 22)
    (hfinite : nearest binary64 (w * 10 ^ e) < binary64.infinityCode) :
    scaled? (UInt64.ofNat w).toFloat e = some (double (nearest binary64 (w * 10 ^ e))) := by
  obtain ⟨hvalue, hvalueFinite⟩ := nearest_natCast hpos hw
  rw [toFloat_ofNat (hw.trans (by decide))]
  rcases le_or_gt 0 e with hnonneg | hneg
  · obtain ⟨k, rfl⟩ := Int.eq_ofNat_of_zero_le hnonneg
    rw [zpow_natCast] at hfinite ⊢
    have hproduct : (w : ℚ) * 10 ^ k =
        magnitude binary64 (nearest binary64 w) * magnitude binary64 (power k) := by
      rw [hvalue, magnitude_power (by omega)]
    rw [hproduct] at hfinite ⊢
    exact scaled?_of_nonneg hvalueFinite (by omega) hfinite
  · obtain ⟨k, hk⟩ : ∃ k : Nat, e = -k := ⟨(-e).toNat, by omega⟩
    subst hk
    have hquotient : (w : ℚ) * 10 ^ (-k : ℤ) =
        magnitude binary64 (nearest binary64 w) / magnitude binary64 (power k) := by
      rw [hvalue, magnitude_power (by omega), zpow_neg, zpow_natCast, div_eq_mul_inv]
    rw [hquotient]
    exact scaled?_of_neg hvalueFinite (by omega) (by omega)

end Exact

section Errors

variable {w k : Nat} {e : ℤ}

theorem nearest_lt_infinityCode {v : ℚ} (hv : 0 ≤ v) (hsmall : v ≤ 2 ^ (1023 : ℤ)) :
    nearest binary64 v < binary64.infinityCode := by
  have hdecode : binary64.decode (2046 * 2 ^ 52) = (2 ^ 52, 971) := by decide +kernel
  have hle : nearest binary64 v ≤ 2046 * 2 ^ 52 := by
    refine nearest_le hv (hsmall.trans_eq ?_)
    rw [magnitude, hdecode, Nat.cast_pow, Nat.cast_two, ← zpow_natCast, ← two_zpow_add]
    rfl
  exact hle.trans_lt (by decide)

theorem near_power (hk : k ≤ 308) : Near (1 / 2 ^ 53) (magnitude binary64 (power k)) (10 ^ k) := by
  refine near_nearest ?_ (power_lt hk)
  calc (2 : ℚ) ^ (-1022 : ℤ) ≤ 2 ^ (0 : ℤ) := zpow_le_zpow_right₀ (by norm_num) (by norm_num)
    _ ≤ 10 ^ k := one_le_pow₀ (by norm_num)

theorem near_value (hpos : 0 < w) (hw : w < 2 ^ 64) :
    nearest binary64 w < binary64.infinityCode ∧
      Near (1 / 2 ^ 53) (magnitude binary64 (nearest binary64 w)) w := by
  have hone : (1 : ℚ) ≤ w := by exact_mod_cast hpos
  have hfinite : nearest binary64 (w : ℚ) < binary64.infinityCode := by
    refine nearest_lt_infinityCode (by positivity) ?_
    calc (w : ℚ) ≤ 2 ^ 64 := by exact_mod_cast hw.le
      _ = 2 ^ (64 : ℤ) := rfl
      _ ≤ 2 ^ (1023 : ℤ) := zpow_le_zpow_right₀ (by norm_num) (by norm_num)
  refine ⟨hfinite, near_nearest ?_ hfinite⟩
  calc (2 : ℚ) ^ (-1022 : ℤ) ≤ 2 ^ (0 : ℤ) := zpow_le_zpow_right₀ (by norm_num) (by norm_num)
    _ ≤ w := hone

theorem near_places (hw : 0 < w) (hbound : w < 2 ^ 53) (hk : k ≤ 12) :
    nearest binary64 (w / 10 ^ k) < binary64.infinityCode ∧
      Near (1 / 2 ^ 53) (magnitude binary64 (nearest binary64 (w / 10 ^ k))) (w / 10 ^ k) := by
  have hw' : (1 : ℚ) ≤ w := by exact_mod_cast hw
  have hbound' : (w : ℚ) ≤ 2 ^ 53 := by exact_mod_cast hbound.le
  have hfinite : nearest binary64 ((w : ℚ) / 10 ^ k) < binary64.infinityCode := by
    refine nearest_lt_infinityCode (by positivity) ?_
    calc (w : ℚ) / 10 ^ k ≤ w := div_le_self (by positivity) (one_le_pow₀ (by norm_num))
      _ ≤ 2 ^ (53 : ℤ) := hbound'
      _ ≤ 2 ^ (1023 : ℤ) := zpow_le_zpow_right₀ (by norm_num) (by norm_num)
  refine ⟨hfinite, near_nearest ?_ hfinite⟩
  rw [le_div_iff₀ (by positivity)]
  calc (2 : ℚ) ^ (-1022 : ℤ) * 10 ^ k ≤ 2 ^ (-40 : ℤ) * 10 ^ 12 :=
        mul_le_mul (zpow_le_zpow_right₀ (by norm_num) (by norm_num))
          (pow_le_pow_right₀ (by norm_num) hk) (by positivity) (two_zpow_pos _).le
    _ ≤ 1 := by norm_num
    _ ≤ w := hw'

theorem exists_scaled_nearest (hpos : 0 < w) (hw : w < 2 ^ 64) (hleast : -308 ≤ e)
    (hmost : e ≤ 308) :
    ∃ r, Near (21 / (10 * 2 ^ 53)) r (w * 10 ^ e) ∧
      (nearest binary64 r < binary64.infinityCode →
        scaled? (UInt64.ofNat w).toFloat e = some (double (nearest binary64 r))) := by
  obtain ⟨hvalueFinite, hvalue⟩ := near_value hpos hw
  have hw' : (0 : ℚ) ≤ w := by positivity
  rw [toFloat_ofNat hw]
  rcases le_or_gt 0 e with hnonneg | hneg
  · obtain ⟨k, rfl⟩ := Int.eq_ofNat_of_zero_le hnonneg
    have hproduct := hvalue.mul (near_power (k := k) (by omega)) hw' (by positivity)
      (c := 21 / (10 * 2 ^ 53)) (by norm_num) (by norm_num) (by norm_num) (by norm_num)
      (by norm_num)
    rw [zpow_natCast]
    exact ⟨_, hproduct, fun hfinite => scaled?_of_nonneg hvalueFinite (by omega) hfinite⟩
  · obtain ⟨k, hk⟩ : ∃ k : Nat, e = -k := ⟨(-e).toNat, by omega⟩
    subst hk
    have hquotient := hvalue.div (near_power (k := k) (by omega)) hw' (by positivity)
      (c := 21 / (10 * 2 ^ 53)) (by norm_num) (by norm_num) (by norm_num) (by norm_num)
      (by norm_num)
    rw [zpow_neg, zpow_natCast, ← div_eq_mul_inv]
    exact ⟨_, hquotient, fun _ => scaled?_of_neg hvalueFinite (by omega) (by omega)⟩

theorem near_rounded {r v : ℚ} (hnear : Near (21 / (10 * 2 ^ 53)) r v)
    (hlow : 2 ^ (-1000 : ℤ) ≤ v) (hhigh : v ≤ 2 ^ (1000 : ℤ)) :
    nearest binary64 r < binary64.infinityCode ∧
      Near (32 / (10 * 2 ^ 53)) (magnitude binary64 (nearest binary64 r)) v := by
  have hv : 0 < v := (two_zpow_pos _).trans_le hlow
  have hr : 0 < r := hnear.pos (by norm_num) hv
  have hdown : (1 : ℚ) / 2 * v ≤ r := by
    refine le_trans (mul_le_mul_of_nonneg_right ?_ hv.le) hnear.low
    norm_num
  have hup : r ≤ 2 * v := by
    refine hnear.high.trans (mul_le_mul_of_nonneg_right ?_ hv.le)
    norm_num
  have hfinite : nearest binary64 r < binary64.infinityCode := by
    refine nearest_lt_infinityCode hr.le ?_
    calc r ≤ 2 ^ (1000 : ℤ) * 2 := by linarith
      _ = 2 ^ (1001 : ℤ) := (two_zpow_succ 1000).symm
      _ ≤ 2 ^ (1023 : ℤ) := zpow_le_zpow_right₀ (by norm_num) (by norm_num)
  have hnormal : (2 : ℚ) ^ (-1022 : ℤ) ≤ r := by
    have hsucc := two_zpow_succ (-1001)
    rw [show (-1001 : ℤ) + 1 = -1000 by norm_num] at hsucc
    calc (2 : ℚ) ^ (-1022 : ℤ) ≤ 2 ^ (-1001 : ℤ) := zpow_le_zpow_right₀ (by norm_num) (by norm_num)
      _ ≤ r := by linarith
  exact ⟨hfinite, (near_nearest hnormal hfinite).trans hnear hv.le (by norm_num) (by norm_num)
    (by norm_num) (by norm_num)⟩

/-- A literal in the middle of the range is read with the errors of three roundings. -/
theorem exists_scaled (hpos : 0 < w) (hw : w < 2 ^ 64) (hleast : -308 ≤ e) (hmost : e ≤ 308)
    (hlow : 2 ^ (-1000 : ℤ) ≤ (w : ℚ) * 10 ^ e) (hhigh : (w : ℚ) * 10 ^ e ≤ 2 ^ (1000 : ℤ)) :
    ∃ code, scaled? (UInt64.ofNat w).toFloat e = some (double code) ∧
      code < binary64.infinityCode ∧
      Near (32 / (10 * 2 ^ 53)) (magnitude binary64 code) (w * 10 ^ e) := by
  obtain ⟨r, hnear, hread⟩ := exists_scaled_nearest hpos hw hleast hmost
  obtain ⟨hfinite, hrounded⟩ := near_rounded hnear hlow hhigh
  exact ⟨_, hread hfinite, hfinite, hrounded⟩

theorem near_quotient (hpos : 0 < w) (hw : w < 2 ^ 64) (hk : k ≤ 308) :
    Near (21 / (10 * 2 ^ 53))
      (magnitude binary64 (nearest binary64 w) / magnitude binary64 (power k)) (w / 10 ^ k) :=
  (near_value hpos hw).2.div (near_power hk) (by positivity) (by positivity) (by norm_num)
    (by norm_num) (by norm_num) (by norm_num) (by norm_num)

theorem quotient_lt_infinityCode (hpos : 0 < w) (hw : w < 2 ^ 64) (hk : k ≤ 308) :
    nearest binary64 (magnitude binary64 (nearest binary64 w) / magnitude binary64 (power k)) <
      binary64.infinityCode := by
  have hnear := near_quotient hpos hw hk
  have hsmall : (w : ℚ) / 10 ^ k ≤ 2 ^ 64 :=
    (div_le_self (by positivity) (one_le_pow₀ (by norm_num))).trans (by exact_mod_cast hw.le)
  refine nearest_lt_infinityCode (hnear.nonneg (by norm_num) (by positivity)) ?_
  calc magnitude binary64 (nearest binary64 w) / magnitude binary64 (power k)
      ≤ 2 ^ (65 : ℤ) := by
        refine hnear.high.trans ?_
        norm_num at hsmall ⊢
        linarith
    _ ≤ 2 ^ (1023 : ℤ) := zpow_le_zpow_right₀ (by norm_num) (by norm_num)

theorem exists_scaled_far (hpos : 0 < w) (hw : w < 2 ^ 64) (hleast : -616 ≤ e) (hmost : e < -308) :
    ∃ r : ℚ, 0 ≤ r ∧ |r - w * 10 ^ e| ≤
        43 / (10 * 2 ^ 53) * (w * 10 ^ e) + 1 / 8 * 2 ^ (-1075 : ℤ) ∧
      scaled? (UInt64.ofNat w).toFloat e = some (double (nearest binary64 r)) := by
  obtain ⟨k, hk⟩ : ∃ k : Nat, e = -(308 + k : Nat) := ⟨(-e - 308).toNat, by omega⟩
  obtain ⟨hvalueFinite, hvalue⟩ := near_value hpos hw
  have hvaluePos := magnitude_pos_iff.mp (hvalue.pos (by norm_num) (by positivity))
  have hfinite := quotient_lt_infinityCode hpos hw (k := 308) le_rfl
  have hread : scaled? (UInt64.ofNat w).toFloat e =
      some (double (nearest binary64 (magnitude binary64 (nearest binary64
        (magnitude binary64 (nearest binary64 w) / magnitude binary64 (power 308))) /
          magnitude binary64 (power k)))) := by
    have hrest : e + 308 = -k := by omega
    rw [toFloat_ofNat hw, scaled?_of_far hvalueFinite hvaluePos hmost, hrest,
      scaled?_of_neg hfinite (by omega) (by omega)]
  have hv : (w : ℚ) / 10 ^ 308 = w * 10 ^ e * 10 ^ k := by
    rw [hk, zpow_neg, zpow_natCast, pow_add]
    field_simp
  have hv0 : (0 : ℚ) ≤ w * 10 ^ e := mul_nonneg (by positivity) (ten_zpow_pos e).le
  have hfirst := near_quotient hpos hw (k := 308) le_rfl
  have hfirst0 := hfirst.nonneg (by norm_num) (by positivity)
  rw [hv] at hfirst
  generalize magnitude binary64 (nearest binary64 w) / magnitude binary64 (power 308) = q at *
  have hrounded := abs_nearest_sub_le_of_near (a := 21 / (10 * 2 ^ 53)) (k := 0)
    (c := 32 / (10 * 2 ^ 53)) (l := 1) (v := w * 10 ^ e * 10 ^ k) hfirst0
    (mul_nonneg hv0 (by positivity))
    (by rw [abs_le]; constructor <;> linarith [hfirst.low, hfirst.high]) hfinite (by norm_num)
    (by norm_num)
  rw [one_mul] at hrounded
  refine ⟨_, ?_, abs_div_sub_le hv0 (two_zpow_pos _).le (le_self_pow₀ (by norm_num) (by omega))
    hrounded (near_power (by omega)), hread⟩
  exact div_nonneg (magnitude_nonneg _ _) (magnitude_nonneg _ _)

end Errors

end MappedMetrics.Proofs.LiteralReading
