import MappedMetrics.Proofs.DoubleArithmetic
import MappedMetrics.Proofs.ShortestDigits

namespace MappedMetrics.Proofs.RoundingErrors

open MappedMetrics.Decimal
open MappedMetrics.Proofs.BinaryRounding
open MappedMetrics.Proofs.DoubleArithmetic
open MappedMetrics.Proofs.ShortestDigits

/-- A number is near another one that is not negative. -/
structure Near (error x y : ℚ) : Prop where
  low : (1 - error) * y ≤ x
  high : x ≤ (1 + error) * y

section Errors

variable {a b c x y z x' y' : ℚ}

theorem Near.nonneg (hnear : Near a x y) (ha : a ≤ 1) (hy : 0 ≤ y) : 0 ≤ x :=
  le_trans (mul_nonneg (by linarith) hy) hnear.low

theorem Near.pos (hnear : Near a x y) (ha : a < 1) (hy : 0 < y) : 0 < x :=
  lt_of_lt_of_le (mul_pos (by linarith) hy) hnear.low

theorem Near.refl (hx : 0 ≤ x) (ha : 0 ≤ a) : Near a x x := by
  have hax := mul_nonneg ha hx
  constructor <;> linarith

theorem Near.add (hx : Near a x y) (hx' : Near a x' y') : Near a (x + x') (y + y') where
  low := by linarith [hx.low, hx'.low]
  high := by linarith [hx.high, hx'.high]

theorem Near.scale (hnear : Near a x y) (hc : 0 ≤ c) : Near a (c * x) (c * y) where
  low := by linarith [mul_le_mul_of_nonneg_left hnear.low hc]
  high := by linarith [mul_le_mul_of_nonneg_left hnear.high hc]

theorem Near.trans (hxy : Near a x y) (hyz : Near b y z) (hz : 0 ≤ z) (ha : 0 ≤ a) (hb : 0 ≤ b)
    (hone : a ≤ 1) (hsum : a + b + a * b ≤ c) : Near c x z where
  low := by
    have hlow := mul_le_mul_of_nonneg_left hyz.low (show 0 ≤ 1 - a by linarith)
    have hab := mul_nonneg (mul_nonneg ha hb) hz
    have hcz := mul_le_mul_of_nonneg_right hsum hz
    linarith [hxy.low]
  high := by
    have hhigh := mul_le_mul_of_nonneg_left hyz.high (show 0 ≤ 1 + a by linarith)
    have hcz := mul_le_mul_of_nonneg_right hsum hz
    linarith [hxy.high]

theorem Near.mul (hx : Near a x y) (hx' : Near b x' y') (hy : 0 ≤ y) (hy' : 0 ≤ y') (ha : 0 ≤ a)
    (hb : 0 ≤ b) (hone : a ≤ 1) (hone' : b ≤ 1) (hsum : a + b + a * b ≤ c) :
    Near c (x * x') (y * y') where
  low := by
    have hlow := mul_le_mul hx.low hx'.low (mul_nonneg (by linarith) hy')
      (hx.nonneg hone hy)
    have hyy := mul_nonneg hy hy'
    have hcz := mul_le_mul_of_nonneg_right hsum hyy
    have hab := mul_nonneg (mul_nonneg ha hb) hyy
    linarith
  high := by
    have hhigh := mul_le_mul hx.high hx'.high (hx'.nonneg hone' hy') (mul_nonneg (by linarith) hy)
    have hcz := mul_le_mul_of_nonneg_right hsum (mul_nonneg hy hy')
    linarith

theorem Near.div (hx : Near a x y) (hx' : Near b x' y') (hy : 0 ≤ y) (hy' : 0 < y') (ha : 0 ≤ a)
    (hb : 0 ≤ b) (hone' : b < 1) (hc : c ≤ 1) (hsum : a + b + b * c ≤ c) :
    Near c (x / x') (y / y') where
  low := by
    have hpos := hx'.pos hone' hy'
    rw [le_div_iff₀ hpos]
    have hratio : 0 ≤ y / y' := by positivity
    have hhigh := mul_le_mul_of_nonneg_left hx'.high
      (mul_nonneg (show 0 ≤ 1 - c by linarith) hratio)
    have hcancel : y / y' * y' = y := div_mul_cancel₀ y hy'.ne'
    have hbc := mul_nonneg hb (show 0 ≤ c by nlinarith)
    nlinarith [hx.low]
  high := by
    have hpos := hx'.pos hone' hy'
    rw [div_le_iff₀ hpos]
    have hratio : 0 ≤ y / y' := by positivity
    have hc' : 0 ≤ c := by nlinarith
    have hlow := mul_le_mul_of_nonneg_left hx'.low
      (mul_nonneg (show 0 ≤ 1 + c by linarith) hratio)
    have hcancel : y / y' * y' = y := div_mul_cancel₀ y hy'.ne'
    nlinarith [hx.high]

theorem Near.symm (hnear : Near a x y) (hy : 0 ≤ y) (ha : 0 ≤ a) (hone : a < 1) (hc : c ≤ 1)
    (hsum : a + a * c ≤ c) : Near c y x where
  low := by
    have hc' : 0 ≤ c := by nlinarith
    have hhigh := mul_le_mul_of_nonneg_left hnear.high (show 0 ≤ 1 - c by linarith)
    have hac := mul_nonneg (mul_nonneg ha hc') hy
    nlinarith
  high := by
    have hc' : 0 ≤ c := by nlinarith
    have hlow := mul_le_mul_of_nonneg_left hnear.low (show 0 ≤ 1 + c by linarith)
    nlinarith

end Errors

theorem near_nearest {v : ℚ} (hnormal : 2 ^ (-1022 : ℤ) ≤ v)
    (hfinite : nearest binary64 v < binary64.infinityCode) :
    Near (1 / 2 ^ 53) (magnitude binary64 (nearest binary64 v)) v := by
  have hbits : binary64.fractionBits + 1 = 53 := rfl
  have herror := abs_magnitude_nearest_sub_le_mul (f := binary64) hnormal hfinite
  rw [hbits, abs_le] at herror
  constructor <;> linarith [herror.1, herror.2]

section Halves

variable {a c k l r v : ℚ}

/-- Rounding a number makes an error that is small beside the number, up to half of the unit in
which all small numbers are rounded. -/
theorem abs_nearest_sub_le (hv : 0 ≤ v) (hfinite : nearest binary64 v < binary64.infinityCode) :
    |magnitude binary64 (nearest binary64 v) - v| ≤ 1 / 2 ^ 53 * v + 2 ^ (-1075 : ℤ) := by
  have hhalf := two_zpow_pos (-1075)
  rcases hv.eq_or_lt with rfl | hpos
  · rw [nearest_zero, magnitude_zero, sub_zero, abs_zero, mul_zero, zero_add]
    exact hhalf.le
  rcases le_or_gt ((2 : ℚ) ^ (-1022 : ℤ)) v with hnormal | hsmall
  · have hnear := near_nearest hnormal hfinite
    rw [abs_le]
    constructor <;> linarith [hnear.low, hnear.high]
  · have hbits : ((2 ^ (binary64.fractionBits + 1) : Nat) : ℚ) = 2 ^ (53 : ℤ) := by
      norm_num [binary64]
    have hexponent : unitExponent binary64 v ≤ -1074 := by
      refine unitExponent_le hpos minExponent_binary64.le (hsmall.trans_le ?_)
      rw [hbits, ← two_zpow_add]
      exact zpow_le_zpow_right₀ (by norm_num) (by norm_num)
    have hunit : (2 : ℚ) ^ unitExponent binary64 v ≤ 2 ^ (-1074 : ℤ) :=
      zpow_le_zpow_right₀ (by norm_num) hexponent
    have hsucc := two_zpow_succ (-1075)
    rw [show (-1075 : ℤ) + 1 = -1074 by norm_num] at hsucc
    have herror := abs_magnitude_nearest_sub_le (f := binary64) hpos hfinite
    linarith

theorem abs_nearest_sub_le_of_near (hr : 0 ≤ r) (hv : 0 ≤ v)
    (hnear : |r - v| ≤ a * v + k * 2 ^ (-1075 : ℤ))
    (hfinite : nearest binary64 r < binary64.infinityCode)
    (hsum : a + (1 + a) / 2 ^ 53 ≤ c) (hsum' : k + 1 + k / 2 ^ 53 ≤ l) :
    |magnitude binary64 (nearest binary64 r) - v| ≤ c * v + l * 2 ^ (-1075 : ℤ) := by
  have hhalf := two_zpow_pos (-1075)
  have herror := abs_nearest_sub_le hr hfinite
  generalize (2 : ℚ) ^ (-1075 : ℤ) = half at *
  have hcv := mul_le_mul_of_nonneg_right hsum hv
  have hlv := mul_le_mul_of_nonneg_right hsum' hhalf.le
  rw [abs_le] at hnear herror ⊢
  constructor <;> linarith [hnear.1, hnear.2, herror.1, herror.2]

theorem abs_div_sub_le {d p q half : ℚ} (hv : 0 ≤ v) (hhalf : 0 ≤ half) (hq : 10 ≤ q)
    (hd : |d - v * q| ≤ 32 / (10 * 2 ^ 53) * (v * q) + half) (hp : Near (1 / 2 ^ 53) p q) :
    |d / p - v| ≤ 43 / (10 * 2 ^ 53) * v + 1 / 8 * half := by
  have hppos : 0 < p := hp.pos (by norm_num) (by linarith)
  have hvq := mul_nonneg hv (show 0 ≤ q by linarith)
  have hhalfq : 10 * half ≤ half * q := by nlinarith
  have hvlow := mul_le_mul_of_nonneg_left hp.low hv
  have hvhigh := mul_le_mul_of_nonneg_left hp.high hv
  have hhalflow := mul_le_mul_of_nonneg_left hp.low hhalf
  rw [abs_le] at hd ⊢
  constructor
  · rw [le_sub_iff_add_le, le_div_iff₀ hppos]
    linarith [hd.1]
  · rw [sub_le_iff_le_add, div_le_iff₀ hppos]
    linarith [hd.2]

theorem abs_sub_le_of_near {x m half : ℚ} (hx : |x - v| ≤ 6 / 2 ^ 53 * v + 2 * half)
    (hm : |m - v| ≤ 1 / 2 ^ 53 * v + half) :
    |x - m| ≤ m / 2 ^ 50 + 4 * half := by
  rw [abs_le] at hx hm ⊢
  constructor <;> linarith [hx.1, hx.2, hm.1, hm.2]

theorem between_of_near {m half low high : ℚ} (hm : |m - v| ≤ 1 / 2 ^ 53 * v + half)
    (hhalf : half ≤ 1 / 4 * low) (horder : low ≤ high) (hlow : low * 2 ≤ m) (hhigh : m ≤ high) :
    low ≤ v ∧ v ≤ high * 2 := by
  rw [abs_le] at hm
  constructor <;> linarith [hm.1, hm.2]

end Halves

end MappedMetrics.Proofs.RoundingErrors
