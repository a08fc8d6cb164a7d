import Mathlib.Data.Int.Log
import Mathlib.Data.Rat.Floor
import Mathlib.Tactic.FieldSimp
import Mathlib.Tactic.Linarith
import Mathlib.Tactic.Positivity
import Mathlib.Tactic.Ring
import MappedMetrics.Bytes
import MappedMetrics.Decimal.Binary

/-!
Rounding to a binary format as a function of rational numbers. The magnitudes of the codes of a
format increase with the codes, and a number is rounded to the code of the magnitude nearest to it.
-/

namespace MappedMetrics.Proofs.BinaryRounding

open MappedMetrics.Decimal

section Quotients

theorem roundDiv_mul_right (a b : Nat) {c : Nat} (hc : 0 < c) :
    roundDiv (a * c) (b * c) = roundDiv a b := by
  have htwice : 2 * (a % b * c) = 2 * (a % b) * c := (Nat.mul_assoc ..).symm
  simp only [roundDiv, Nat.mul_div_mul_right _ _ hc, Nat.mul_mod_mul_right, htwice,
    Nat.mul_lt_mul_right hc]

theorem roundDiv_congr {a b c d : Nat} (hb : 0 < b) (hd : 0 < d) (hcross : a * d = c * b) :
    roundDiv a b = roundDiv c d := by
  rw [← roundDiv_mul_right a b hd, hcross, Nat.mul_comm b d, roundDiv_mul_right c d hb]

theorem roundDiv_near (n : Nat) {d : Nat} (hd : 0 < d) :
    2 * n ≤ 2 * (d * roundDiv n d) + d ∧ 2 * (d * roundDiv n d) ≤ 2 * n + d := by
  have hsplit := Nat.div_add_mod n d
  have hrest := Nat.mod_lt n hd
  have hdown : d * (n / d) ≤ n := by omega
  have hup : d * (n / d + 1) = d * (n / d) + d := Nat.mul_succ ..
  simp only [roundDiv]
  split
  · omega
  · split
    · omega
    · rcases Nat.mod_two_eq_zero_or_one (n / d) with heven | hodd
      · rw [heven, Nat.add_zero]
        omega
      · rw [hodd]
        omega

/-- The whole number nearest to a rational number. -/
def nearestNat (v : ℚ) : Nat :=
  roundDiv v.num.toNat v.den

variable {v : ℚ} {k : Nat}

theorem roundDiv_eq (n : Nat) {d : Nat} (hd : 0 < d) : roundDiv n d = nearestNat ((n : ℚ) / d) := by
  have hd' : (d : ℚ) ≠ 0 := by positivity
  have hnum : 0 ≤ ((n : ℚ) / d).num := Rat.num_nonneg.mpr (by positivity)
  refine roundDiv_congr hd (Rat.den_pos _) ?_
  have hratio := Rat.num_div_den ((n : ℚ) / d)
  rw [← Int.toNat_of_nonneg hnum, Int.cast_natCast] at hratio
  have hden : (((n : ℚ) / d).den : ℚ) ≠ 0 := by positivity
  rw [div_eq_div_iff hden hd'] at hratio
  exact_mod_cast hratio.symm

theorem abs_nearestNat_sub_le (hv : 0 ≤ v) : |(nearestNat v : ℚ) - v| ≤ 1 / 2 := by
  have hden : (0 : ℚ) < v.den := by exact_mod_cast v.den_pos
  have hv' : (v.num.toNat : ℚ) = v * v.den := by
    have hnum : (v.num.toNat : ℤ) = v.num := Int.toNat_of_nonneg (Rat.num_nonneg.mpr hv)
    rw [Rat.mul_den_eq_num]
    exact_mod_cast congrArg (Int.cast : ℤ → ℚ) hnum
  obtain ⟨hlow, hhigh⟩ := roundDiv_near v.num.toNat v.den_pos
  rw [← nearestNat] at hlow hhigh
  have hlow' : 2 * (v * v.den) ≤ 2 * (v.den * (nearestNat v : ℚ)) + v.den := by
    rw [← hv']
    exact_mod_cast hlow
  have hhigh' : 2 * (v.den * (nearestNat v : ℚ)) ≤ 2 * (v * v.den) + v.den := by
    rw [← hv']
    exact_mod_cast hhigh
  rw [abs_le]
  constructor <;> nlinarith

theorem nearestNat_le (hv : 0 ≤ v) (hk : v ≤ k) : nearestNat v ≤ k := by
  have hnear := (abs_le.mp (abs_nearestNat_sub_le hv)).2
  have hlt : (nearestNat v : ℚ) < k + 1 := by linarith
  exact Nat.lt_succ_iff.mp (by exact_mod_cast hlt)

theorem le_nearestNat (hk : (k : ℚ) ≤ v) : k ≤ nearestNat v := by
  have hnear := (abs_le.mp (abs_nearestNat_sub_le (le_trans k.cast_nonneg hk))).1
  have hlt : (k : ℚ) < nearestNat v + 1 := by linarith
  exact Nat.lt_succ_iff.mp (by exact_mod_cast hlt)

theorem nearestNat_natCast (k : Nat) : nearestNat (k : ℚ) = k :=
  Nat.le_antisymm (nearestNat_le k.cast_nonneg le_rfl) (le_nearestNat le_rfl)

theorem nearestNat_of_close (hv : 0 ≤ v) (hclose : |v - k| < 1 / 2) : nearestNat v = k := by
  obtain ⟨hlow, hhigh⟩ := abs_lt.mp hclose
  obtain ⟨hlow', hhigh'⟩ := abs_le.mp (abs_nearestNat_sub_le hv)
  have hle : (nearestNat v : ℚ) < k + 1 := by linarith
  have hge : (k : ℚ) < nearestNat v + 1 := by linarith
  have hle' : nearestNat v < k + 1 := by exact_mod_cast hle
  have hge' : k < nearestNat v + 1 := by exact_mod_cast hge
  omega

end Quotients

section Logarithms

theorem two_zpow_pos (k : ℤ) : (0 : ℚ) < 2 ^ k :=
  zpow_pos (by norm_num) k

theorem two_zpow_add (j k : ℤ) : (2 : ℚ) ^ (j + k) = 2 ^ j * 2 ^ k :=
  zpow_add₀ (by norm_num) j k

theorem two_zpow_succ (k : ℤ) : (2 : ℚ) ^ (k + 1) = 2 ^ k * 2 := by
  rw [two_zpow_add, zpow_one]

theorem zpow_eq_div {b : ℚ} (hb : b ≠ 0) (k : ℤ) : b ^ k = b ^ k.toNat / b ^ (-k).toNat := by
  rw [← zpow_natCast, ← zpow_natCast, ← zpow_sub₀ hb]
  congr 1
  omega

theorem log_eq {v : ℚ} {k : ℤ} (hlow : 2 ^ k ≤ v) (hhigh : v < 2 ^ (k + 1)) :
    Int.log 2 v = k := by
  have hv : 0 < v := lt_of_lt_of_le (two_zpow_pos k) hlow
  have hle := (Int.zpow_le_iff_le_log (b := 2) (by decide) hv).mp hlow
  have hlt := (Int.lt_zpow_iff_log_lt (b := 2) (by decide) hv).mp hhigh
  omega

theorem two_zpow_log_le {v : ℚ} (hv : 0 < v) : 2 ^ Int.log 2 v ≤ v :=
  Int.zpow_log_le_self (by decide) hv

theorem lt_two_zpow_log (v : ℚ) : v < 2 ^ (Int.log 2 v + 1) :=
  Int.lt_zpow_succ_log_self (by decide) v

theorem two_zpow_log2_le {n : Nat} (hn : 0 < n) : (2 : ℚ) ^ (n.log2 : ℤ) ≤ n := by
  rw [zpow_natCast]
  exact_mod_cast Nat.log2_self_le hn.ne'

theorem lt_two_zpow_log2 (n : Nat) : (n : ℚ) < 2 ^ ((n.log2 : ℤ) + 1) := by
  have hlt : n < 2 ^ (n.log2 + 1) := Nat.lt_log2_self
  exact_mod_cast hlt

theorem floorLog2_eq {n d : Nat} (hn : 0 < n) (hd : 0 < d) :
    floorLog2 n d = Int.log 2 ((n : ℚ) / d) := by
  have hd' : (0 : ℚ) < d := by exact_mod_cast hd
  have hn' : (0 : ℚ) < n := by exact_mod_cast hn
  have hlow : (2 : ℚ) ^ ((n.log2 : ℤ) - d.log2 - 1) < n / d := by
    have hsum : (n.log2 : ℤ) = (n.log2 - d.log2 - 1) + (d.log2 + 1) := by ring
    rw [lt_div_iff₀ hd']
    calc (2 : ℚ) ^ ((n.log2 : ℤ) - d.log2 - 1) * d
        < 2 ^ ((n.log2 : ℤ) - d.log2 - 1) * 2 ^ ((d.log2 : ℤ) + 1) :=
          mul_lt_mul_of_pos_left (lt_two_zpow_log2 d) (two_zpow_pos _)
      _ = 2 ^ (n.log2 : ℤ) := by rw [← two_zpow_add, ← hsum]
      _ ≤ n := two_zpow_log2_le hn
  have hhigh : (n : ℚ) / d < 2 ^ ((n.log2 : ℤ) - d.log2 + 1) := by
    have hsum : (n.log2 : ℤ) + 1 = (n.log2 - d.log2 + 1) + d.log2 := by ring
    rw [div_lt_iff₀ hd']
    calc (n : ℚ) < 2 ^ ((n.log2 : ℤ) + 1) := lt_two_zpow_log2 n
      _ = 2 ^ ((n.log2 : ℤ) - d.log2 + 1) * 2 ^ (d.log2 : ℤ) := by rw [hsum, two_zpow_add]
      _ ≤ 2 ^ ((n.log2 : ℤ) - d.log2 + 1) * d :=
          mul_le_mul_of_nonneg_left (two_zpow_log2_le hd) (two_zpow_pos _).le
  have hguess : d * 2 ^ ((n.log2 : ℤ) - d.log2).toNat ≤ n * 2 ^ (-((n.log2 : ℤ) - d.log2)).toNat ↔
      (2 : ℚ) ^ ((n.log2 : ℤ) - d.log2) ≤ n / d := by
    rw [zpow_eq_div (by norm_num), div_le_div_iff₀ (by positivity) hd', mul_comm (2 ^ _) (d : ℚ)]
    exact_mod_cast Iff.rfl
  simp only [floorLog2]
  split
  · rename_i hle
    exact (log_eq (hguess.mp hle) hhigh).symm
  · rename_i hgt
    refine (log_eq hlow.le ?_).symm
    rw [Int.sub_add_cancel]
    exact not_le.mp fun hle => hgt (hguess.mpr hle)

end Logarithms

section Codes

variable (f : BinaryFormat)

/-- The magnitude that a code stands for. -/
def magnitude (code : Nat) : ℚ :=
  (f.decode code).1 * 2 ^ (f.decode code).2

/-- The code of a whole number of units, where the unit is a power of two. -/
def codeOf (q : ℤ) (m : Nat) : Nat :=
  (q - f.minExponent).toNat * 2 ^ f.fractionBits + m

/-- The exponent of the unit that a number is rounded to. -/
def unitExponent (v : ℚ) : ℤ :=
  max f.minExponent (Int.log 2 v - f.fractionBits)

/-- The code of the magnitude nearest to a positive number, with no bound. -/
def rounded (v : ℚ) : Nat :=
  codeOf f (unitExponent f v) (nearestNat (v / 2 ^ unitExponent f v))

/-- The code of the magnitude nearest to a number. -/
def nearest (v : ℚ) : Nat :=
  if v = 0 then 0 else min f.infinityCode (rounded f v)

/-- A whole number of units is written with all of the digits of a format, or its unit is the
least one. -/
structure Placed (q : ℤ) (m : Nat) : Prop where
  least : f.minExponent ≤ q
  full : q = f.minExponent ∨ 2 ^ f.fractionBits ≤ m
  bound : m ≤ 2 ^ (f.fractionBits + 1)

variable {f} {q : ℤ} {m code : Nat} {v : ℚ}

theorem quotient_eq (code : Nat) :
    ((f.quotient code).1 : ℚ) / (f.quotient code).2 = magnitude f code := by
  simp only [BinaryFormat.quotient, magnitude]
  rw [zpow_eq_div (by norm_num : (2 : ℚ) ≠ 0)]
  push_cast
  ring

theorem roundQuotient_eq (n : Nat) {d : Nat} (hd : 0 < d) :
    f.roundQuotient n d = nearest f ((n : ℚ) / d) := by
  have hd' : (d : ℚ) ≠ 0 := by positivity
  rcases Nat.eq_zero_or_pos n with rfl | hn
  · simp [BinaryFormat.roundQuotient, nearest]
  · have hn' : (n : ℚ) ≠ 0 := by positivity
    have hratio : (n : ℚ) / d ≠ 0 := by positivity
    have hunit : max f.minExponent (floorLog2 n d - f.fractionBits) =
        unitExponent f ((n : ℚ) / d) := by
      rw [floorLog2_eq hn hd, unitExponent]
    simp only [BinaryFormat.roundQuotient, nearest, if_neg hn.ne', if_neg hratio, hunit, rounded,
      codeOf]
    rw [roundDiv_eq _ (by positivity), zpow_eq_div (by norm_num : (2 : ℚ) ≠ 0), div_div_div_eq]
    push_cast
    rfl

theorem exists_codeOf (f : BinaryFormat) (code : Nat) :
    ∃ q m, Placed f q m ∧ m < 2 ^ (f.fractionBits + 1) ∧ code = codeOf f q m ∧
      f.decode code = (m, q) := by
  have hsplit := Nat.div_add_mod code (2 ^ f.fractionBits)
  have hrest := Nat.mod_lt code (Nat.two_pow_pos f.fractionBits)
  have hdouble : 2 ^ (f.fractionBits + 1) = 2 * 2 ^ f.fractionBits := by rw [pow_succ, mul_comm]
  by_cases hshift : code / 2 ^ f.fractionBits = 0
  · rw [hshift, Nat.mul_zero, Nat.zero_add] at hsplit
    refine ⟨f.minExponent, code, ⟨le_rfl, .inl rfl, by omega⟩, by omega, by simp [codeOf], ?_⟩
    simp only [BinaryFormat.decode, if_pos hshift]
  · refine ⟨f.minExponent + (code / 2 ^ f.fractionBits - 1 : Nat),
      2 ^ f.fractionBits + code % 2 ^ f.fractionBits,
      ⟨by omega, .inr (by omega), by omega⟩, by omega, ?_, ?_⟩
    · rw [codeOf, add_sub_cancel_left, Int.toNat_natCast, ← Nat.add_assoc, ← Nat.succ_mul,
        Nat.succ_eq_add_one, Nat.sub_add_cancel (Nat.pos_of_ne_zero hshift), mul_comm]
      exact hsplit.symm
    · simp only [BinaryFormat.decode, if_neg hshift]

theorem codeOf_next (hq : f.minExponent ≤ q) :
    codeOf f q (2 ^ (f.fractionBits + 1)) = codeOf f (q + 1) (2 ^ f.fractionBits) := by
  have hstep : (q + 1 - f.minExponent).toNat = (q - f.minExponent).toNat + 1 := by omega
  rw [codeOf, codeOf, hstep, pow_succ]
  ring

theorem decode_codeOf (hplaced : Placed f q m) (hm : m < 2 ^ (f.fractionBits + 1)) :
    f.decode (codeOf f q m) = (m, q) := by
  have hpos := Nat.two_pow_pos f.fractionBits
  have hdouble : 2 ^ (f.fractionBits + 1) = 2 * 2 ^ f.fractionBits := by rw [pow_succ, mul_comm]
  have hleast := hplaced.least
  by_cases hsmall : m < 2 ^ f.fractionBits
  · obtain rfl : q = f.minExponent := hplaced.full.resolve_right (by omega)
    have hshift : m / 2 ^ f.fractionBits = 0 := Nat.div_eq_of_lt hsmall
    simp [codeOf, BinaryFormat.decode, hshift]
  · obtain ⟨r, rfl⟩ := Nat.exists_eq_add_of_le (Nat.le_of_not_lt hsmall)
    have hr : r < 2 ^ f.fractionBits := by omega
    have hcode : codeOf f q (2 ^ f.fractionBits + r) =
        2 ^ f.fractionBits * ((q - f.minExponent).toNat + 1) + r := by
      rw [codeOf]
      ring
    have hshift : codeOf f q (2 ^ f.fractionBits + r) / 2 ^ f.fractionBits =
        (q - f.minExponent).toNat + 1 := by
      rw [hcode, Nat.mul_add_div hpos, Nat.div_eq_of_lt hr, Nat.add_zero]
    have hrest : codeOf f q (2 ^ f.fractionBits + r) % 2 ^ f.fractionBits = r := by
      rw [hcode, Nat.mul_add_mod, Nat.mod_eq_of_lt hr]
    simp only [BinaryFormat.decode, hshift, hrest, Nat.succ_ne_zero, if_false, Prod.mk.injEq,
      true_and]
    omega

theorem magnitude_codeOf (hplaced : Placed f q m) : magnitude f (codeOf f q m) = m * 2 ^ q := by
  rcases hplaced.bound.lt_or_eq with hm | rfl
  · rw [magnitude, decode_codeOf hplaced hm]
  · have hnext : Placed f (q + 1) (2 ^ f.fractionBits) :=
      ⟨by have := hplaced.least; omega, .inr le_rfl, Nat.pow_le_pow_right (by decide) (by omega)⟩
    rw [codeOf_next hplaced.least, magnitude, decode_codeOf hnext
      (Nat.pow_lt_pow_right (by decide) (by omega)), two_zpow_succ]
    push_cast
    ring

theorem magnitude_succ (code : Nat) :
    magnitude f (code + 1) = magnitude f code + 2 ^ (f.decode code).2 := by
  obtain ⟨q, m, hplaced, hm, rfl, hdecode⟩ := exists_codeOf f code
  have hnext : Placed f q (m + 1) :=
    ⟨hplaced.least, hplaced.full.imp_right fun hfull => by omega, hm⟩
  have hcode : codeOf f q m + 1 = codeOf f q (m + 1) := rfl
  rw [hcode, magnitude_codeOf hnext, magnitude_codeOf hplaced, hdecode]
  push_cast
  ring

theorem strictMono_magnitude : StrictMono (magnitude f) :=
  strictMono_nat_of_lt_succ fun code => by
    rw [magnitude_succ]
    exact lt_add_of_pos_right _ (two_zpow_pos _)

theorem magnitude_zero : magnitude f 0 = 0 := by
  simp [magnitude, BinaryFormat.decode]

theorem magnitude_nonneg (f : BinaryFormat) (code : Nat) : 0 ≤ magnitude f code := by
  rw [← magnitude_zero (f := f)]
  exact strictMono_magnitude.monotone (Nat.zero_le code)

theorem magnitude_pos_iff : 0 < magnitude f code ↔ 0 < code := by
  rw [← magnitude_zero (f := f), strictMono_magnitude.lt_iff_lt]

theorem magnitude_pos (hcode : 0 < code) : 0 < magnitude f code :=
  magnitude_pos_iff.mpr hcode

theorem unitExponent_full (f : BinaryFormat) (hv : 0 < v) :
    unitExponent f v = f.minExponent ∨
      ((2 ^ f.fractionBits : Nat) : ℚ) * 2 ^ unitExponent f v ≤ v := by
  rcases max_choice f.minExponent (Int.log 2 v - f.fractionBits) with hleast | hfull
  · exact .inl hleast
  · have hsum : Int.log 2 v = f.fractionBits + unitExponent f v := by
      rw [unitExponent, hfull]
      ring
    refine .inr ?_
    calc ((2 ^ f.fractionBits : Nat) : ℚ) * 2 ^ unitExponent f v
        = 2 ^ Int.log 2 v := by rw [hsum, two_zpow_add, zpow_natCast, Nat.cast_pow, Nat.cast_two]
      _ ≤ v := two_zpow_log_le hv

theorem lt_unitExponent (f : BinaryFormat) (v : ℚ) :
    v < ((2 ^ (f.fractionBits + 1) : Nat) : ℚ) * 2 ^ unitExponent f v := by
  have hle : Int.log 2 v + 1 ≤ ((f.fractionBits + 1 : Nat) : ℤ) + unitExponent f v := by
    have hmax := le_max_right f.minExponent (Int.log 2 v - f.fractionBits)
    rw [← unitExponent] at hmax
    push_cast
    omega
  calc v < 2 ^ (Int.log 2 v + 1) := lt_two_zpow_log v
    _ ≤ 2 ^ (((f.fractionBits + 1 : Nat) : ℤ) + unitExponent f v) :=
        zpow_le_zpow_right₀ (by norm_num) hle
    _ = ((2 ^ (f.fractionBits + 1) : Nat) : ℚ) * 2 ^ unitExponent f v := by
        rw [two_zpow_add, zpow_natCast, Nat.cast_pow, Nat.cast_two]

theorem placed_nearestNat (hv : 0 < v) :
    Placed f (unitExponent f v) (nearestNat (v / 2 ^ unitExponent f v)) := by
  have hunit := two_zpow_pos (unitExponent f v)
  refine ⟨le_max_left _ _, (unitExponent_full f hv).imp_right fun hfull => le_nearestNat ?_,
    nearestNat_le (by positivity) ?_⟩
  · rwa [le_div_iff₀ hunit]
  · rw [div_le_iff₀ hunit]
    exact (lt_unitExponent f v).le

theorem abs_units_sub_le (hv : 0 ≤ v) (q : ℤ) :
    |(nearestNat (v / 2 ^ q) : ℚ) * 2 ^ q - v| ≤ 2 ^ q / 2 := by
  have hunit := two_zpow_pos q
  have hnear := abs_nearestNat_sub_le (v := v / 2 ^ q) (by positivity)
  have hv' : v / 2 ^ q * 2 ^ q = v := div_mul_cancel₀ v hunit.ne'
  rw [abs_le] at hnear ⊢
  constructor <;> nlinarith

theorem abs_magnitude_rounded_sub_le (hv : 0 < v) :
    |magnitude f (rounded f v) - v| ≤ 2 ^ unitExponent f v / 2 := by
  rw [rounded, magnitude_codeOf (placed_nearestNat hv)]
  exact abs_units_sub_le hv.le _

theorem le_rounded (hv : 0 < v) (hcode : magnitude f code ≤ v) : code ≤ rounded f v := by
  rw [rounded]
  refine Nat.le_of_not_lt fun hlt => ?_
  have hplaced := placed_nearestNat (f := f) hv
  have hnear := (abs_le.mp (abs_units_sub_le hv.le (unitExponent f v))).1
  have hnext : magnitude f (codeOf f _ _ + 1) ≤ magnitude f code :=
    strictMono_magnitude.monotone hlt
  rw [magnitude_succ, magnitude_codeOf hplaced] at hnext
  have hunit : (2 : ℚ) ^ unitExponent f v ≤ 2 ^ (f.decode (codeOf f (unitExponent f v)
      (nearestNat (v / 2 ^ unitExponent f v)))).2 := by
    refine zpow_le_zpow_right₀ (by norm_num) ?_
    rcases hplaced.bound.lt_or_eq with hm | hm
    · rw [decode_codeOf hplaced hm]
    · rw [hm, codeOf_next hplaced.least, decode_codeOf]
      · exact Int.le_add_one le_rfl
      · exact ⟨Int.le_add_one hplaced.least, .inr le_rfl,
          Nat.pow_le_pow_right (by decide) (Nat.le_succ _)⟩
      · exact Nat.pow_lt_pow_right (by decide) (Nat.lt_succ_self _)
  have hpos := two_zpow_pos (unitExponent f v)
  linarith

theorem rounded_le (hv : 0 < v) (hcode : v ≤ magnitude f code) : rounded f v ≤ code := by
  rw [rounded]
  refine Nat.le_of_not_lt fun hlt => ?_
  have hplaced := placed_nearestNat (f := f) hv
  have hnear := (abs_le.mp (abs_units_sub_le hv.le (unitExponent f v))).2
  have hunit := two_zpow_pos (unitExponent f v)
  rcases Nat.eq_zero_or_pos (nearestNat (v / 2 ^ unitExponent f v)) with hzero | hpos
  · have hleast := hplaced.full.resolve_right (by
      rw [hzero]
      exact Nat.not_le.mpr (Nat.two_pow_pos _))
    rw [hzero] at hlt
    simp [codeOf, hleast] at hlt
  obtain ⟨m, hm⟩ := Nat.exists_eq_add_of_le' hpos
  rw [hm] at hplaced hlt hnear
  push_cast at hnear
  by_cases hprevious : unitExponent f v = f.minExponent ∨ 2 ^ f.fractionBits ≤ m
  · have hprevious' : Placed f (unitExponent f v) m :=
      ⟨hplaced.least, hprevious, Nat.le_of_succ_le hplaced.bound⟩
    have hle : magnitude f code ≤ magnitude f (codeOf f (unitExponent f v) m) :=
      strictMono_magnitude.monotone (Nat.le_of_lt_succ hlt)
    rw [magnitude_codeOf hprevious'] at hle
    linarith
  -- The previous magnitude has half of the unit, but no number with this unit is below all of it.
  · obtain ⟨hleast, hless⟩ := not_or.mp hprevious
    have hfull := (unitExponent_full f hv).resolve_left hleast
    have hmin : m + 1 = 2 ^ f.fractionBits :=
      Nat.le_antisymm (Nat.not_le.mp hless) (hplaced.full.resolve_left hleast)
    have hmagnitude := strictMono_magnitude (f := f) hlt
    rw [magnitude_codeOf hplaced, hmin] at hmagnitude
    linarith

theorem nearest_zero : nearest f 0 = 0 :=
  if_pos rfl

theorem nearest_of_pos (hv : 0 < v) : nearest f v = min f.infinityCode (rounded f v) := by
  rw [nearest, if_neg hv.ne']

theorem nearest_le_infinityCode (v : ℚ) : nearest f v ≤ f.infinityCode := by
  rw [nearest]
  split
  · exact Nat.zero_le _
  · exact min_le_left _ _

theorem le_nearest (hcode : code ≤ f.infinityCode) (hv : magnitude f code ≤ v) :
    code ≤ nearest f v := by
  rcases Nat.eq_zero_or_pos code with rfl | hpos
  · exact Nat.zero_le _
  have hv' : 0 < v := lt_of_lt_of_le (magnitude_pos hpos) hv
  rw [nearest_of_pos hv']
  exact le_min hcode (le_rounded hv' hv)

theorem nearest_le (hv : 0 ≤ v) (hcode : v ≤ magnitude f code) : nearest f v ≤ code := by
  rcases hv.eq_or_lt with rfl | hv'
  · rw [nearest_zero]
    exact Nat.zero_le _
  · rw [nearest_of_pos hv']
    exact le_trans (min_le_right _ _) (rounded_le hv' hcode)

theorem nearest_magnitude (hcode : code ≤ f.infinityCode) :
    nearest f (magnitude f code) = code :=
  Nat.le_antisymm (nearest_le (magnitude_nonneg f code) le_rfl) (le_nearest hcode le_rfl)

theorem abs_magnitude_nearest_sub_le (hv : 0 < v) (hfinite : nearest f v < f.infinityCode) :
    |magnitude f (nearest f v) - v| ≤ 2 ^ unitExponent f v / 2 := by
  rw [nearest_of_pos hv] at hfinite ⊢
  rw [min_eq_right (by omega)]
  exact abs_magnitude_rounded_sub_le hv

theorem unitExponent_le (hv : 0 < v) (hleast : f.minExponent ≤ q)
    (hbound : v < ((2 ^ (f.fractionBits + 1) : Nat) : ℚ) * 2 ^ q) : unitExponent f v ≤ q := by
  refine max_le hleast ?_
  have hlog : Int.log 2 v < (f.fractionBits + 1 : Nat) + q := by
    refine (Int.lt_zpow_iff_log_lt (b := 2) (by decide) hv).mp ?_
    rw [Nat.cast_two, two_zpow_add, zpow_natCast]
    exact_mod_cast hbound
  push_cast at hlog
  omega

theorem magnitude_rounded_units (hm : 0 < m) (hbound : m < 2 ^ (f.fractionBits + 1))
    (hleast : f.minExponent ≤ q) : magnitude f (rounded f (m * 2 ^ q)) = m * 2 ^ q := by
  have hunit := two_zpow_pos q
  have hm' : (0 : ℚ) < m := by exact_mod_cast hm
  have hv : (0 : ℚ) < m * 2 ^ q := by positivity
  have hle : unitExponent f (m * 2 ^ q) ≤ q :=
    unitExponent_le hv hleast (mul_lt_mul_of_pos_right (by exact_mod_cast hbound) hunit)
  have hunit' := two_zpow_pos (unitExponent f (m * 2 ^ q))
  have hwhole : (m : ℚ) * 2 ^ q / 2 ^ unitExponent f (m * 2 ^ q) =
      ((m * 2 ^ (q - unitExponent f (m * 2 ^ q)).toNat : Nat) : ℚ) := by
    have hsplit : (2 : ℚ) ^ q = 2 ^ (q - unitExponent f (m * 2 ^ q)).toNat *
        2 ^ unitExponent f (m * 2 ^ q) := by
      rw [← zpow_natCast, ← two_zpow_add]
      congr 1
      omega
    rw [div_eq_iff hunit'.ne']
    push_cast
    rw [mul_assoc, ← hsplit]
  have hplaced := placed_nearestNat (f := f) hv
  rw [rounded, magnitude_codeOf hplaced, hwhole, nearestNat_natCast, ← hwhole,
    div_mul_cancel₀ _ hunit'.ne']

theorem nearest_units (hm : 0 < m) (hbound : m < 2 ^ (f.fractionBits + 1))
    (hleast : f.minExponent ≤ q) (hfinite : (m : ℚ) * 2 ^ q < magnitude f f.infinityCode) :
    magnitude f (nearest f (m * 2 ^ q)) = m * 2 ^ q ∧ nearest f (m * 2 ^ q) < f.infinityCode := by
  have hm' : (0 : ℚ) < m := by exact_mod_cast hm
  have hv : (0 : ℚ) < m * 2 ^ q := mul_pos hm' (two_zpow_pos q)
  have hexact := magnitude_rounded_units hm hbound hleast
  have hlt : rounded f (m * 2 ^ q) < f.infinityCode := by
    rw [← strictMono_magnitude.lt_iff_lt, hexact]
    exact hfinite
  rw [nearest_of_pos hv, min_eq_right hlt.le]
  exact ⟨hexact, hlt⟩

theorem abs_magnitude_nearest_sub_le_mul (hnormal : 2 ^ (f.minExponent + f.fractionBits) ≤ v)
    (hfinite : nearest f v < f.infinityCode) :
    |magnitude f (nearest f v) - v| ≤ v / 2 ^ (f.fractionBits + 1) := by
  have hv : 0 < v := (two_zpow_pos _).trans_le hnormal
  have hlog : f.minExponent + f.fractionBits ≤ Int.log 2 v :=
    (Int.zpow_le_iff_le_log (b := 2) (by decide) hv).mp hnormal
  have hunit : unitExponent f v = Int.log 2 v - f.fractionBits := max_eq_right (by omega)
  refine (abs_magnitude_nearest_sub_le hv hfinite).trans ?_
  rw [hunit, zpow_sub₀ (by norm_num), zpow_natCast, pow_succ, div_div]
  exact div_le_div_of_nonneg_right (two_zpow_log_le hv) (by positivity)

theorem exists_units (f : BinaryFormat) (code : Nat) :
    ∃ q : ℤ, ∃ m : Nat, f.minExponent ≤ q ∧ m + 1 ≤ 2 ^ (f.fractionBits + 1) ∧
      magnitude f code = m * 2 ^ q ∧ magnitude f (code + 1) = (m + 1) * 2 ^ q := by
  obtain ⟨q, m, hplaced, hm, -, hdecode⟩ := exists_codeOf f code
  have hcode : magnitude f code = m * 2 ^ q := by rw [magnitude, hdecode]
  refine ⟨q, m, hplaced.least, hm, hcode, ?_⟩
  rw [magnitude_succ, hcode, hdecode]
  ring

section Middles

variable {d : ℚ}

/-- The middle between a magnitude and the next one. -/
def middle (f : BinaryFormat) (code : Nat) : ℚ :=
  (magnitude f code + magnitude f (code + 1)) / 2

theorem exists_middle (f : BinaryFormat) (code : Nat) :
    ∃ q : ℤ, ∃ m : Nat, f.minExponent ≤ q ∧ m + 1 ≤ 2 ^ (f.fractionBits + 1) ∧
      middle f code = (2 * m + 1 : Nat) * 2 ^ (q - 1) := by
  obtain ⟨q, m, hleast, hm, hcode, hnext⟩ := exists_units f code
  refine ⟨q, m, hleast, hm, ?_⟩
  rw [middle, hcode, hnext, zpow_sub_one₀ (by norm_num)]
  push_cast
  ring

theorem rounded_le_of_lt (hd : 0 < d) (hclose : d < middle f code) : rounded f d ≤ code := by
  obtain ⟨q, m, hleast, hm, hcode, hnext⟩ := exists_units f code
  have hunit := two_zpow_pos q
  rw [middle, hcode, hnext] at hclose
  refine Nat.le_of_not_lt fun hgt => ?_
  have hle : rounded f d ≤ code + 1 := rounded_le hd (by linarith)
  have hrounded : rounded f d = code + 1 := Nat.le_antisymm hle hgt
  have hm' : (m : ℚ) + 1 ≤ ((2 ^ (f.fractionBits + 1) : Nat) : ℚ) := by exact_mod_cast hm
  have hexponent : unitExponent f d ≤ q := unitExponent_le hd hleast (by nlinarith)
  have hunits : (2 : ℚ) ^ unitExponent f d ≤ 2 ^ q := zpow_le_zpow_right₀ (by norm_num) hexponent
  have hnear := (abs_le.mp (abs_magnitude_rounded_sub_le (f := f) hd)).2
  rw [hrounded] at hnear
  linarith

theorem lt_rounded_of_lt (hd : 0 < d) (hclose : middle f code < d) : code < rounded f d := by
  obtain ⟨q, m, hleast, hm, hcode, hnext⟩ := exists_units f code
  have hunit := two_zpow_pos q
  rw [middle, hcode, hnext] at hclose
  rcases le_or_gt (magnitude f (code + 1)) d with hbeyond | hbefore
  · exact le_rounded hd hbeyond
  refine lt_of_le_of_ne (le_rounded hd (by linarith)) fun hrounded => ?_
  have hm' : (m : ℚ) + 1 ≤ ((2 ^ (f.fractionBits + 1) : Nat) : ℚ) := by exact_mod_cast hm
  have hexponent : unitExponent f d ≤ q := unitExponent_le hd hleast (by nlinarith)
  have hunits : (2 : ℚ) ^ unitExponent f d ≤ 2 ^ q := zpow_le_zpow_right₀ (by norm_num) hexponent
  have hnear := (abs_le.mp (abs_magnitude_rounded_sub_le (f := f) hd)).1
  rw [← hrounded] at hnear
  linarith

theorem nearest_of_between (hd : 0 < d) (hcode : code + 1 ≤ f.infinityCode)
    (hlow : middle f code < d) (hhigh : d < middle f (code + 1)) : nearest f d = code + 1 := by
  have hrounded : rounded f d = code + 1 :=
    Nat.le_antisymm (rounded_le_of_lt hd hhigh) (lt_rounded_of_lt hd hlow)
  rw [nearest_of_pos hd, hrounded, min_eq_right hcode]

/-- A number lies between the middles before and after the magnitude nearest to it. -/
theorem between_of_nearest (hd : 0 < d) (hfinite : code + 1 < f.infinityCode)
    (hnearest : nearest f d = code + 1) : middle f code ≤ d ∧ d ≤ middle f (code + 1) := by
  rw [nearest_of_pos hd] at hnearest
  constructor
  · by_contra! hlt
    have hle := rounded_le_of_lt hd hlt
    omega
  · by_contra! hgt
    have hlt := lt_rounded_of_lt hd hgt
    omega

/-- A number whose distance from a magnitude is small beside that magnitude is rounded to it. -/
theorem nearest_of_close (hpos : 0 < code) (hcode : code ≤ f.infinityCode)
    (hclose : |d - magnitude f code| < magnitude f code / 2 ^ (f.fractionBits + 2)) :
    nearest f d = code := by
  obtain ⟨previous, rfl⟩ := Nat.exists_eq_add_of_le' hpos
  obtain ⟨q, m, -, hm, hmagnitude, hnext⟩ := exists_units f (previous + 1)
  obtain ⟨q', m', -, hm', hprevious, hmagnitude'⟩ := exists_units f previous
  have hunit := two_zpow_pos q
  have hunit' := two_zpow_pos q'
  have hbits : (2 : ℚ) ^ (f.fractionBits + 2) = ((2 ^ (f.fractionBits + 1) : Nat) : ℚ) * 2 := by
    push_cast
    ring
  have hbound : ((2 ^ (f.fractionBits + 1) : Nat) : ℚ) > 0 := by positivity
  have hm1 : (m : ℚ) + 1 ≤ ((2 ^ (f.fractionBits + 1) : Nat) : ℚ) := by exact_mod_cast hm
  have hm2 : (m' : ℚ) + 1 ≤ ((2 ^ (f.fractionBits + 1) : Nat) : ℚ) := by exact_mod_cast hm'
  rw [hbits] at hclose
  have hup : magnitude f (previous + 1) / (((2 ^ (f.fractionBits + 1) : Nat) : ℚ) * 2) ≤
      2 ^ q / 2 := by
    rw [hmagnitude, div_le_div_iff₀ (by positivity) (by norm_num)]
    nlinarith
  have hdown : magnitude f (previous + 1) / (((2 ^ (f.fractionBits + 1) : Nat) : ℚ) * 2) ≤
      2 ^ q' / 2 := by
    rw [hmagnitude', div_le_div_iff₀ (by positivity) (by norm_num)]
    nlinarith
  obtain ⟨hlow, hhigh⟩ := abs_lt.mp hclose
  refine nearest_of_between (by nlinarith) hcode ?_ ?_
  · rw [middle]
    linarith
  · rw [middle]
    linarith

end Middles

end Codes

end MappedMetrics.Proofs.BinaryRounding
