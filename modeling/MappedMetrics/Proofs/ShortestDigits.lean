import MappedMetrics.Decimal.Shortest
import MappedMetrics.Proofs.BinaryRounding

namespace MappedMetrics.Proofs.ShortestDigits

open MappedMetrics.Decimal
open MappedMetrics.Proofs.BinaryRounding

section Logarithms

theorem ten_zpow_pos (k : ℤ) : (0 : ℚ) < 10 ^ k :=
  zpow_pos (by norm_num) k

theorem ten_zpow_add (j k : ℤ) : (10 : ℚ) ^ (j + k) = 10 ^ j * 10 ^ k :=
  zpow_add₀ (by norm_num) j k

theorem ten_pow_le_two_pow {n m : Nat} (hle : 196 * n ≤ 59 * m) : 10 ^ n ≤ 2 ^ m := by
  refine le_of_pow_le_pow_left₀ (n := 59) (by decide) (Nat.zero_le _) ?_
  calc (10 ^ n) ^ 59 = (10 ^ 59) ^ n := by rw [← pow_mul, ← pow_mul, mul_comm]
    _ ≤ (2 ^ 196) ^ n := Nat.pow_le_pow_left (by decide) n
    _ = 2 ^ (196 * n) := (pow_mul ..).symm
    _ ≤ 2 ^ (59 * m) := Nat.pow_le_pow_right (by decide) hle
    _ = (2 ^ m) ^ 59 := by rw [← pow_mul, mul_comm]

theorem two_pow_le_ten_pow {n m : Nat} (hle : 28 * m ≤ 93 * n) : 2 ^ m ≤ 10 ^ n := by
  refine le_of_pow_le_pow_left₀ (n := 93) (by decide) (Nat.zero_le _) ?_
  calc (2 ^ m) ^ 93 = (2 ^ 93) ^ m := by rw [← pow_mul, ← pow_mul, mul_comm]
    _ ≤ (10 ^ 28) ^ m := Nat.pow_le_pow_left (by decide) m
    _ = 10 ^ (28 * m) := (pow_mul ..).symm
    _ ≤ 10 ^ (93 * n) := Nat.pow_le_pow_right (by decide) hle
    _ = (10 ^ n) ^ 93 := by rw [← pow_mul, mul_comm]

variable {n m : ℤ}

theorem ten_zpow_le_two_zpow (hpos : 196 * n ≤ 59 * m) (hneg : 93 * n ≤ 28 * m) :
    (10 : ℚ) ^ n ≤ 2 ^ m := by
  have hup : 10 ^ n.toNat ≤ 2 ^ m.toNat := ten_pow_le_two_pow (by omega)
  have hdown : 2 ^ (-m).toNat ≤ 10 ^ (-n).toNat := two_pow_le_ten_pow (by omega)
  rw [zpow_eq_div (by norm_num), zpow_eq_div (by norm_num : (2 : ℚ) ≠ 0),
    div_le_div_iff₀ (by positivity) (by positivity)]
  exact_mod_cast Nat.mul_le_mul hup hdown

theorem two_zpow_le_ten_zpow (hpos : 28 * m ≤ 93 * n) (hneg : 59 * m ≤ 196 * n) :
    (2 : ℚ) ^ m ≤ 10 ^ n := by
  have hup : 2 ^ m.toNat ≤ 10 ^ n.toNat := two_pow_le_ten_pow (by omega)
  have hdown : 10 ^ (-n).toNat ≤ 2 ^ (-m).toNat := ten_pow_le_two_pow (by omega)
  rw [zpow_eq_div (by norm_num), zpow_eq_div (by norm_num : (10 : ℚ) ≠ 0),
    div_le_div_iff₀ (by positivity) (by positivity)]
  exact_mod_cast Nat.mul_le_mul hup hdown

theorem guess_bounds {k : ℤ} (hlow : -1074 ≤ k) (hhigh : k ≤ 1023) :
    (2 : ℚ) ^ (k + 1) ≤ 10 ^ (k * 30103 / 100000 + 2) ∧
      (10 : ℚ) ^ (k * 30103 / 100000 - 1) ≤ 2 ^ k :=
  ⟨two_zpow_le_ten_zpow (by omega) (by omega), ten_zpow_le_two_zpow (by omega) (by omega)⟩

variable {a b : Nat} {v : ℚ}

theorem floorLog10From_spec (hb : 0 < b) (fuel : Nat) (k : ℤ)
    (hhigh : (a : ℚ) / b < 10 ^ (k + 1)) (hlow : (10 : ℚ) ^ (k + 1 - fuel) ≤ a / b) :
    (10 : ℚ) ^ floorLog10From a b fuel k ≤ a / b ∧
      (a : ℚ) / b < 10 ^ (floorLog10From a b fuel k + 1) := by
  have hb' : (0 : ℚ) < b := by exact_mod_cast hb
  induction fuel generalizing k with
  | zero =>
      rw [Nat.cast_zero, sub_zero] at hlow
      exact absurd hhigh hlow.not_gt
  | succ fuel ih =>
      have hguess : b * 10 ^ k.toNat ≤ a * 10 ^ (-k).toNat ↔ (10 : ℚ) ^ k ≤ a / b := by
        rw [zpow_eq_div (by norm_num), div_le_div_iff₀ (by positivity) hb',
          mul_comm (10 ^ _) (b : ℚ)]
        exact_mod_cast Iff.rfl
      rw [floorLog10From]
      split
      · rename_i hle
        exact ⟨hguess.mp hle, hhigh⟩
      · rename_i hgt
        refine ih (k - 1) ?_ ?_
        · rw [Int.sub_add_cancel]
          exact not_le.mp fun hle => hgt (hguess.mpr hle)
        · rw [Int.sub_add_cancel]
          convert hlow using 2
          push_cast
          ring

theorem floorLog10_spec (ha : 0 < a) (hb : 0 < b) (hlow : (2 : ℚ) ^ (-1074 : ℤ) ≤ a / b)
    (hhigh : (a : ℚ) / b < 2 ^ (1024 : ℤ)) :
    (10 : ℚ) ^ floorLog10 a b ≤ a / b ∧ (a : ℚ) / b < 10 ^ (floorLog10 a b + 1) := by
  have ha' : (0 : ℚ) < a := by exact_mod_cast ha
  have hb' : (0 : ℚ) < b := by exact_mod_cast hb
  have hv : (0 : ℚ) < a / b := by positivity
  have hleast : -1074 ≤ Int.log 2 ((a : ℚ) / b) :=
    (Int.zpow_le_iff_le_log (b := 2) (by decide) hv).mp hlow
  have hmost : Int.log 2 ((a : ℚ) / b) < 1024 :=
    (Int.lt_zpow_iff_log_lt (b := 2) (by decide) hv).mp hhigh
  obtain ⟨hup, hdown⟩ := guess_bounds hleast (by omega)
  rw [floorLog10, floorLog2_eq ha hb]
  refine floorLog10From_spec hb 3 _ ?_ ?_
  · refine lt_of_lt_of_le (lt_two_zpow_log _) (hup.trans_eq ?_)
    rw [add_assoc]
    rfl
  · refine le_trans (le_of_eq ?_) (hdown.trans (two_zpow_log_le hv))
    congr 1
    push_cast
    ring

end Logarithms

section Grids

variable {f : BinaryFormat} {tie : Tie} {code digits : Nat} {e : ℤ}

theorem ratio_eq (digits : Nat) (e : ℤ) :
    ((digits * 10 ^ e.toNat : Nat) : ℚ) / (10 ^ (-e).toNat : Nat) = digits * 10 ^ e := by
  rw [zpow_eq_div (by norm_num : (10 : ℚ) ≠ 0)]
  push_cast
  ring

theorem ofDecimal_eq (hhigh : digits.log2 / 4 + e ≤ 400) (hlow : -400 ≤ digits.log2 / 3 + e) :
    f.ofDecimal digits e = nearest f (digits * 10 ^ e) := by
  rcases Nat.eq_zero_or_pos digits with rfl | hpos
  · rw [BinaryFormat.ofDecimal, if_pos rfl, Nat.cast_zero, zero_mul, nearest_zero]
  · rw [BinaryFormat.ofDecimal, if_neg hpos.ne', if_neg (by omega), if_neg (by omega),
      roundQuotient_eq _ (by positivity), ratio_eq]

theorem nearest_of_ofDecimal (hpos : 0 < code) (hfinite : code < f.infinityCode)
    (hread : f.ofDecimal digits e = code) : nearest f (digits * 10 ^ e) = code := by
  rw [BinaryFormat.ofDecimal] at hread
  split at hread
  · omega
  · split at hread
    · omega
    · split at hread
      · omega
      · rwa [roundQuotient_eq _ (by positivity), ratio_eq] at hread

/-- The neighbours of a quotient among the whole numbers, the nearer one first. -/
def neighbours (tie : Tie) (numerator denominator : Nat) : Nat × Nat :=
  let low := numerator / denominator
  let rest := numerator % denominator
  let high := if rest = 0 then low else low + 1
  if denominator < 2 * rest || (denominator == 2 * rest && (tie == .up || low % 2 == 1)) then
    (high, low)
  else (low, high)

theorem neighbours_spec (tie : Tie) (a : Nat) {b : Nat} (hb : 0 < b) :
    |((neighbours tie a b).1 : ℚ) - a / b| ≤ 1 / 2 ∧ ((neighbours tie a b).1 : ℚ) ≤ a / b + 1 ∧
      ((neighbours tie a b).2 : ℚ) ≤ a / b + 1 := by
  have hb' : (0 : ℚ) < b := by exact_mod_cast hb
  have hrest : (0 : ℚ) ≤ ((a % b : Nat) : ℚ) / b := by positivity
  have hsplit : (a : ℚ) / b = (a / b : Nat) + ((a % b : Nat) : ℚ) / b := by
    rw [div_eq_iff hb'.ne', add_mul, div_mul_cancel₀ _ hb'.ne']
    exact_mod_cast (Nat.div_add_mod' a b).symm
  simp only [neighbours]
  split
  · rename_i hhigh
    have hhalf : b ≤ 2 * (a % b) := by
      simp only [Bool.or_eq_true, decide_eq_true_eq, Bool.and_eq_true, beq_iff_eq] at hhigh
      omega
    have hhalf' : (1 : ℚ) / 2 ≤ ((a % b : Nat) : ℚ) / b := by
      rw [div_le_div_iff₀ (by norm_num) hb', one_mul, mul_comm]
      exact_mod_cast hhalf
    have hless : ((a % b : Nat) : ℚ) / b < 1 := by
      rw [div_lt_one hb']
      exact_mod_cast Nat.mod_lt a hb
    rw [if_neg (by omega), hsplit, abs_le]
    push_cast
    refine ⟨⟨?_, ?_⟩, ?_, ?_⟩ <;> linarith
  · rename_i hlow
    have hhalf : 2 * (a % b) ≤ b := by
      simp only [Bool.or_eq_true, decide_eq_true_eq, not_or] at hlow
      omega
    have hhalf' : ((a % b : Nat) : ℚ) / b ≤ 1 / 2 := by
      rw [div_le_div_iff₀ hb' (by norm_num), one_mul, mul_comm]
      exact_mod_cast hhalf
    rw [hsplit, abs_le]
    refine ⟨⟨?_, ?_⟩, ?_, ?_⟩
    · linarith
    · linarith
    · linarith
    · split
      · linarith
      · push_cast
        linarith

theorem neighbour?_eq (f : BinaryFormat) (tie : Tie) (code : Nat) (e : ℤ) :
    ∃ a b : Nat, 0 < b ∧ (a : ℚ) / b = magnitude f code / 10 ^ e ∧
      neighbour? f tie code e =
        if f.ofDecimal (neighbours tie a b).1 e == code then some (neighbours tie a b).1
        else if f.ofDecimal (neighbours tie a b).2 e == code then some (neighbours tie a b).2
        else none := by
  refine ⟨(f.quotient code).1 * 10 ^ (-e).toNat, (f.quotient code).2 * 10 ^ e.toNat, ?_, ?_, rfl⟩
  · exact Nat.mul_pos (Nat.two_pow_pos _) (Nat.pow_pos (by decide))
  · rw [← quotient_eq, zpow_eq_div (by norm_num : (10 : ℚ) ≠ 0), div_div_div_eq]
    push_cast
    rfl

theorem hit_of_neighbour? (hhit : neighbour? f tie code e = some digits) :
    f.ofDecimal digits e = code ∧ (digits : ℚ) ≤ magnitude f code / 10 ^ e + 1 := by
  obtain ⟨a, b, hb, hratio, heq⟩ := neighbour?_eq f tie code e
  obtain ⟨-, hfirst, hsecond⟩ := neighbours_spec tie a hb
  rw [hratio] at hfirst hsecond
  rw [heq] at hhit
  split at hhit
  · rename_i hread
    cases hhit
    exact ⟨eq_of_beq hread, hfirst⟩
  · split at hhit
    · rename_i hread
      cases hhit
      exact ⟨eq_of_beq hread, hsecond⟩
    · cases hhit

theorem exists_neighbour? (tie : Tie) (hnear : ∀ digits : Nat,
    |(digits : ℚ) - magnitude f code / 10 ^ e| ≤ 1 / 2 → f.ofDecimal digits e = code) :
    ∃ digits, neighbour? f tie code e = some digits ∧
      |(digits : ℚ) - magnitude f code / 10 ^ e| ≤ 1 / 2 := by
  obtain ⟨a, b, hb, hratio, heq⟩ := neighbour?_eq f tie code e
  obtain ⟨hfirst, -, -⟩ := neighbours_spec tie a hb
  rw [hratio] at hfirst
  refine ⟨_, ?_, hfirst⟩
  rw [heq, hnear _ hfirst, beq_self_eq_true, if_pos rfl]

theorem shortestFrom_spec (steps fuel : Nat) (hsteps : steps < fuel)
    (hhit : neighbour? f tie code (e - steps) = some digits) :
    ∃ digits q, shortestFrom f tie code fuel e = (digits, q) ∧
      neighbour? f tie code q = some digits ∧ e - steps ≤ q ∧ q ≤ e := by
  induction fuel generalizing steps e with
  | zero => exact absurd hsteps (Nat.not_lt_zero _)
  | succ fuel ih =>
      rw [shortestFrom]
      split
      · rename_i digits hdigits
        exact ⟨digits, e, rfl, hdigits, by omega, le_rfl⟩
      · rename_i hmiss
        cases steps with
        | zero =>
            rw [Nat.cast_zero, sub_zero, hmiss] at hhit
            cases hhit
        | succ steps =>
            obtain ⟨digits, q, hfound, hneighbour, hlow, hhigh⟩ :=
              ih steps (e := e - 1) (by omega) (by
                convert hhit using 2
                push_cast
                ring)
            exact ⟨digits, q, hfound, hneighbour, by push_cast; omega, by omega⟩

theorem stripZeros_spec (fuel digits : Nat) (e : ℤ) :
    ((stripZeros fuel digits e).1 : ℚ) * 10 ^ (stripZeros fuel digits e).2 = digits * 10 ^ e ∧
      (stripZeros fuel digits e).1 ≤ digits ∧ e ≤ (stripZeros fuel digits e).2 := by
  induction fuel generalizing digits e with
  | zero => exact ⟨rfl, le_rfl, le_rfl⟩
  | succ fuel ih =>
      rw [stripZeros]
      split
      · rename_i hzero
        obtain ⟨hvalue, hle, hexponent⟩ := ih (digits / 10) (e + 1)
        refine ⟨?_, by omega, by omega⟩
        have hdigits : (digits : ℚ) = (digits / 10 : Nat) * 10 := by
          exact_mod_cast (Nat.div_mul_cancel (Nat.dvd_of_mod_eq_zero hzero)).symm
        rw [hvalue, hdigits, ten_zpow_add, zpow_one]
        ring
      · exact ⟨rfl, le_rfl, le_rfl⟩

end Grids

section Shortest

/-- A finite magnitude that a double can hold. -/
structure Ordinary (f : BinaryFormat) (code : Nat) : Prop where
  pos : 0 < code
  finite : code < f.infinityCode
  bits : f.fractionBits ≤ 52
  low : (2 : ℚ) ^ (-1074 : ℤ) ≤ magnitude f code
  high : magnitude f code < 2 ^ (1024 : ℤ)

variable {f : BinaryFormat} {code : Nat}

theorem magnitude_one_le (hpos : 0 < code) : magnitude f 1 ≤ magnitude f code :=
  strictMono_magnitude.monotone hpos

theorem magnitude_infinityCode : magnitude binary64 binary64.infinityCode = 2 ^ (1024 : ℤ) := by
  have hdecode : binary64.decode binary64.infinityCode = (2 ^ 52, 972) := by decide +kernel
  rw [magnitude, hdecode, Nat.cast_pow, Nat.cast_two, ← zpow_natCast, ← two_zpow_add]
  rfl

theorem ordinary_binary64 (hpos : 0 < code) (hfinite : code < binary64.infinityCode) :
    Ordinary binary64 code where
  pos := hpos
  finite := hfinite
  bits := le_rfl
  low := by
    have hone : magnitude binary64 1 = 2 ^ (-1074 : ℤ) := by
      have hdecode : binary64.decode 1 = (1, -1074) := by decide
      rw [magnitude, hdecode, Nat.cast_one, one_mul]
    exact hone ▸ magnitude_one_le hpos
  high := magnitude_infinityCode ▸ strictMono_magnitude hfinite

theorem magnitude_infinityCode_binary32 :
    magnitude binary32 binary32.infinityCode = 2 ^ (128 : ℤ) := by
  have hdecode : binary32.decode binary32.infinityCode = (2 ^ 23, 105) := by decide +kernel
  rw [magnitude, hdecode, Nat.cast_pow, Nat.cast_two, ← zpow_natCast, ← two_zpow_add]
  rfl

theorem ordinary_binary32 (hpos : 0 < code) (hfinite : code < binary32.infinityCode) :
    Ordinary binary32 code where
  pos := hpos
  finite := hfinite
  bits := by decide
  low := by
    have hone : magnitude binary32 1 = 2 ^ (-149 : ℤ) := by
      have hdecode : binary32.decode 1 = (1, -149) := by decide
      rw [magnitude, hdecode, Nat.cast_one, one_mul]
    refine le_trans ?_ (hone ▸ magnitude_one_le hpos)
    exact zpow_le_zpow_right₀ (by norm_num) (by norm_num)
  high := lt_of_lt_of_le (magnitude_infinityCode_binary32 ▸ strictMono_magnitude hfinite)
    (zpow_le_zpow_right₀ (by norm_num) (by norm_num))

theorem exists_decade (hordinary : Ordinary f code) :
    ∃ decade : ℤ, floorLog10 (f.quotient code).1 (f.quotient code).2 = decade ∧
      (10 : ℚ) ^ decade ≤ magnitude f code ∧ magnitude f code < 10 ^ (decade + 1) ∧
      -324 ≤ decade ∧ decade ≤ 308 := by
  have hpos := magnitude_pos (f := f) hordinary.pos
  have hdenominator : 0 < (f.quotient code).2 := Nat.two_pow_pos _
  have hratio := quotient_eq (f := f) code
  have hnumerator : 0 < (f.quotient code).1 := by
    refine Nat.pos_of_ne_zero fun hzero => ?_
    rw [hzero, Nat.cast_zero, zero_div] at hratio
    exact hpos.ne hratio
  have hspec := floorLog10_spec hnumerator hdenominator
    (by rw [hratio]; exact hordinary.low) (by rw [hratio]; exact hordinary.high)
  rw [hratio] at hspec
  refine ⟨_, rfl, hspec.1, hspec.2, ?_, ?_⟩
  · by_contra! hlow
    have hle : (10 : ℚ) ^ (floorLog10 (f.quotient code).1 (f.quotient code).2 + 1) ≤
        2 ^ (-1074 : ℤ) := ten_zpow_le_two_zpow (by omega) (by omega)
    exact absurd hordinary.low (not_le.mpr (hspec.2.trans_le hle))
  · by_contra! hhigh
    have hle : (2 : ℚ) ^ (1024 : ℤ) ≤
        10 ^ floorLog10 (f.quotient code).1 (f.quotient code).2 :=
      two_zpow_le_ten_zpow (by omega) (by omega)
    exact absurd hordinary.high (not_lt.mpr (hle.trans hspec.1))

variable {tie : Tie} {decade : ℤ}

theorem exists_hit (hordinary : Ordinary f code) {finest : ℤ} {digits : Nat}
    (hhit : neighbour? f tie code finest = some digits)
    (hcoarse : (10 : ℚ) ^ finest ≤ magnitude f code)
    (hfine : magnitude f code < 10 ^ (finest + 17)) :
    ∃ digits q, shortest f tie code = stripZeros 20 digits q ∧
      neighbour? f tie code q = some digits ∧ finest ≤ q ∧ (10 : ℚ) ^ q ≤ magnitude f code := by
  obtain ⟨decade, hdecade, hlow, hhigh, -, -⟩ := exists_decade hordinary
  have hbelow : finest < decade + 1 :=
    (zpow_lt_zpow_iff_right₀ (by norm_num)).mp (hcoarse.trans_lt hhigh)
  have habove : decade < finest + 17 :=
    (zpow_lt_zpow_iff_right₀ (by norm_num)).mp (hlow.trans_lt hfine)
  obtain ⟨steps, hsteps⟩ : ∃ steps : Nat, finest = decade - steps :=
    ⟨(decade - finest).toNat, by omega⟩
  rw [hsteps] at hhit
  obtain ⟨digits, q, hfound, hneighbour, hqlow, hqhigh⟩ :=
    shortestFrom_spec steps 17 (by omega) hhit
  refine ⟨digits, q, ?_, hneighbour, by omega,
    le_trans (zpow_le_zpow_right₀ (by norm_num) hqhigh) hlow⟩
  simp only [shortest, hdecade, hfound]

/-- On the grid of seventeen digits the nearest decimal reads back. -/
theorem exists_finest (tie : Tie) (hordinary : Ordinary f code)
    (hlow : (10 : ℚ) ^ decade ≤ magnitude f code) (hhigh : magnitude f code < 10 ^ (decade + 1))
    (hleast : -324 ≤ decade) (hmost : decade ≤ 308) :
    ∃ digits, neighbour? f tie code (decade - 16) = some digits := by
  suffices hread : ∀ digits : Nat, |(digits : ℚ) - magnitude f code / 10 ^ (decade - 16)| ≤ 1 / 2 →
      f.ofDecimal digits (decade - 16) = code by
    obtain ⟨digits, hhit, -⟩ := exists_neighbour? tie hread
    exact ⟨digits, hhit⟩
  intro digits hnear
  have hgrid := ten_zpow_pos (decade - 16)
  have hsplit : (10 : ℚ) ^ decade = 10 ^ 16 * 10 ^ (decade - 16) := by
    rw [← zpow_natCast, ← ten_zpow_add]
    congr 1
    norm_num
  have hmagnitude : magnitude f code = magnitude f code / 10 ^ (decade - 16) * 10 ^ (decade - 16) :=
    (div_mul_cancel₀ _ hgrid.ne').symm
  have hatLeast : (10 : ℚ) ^ 16 ≤ magnitude f code / 10 ^ (decade - 16) := by
    rwa [le_div_iff₀ hgrid, ← hsplit]
  have hatMost : magnitude f code / 10 ^ (decade - 16) < 10 ^ 17 := by
    rw [div_lt_iff₀ hgrid]
    refine hhigh.trans_eq ?_
    rw [ten_zpow_add, hsplit, zpow_one]
    ring
  have hbits : (2 : ℚ) ^ (f.fractionBits + 2) ≤ 2 ^ 54 :=
    pow_le_pow_right₀ (by norm_num) (by have := hordinary.bits; omega)
  generalize magnitude f code / 10 ^ (decade - 16) = w at *
  obtain ⟨hdown, hup⟩ := abs_le.mp hnear
  have hlog : digits.log2 < 58 := by
    have hdigits : (digits : ℚ) < 2 ^ 58 := by linarith
    have hpos : (0 : ℚ) < digits := by linarith
    rw [Nat.log2_lt (by exact_mod_cast hpos.ne')]
    exact_mod_cast hdigits
  -- Half a step of this grid is small beside the number, so rounding takes it away.
  rw [ofDecimal_eq (by omega) (by omega)]
  refine nearest_of_close hordinary.pos hordinary.finite.le ?_
  rw [hmagnitude, ← sub_mul, abs_mul, abs_of_pos hgrid, mul_div_right_comm]
  refine mul_lt_mul_of_pos_right (hnear.trans_lt ?_) hgrid
  rw [div_lt_div_iff₀ (by norm_num) (by positivity)]
  linarith

/-- The digits that are found read back, and there are at most eighteen. -/
theorem exists_shortest (tie : Tie) (hordinary : Ordinary f code) :
    ∃ digits e, shortest f tie code = (digits, e) ∧ nearest f (digits * 10 ^ e) = code ∧
      0 < digits ∧ digits < 10 ^ 18 ∧ -340 ≤ e ∧ e ≤ 308 := by
  obtain ⟨decade, hdecade, hlow, hhigh, hleast, hmost⟩ := exists_decade hordinary
  obtain ⟨finest, hfinest⟩ := exists_finest tie hordinary hlow hhigh hleast hmost
  obtain ⟨digits, q, hshortest, hhit, hqlow, hqcoarse⟩ := exists_hit hordinary hfinest
    (le_trans (zpow_le_zpow_right₀ (by norm_num) (by omega)) hlow)
    (hhigh.trans_eq (by congr 1; ring))
  obtain ⟨hread, hdigits⟩ := hit_of_neighbour? hhit
  have hnearest := nearest_of_ofDecimal hordinary.pos hordinary.finite hread
  obtain ⟨hvalue, hfewer, hexponent⟩ := stripZeros_spec 20 digits q
  have hgrid := ten_zpow_pos q
  rw [← hvalue] at hnearest
  have hpos : 0 < (stripZeros 20 digits q).1 := by
    refine Nat.pos_of_ne_zero fun hzero => ?_
    rw [hzero, Nat.cast_zero, zero_mul, nearest_zero] at hnearest
    exact hordinary.pos.ne hnearest
  have hbound : digits < 10 ^ 18 := by
    have hratio : magnitude f code / 10 ^ q < 10 ^ 17 := by
      rw [div_lt_iff₀ hgrid, ← zpow_natCast, ← ten_zpow_add]
      exact hhigh.trans_le (zpow_le_zpow_right₀ (by norm_num) (by push_cast; omega))
    have hlt : (digits : ℚ) < 10 ^ 18 := by linarith
    exact_mod_cast hlt
  refine ⟨(stripZeros 20 digits q).1, (stripZeros 20 digits q).2, hshortest, hnearest, hpos,
    by omega, by omega, ?_⟩
  -- A greater power of ten would be beyond the greatest number of the format.
  by_contra! hlarge
  have hone : (1 : ℚ) ≤ (stripZeros 20 digits q).1 := by exact_mod_cast hpos
  have htwice : (2 : ℚ) ^ (1025 : ℤ) ≤ 10 ^ (stripZeros 20 digits q).2 :=
    two_zpow_le_ten_zpow (by omega) (by omega)
  have hpower := ten_zpow_pos (stripZeros 20 digits q).2
  have hleading := le_mul_of_one_le_left hpower.le hone
  have htop := hordinary.high
  have hdouble : (2 : ℚ) ^ (1025 : ℤ) = 2 ^ (1024 : ℤ) * 2 := two_zpow_succ 1024
  rw [hdouble] at htwice
  have hsum : (digits : ℚ) * 10 ^ q ≤ magnitude f code + 10 ^ q := by
    calc (digits : ℚ) * 10 ^ q ≤ (magnitude f code / 10 ^ q + 1) * 10 ^ q :=
          mul_le_mul_of_nonneg_right hdigits hgrid.le
      _ = magnitude f code + 10 ^ q := by rw [add_mul, div_mul_cancel₀ _ hgrid.ne', one_mul]
  generalize (2 : ℚ) ^ (1024 : ℤ) = top at *
  linarith

end Shortest

end MappedMetrics.Proofs.ShortestDigits
