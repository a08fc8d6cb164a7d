import MappedMetrics.Proofs.LiteralReading

namespace MappedMetrics.Proofs.DoubleRounding

open MappedMetrics.Decimal
open MappedMetrics.Proofs.BinaryRounding
open MappedMetrics.Proofs.DoubleArithmetic
open MappedMetrics.Proofs.LiteralReading
open MappedMetrics.Proofs.RoundingErrors
open MappedMetrics.Proofs.ShortestDigits

variable {code w k : Nat} {e : ℤ}

/-- The single nearest to a double. -/
def narrowed (read : Nat) : Nat :=
  nearest binary32 (magnitude binary64 read)

theorem eq_of_near {a b : Nat} (hsmall : a < 2 ^ 53 - 1 ∨ b < 2 ^ 53)
    (hnear : Near (1 / 2 ^ 53) a b) : a = b := by
  have hb : b < 2 ^ 53 := by
    refine hsmall.elim (fun ha => ?_) id
    have ha' : (a : ℚ) < 2 ^ 53 - 1 := by
      have hcast : (a : ℚ) < ((2 ^ 53 - 1 : Nat) : ℚ) := by exact_mod_cast ha
      norm_num at hcast ⊢
      exact hcast
    have hlt : (b : ℚ) < 2 ^ 53 := by linarith [hnear.low]
    exact_mod_cast hlt
  have hb' : (b : ℚ) < 2 ^ 53 := by exact_mod_cast hb
  have hlow : (b : ℚ) < a + 1 := by linarith [hnear.low]
  have hhigh : (a : ℚ) < b + 1 := by linarith [hnear.high]
  have hlow' : b < a + 1 := by exact_mod_cast hlow
  have hhigh' : a < b + 1 := by exact_mod_cast hhigh
  omega

theorem eq_of_near_half {j : Nat} {p : ℤ} (hj : j < 2 ^ 25) (hk : k ≤ 12) (hw : w < 2 ^ 53)
    (hnear : Near (1 / 2 ^ 53) (j * 2 ^ p : ℚ) (w / 10 ^ k)) : (j * 2 ^ p : ℚ) = w / 10 ^ k := by
  have hten : (10 : ℚ) ^ k = 2 ^ k * 5 ^ k := by
    rw [← mul_pow]
    norm_num
  have hfive : 5 ^ k ≤ 5 ^ 12 := Nat.pow_le_pow_right (by decide) hk
  -- Both sides become whole by the finer of their units, and then one of them is below 2⁵³.
  rcases le_or_gt (-(k : ℤ)) p with hcoarse | hfine
  · have hsplit : (2 : ℚ) ^ p * 2 ^ k = 2 ^ (p + k).toNat := by
      rw [← zpow_natCast, ← zpow_natCast, ← two_zpow_add]
      congr 1
      omega
    have hleft : (10 : ℚ) ^ k * (j * 2 ^ p) = (j * 2 ^ (p + k).toNat * 5 ^ k : Nat) := by
      push_cast
      rw [hten, ← hsplit]
      ring
    have hright : (10 : ℚ) ^ k * (w / 10 ^ k) = w := mul_div_cancel₀ _ (by positivity)
    have hscaled := hnear.scale (c := 10 ^ k) (by positivity)
    rw [hleft, hright] at hscaled
    refine mul_left_cancel₀ (pow_ne_zero k (by norm_num : (10 : ℚ) ≠ 0)) ?_
    rw [hleft, hright, eq_of_near (.inr hw) hscaled]
  · have hsplit : (2 : ℚ) ^ (-p - k).toNat * 2 ^ k * 2 ^ p = 1 := by
      have hsum : (((-p - k).toNat : ℕ) : ℤ) + (k : ℕ) + p = 0 := by omega
      rw [← zpow_natCast, ← zpow_natCast, ← two_zpow_add, ← two_zpow_add, hsum, zpow_zero]
    have hleft : (2 : ℚ) ^ (-p - k).toNat * 10 ^ k * (j * 2 ^ p) = (j * 5 ^ k : Nat) := by
      rw [hten, ← one_mul ((j * 5 ^ k : Nat) : ℚ), ← hsplit]
      push_cast
      ring
    have hright : (2 : ℚ) ^ (-p - k).toNat * 10 ^ k * (w / 10 ^ k) =
        (w * 2 ^ (-p - k).toNat : Nat) := by
      push_cast
      field_simp
    have hscaled := hnear.scale (c := 2 ^ (-p - k).toNat * 10 ^ k) (by positivity)
    rw [hleft, hright] at hscaled
    have hsmall : j * 5 ^ k < 2 ^ 53 - 1 :=
      calc j * 5 ^ k ≤ 2 ^ 25 * 5 ^ 12 := Nat.mul_le_mul hj.le hfive
        _ < 2 ^ 53 - 1 := by decide
    refine mul_left_cancel₀ (show (2 : ℚ) ^ (-p - k).toNat * 10 ^ k ≠ 0 by positivity) ?_
    rw [hleft, hright, eq_of_near (.inl hsmall) hscaled]

theorem magnitude_lt_binary64 (hcode : code ≤ binary32.infinityCode) :
    magnitude binary32 code < magnitude binary64 binary64.infinityCode := by
  refine (strictMono_magnitude.monotone hcode).trans_lt ?_
  rw [magnitude_infinityCode_binary32, magnitude_infinityCode]
  exact zpow_lt_zpow_right₀ (by norm_num) (by norm_num)

theorem middle_lt_binary64 (hcode : code < binary32.infinityCode) :
    middle binary32 code < magnitude binary64 binary64.infinityCode := by
  have hlow := magnitude_lt_binary64 hcode.le
  have hhigh := magnitude_lt_binary64 (Nat.succ_le_of_lt hcode)
  rw [middle]
  linarith

theorem magnitude_nearest_middle (hcode : code < binary32.infinityCode) :
    magnitude binary64 (nearest binary64 (middle binary32 code)) = middle binary32 code := by
  obtain ⟨q, m, hleast, hm, hmiddle⟩ := exists_middle binary32 code
  have hbelow := middle_lt_binary64 hcode
  have hleast' : binary32.minExponent = -149 := rfl
  have hleast'' := minExponent_binary64
  have hbits : 2 ^ (binary32.fractionBits + 1) = 2 ^ 24 := rfl
  have hbits' : 2 ^ (binary64.fractionBits + 1) = 2 ^ 53 := rfl
  have hwide : 2 * m + 1 < 2 ^ (binary64.fractionBits + 1) := by omega
  rw [hmiddle] at hbelow ⊢
  exact (nearest_units (by omega) hwide (by omega) hbelow).1

/-- A decimal with few places is rounded to a single as if it were not rounded to a double
first. -/
theorem narrowed_of_places (hfinite : code + 1 < binary32.infinityCode) (hw : 0 < w)
    (hbound : w < 2 ^ 53) (hk : k ≤ 12) (hnearest : nearest binary32 (w / 10 ^ k) = code + 1) :
    narrowed (nearest binary64 (w / 10 ^ k)) = code + 1 := by
  have hv : (0 : ℚ) < w / 10 ^ k := by positivity
  have hnear := (near_places hw hbound hk).2
  obtain ⟨hlow, hhigh⟩ := between_of_nearest hv hfinite hnearest
  have hmiddle := magnitude_nearest_middle (show code < binary32.infinityCode by omega)
  have hmiddle' := magnitude_nearest_middle hfinite
  generalize hplaces : (w : ℚ) / 10 ^ k = v at *
  by_cases hexact : magnitude binary64 (nearest binary64 v) = v
  · rw [narrowed, hexact, hnearest]
  -- Rounding to a double does not go beyond the middles, and does not reach them either.
  have hafter : middle binary32 code ≤ magnitude binary64 (nearest binary64 v) := by
    rw [← hmiddle] at hlow ⊢
    exact strictMono_magnitude.monotone (le_nearest (nearest_le_infinityCode _) hlow)
  have hbefore : magnitude binary64 (nearest binary64 v) ≤ middle binary32 (code + 1) := by
    rw [← hmiddle'] at hhigh ⊢
    exact strictMono_magnitude.monotone (nearest_le hv.le hhigh)
  have hreach : ∀ other, magnitude binary64 (nearest binary64 v) ≠ middle binary32 other := by
    intro other hother
    obtain ⟨q, m, -, hm, hunits⟩ := exists_middle binary32 other
    have hwide : 2 * m + 1 < 2 ^ 25 := by
      have hbits : 2 ^ (binary32.fractionBits + 1) = 2 ^ 24 := rfl
      omega
    rw [hother.trans hunits, ← hplaces] at hnear
    exact hexact ((hother.trans hunits).trans
      ((eq_of_near_half hwide hk hbound hnear).trans hplaces))
  exact nearest_of_between (hnear.pos (by norm_num) hv) hfinite.le
    (lt_of_le_of_ne hafter (hreach code).symm) (lt_of_le_of_ne hbefore (hreach (code + 1)))

theorem narrowed_of_whole (hfinite : code + 1 < binary32.infinityCode) (hw : 0 < w)
    (hdigits : w * 5 ^ k < 2 ^ 53) (hnearest : nearest binary32 (w * 10 ^ k) = code + 1) :
    nearest binary64 (w * 10 ^ k) < binary64.infinityCode ∧
      narrowed (nearest binary64 (w * 10 ^ k)) = code + 1 := by
  have hv : (0 : ℚ) < w * 10 ^ k := by positivity
  have hunits : (w : ℚ) * 10 ^ k = (w * 5 ^ k : Nat) * 2 ^ (k : ℤ) := by
    have hten : (10 : ℚ) ^ k = 5 ^ k * 2 ^ k := by
      rw [← mul_pow]
      norm_num
    rw [zpow_natCast, hten]
    push_cast
    ring
  have hbelow := (between_of_nearest hv hfinite hnearest).2.trans_lt (middle_lt_binary64 hfinite)
  have hleast := minExponent_binary64
  have hexact := nearest_units (f := binary64) (Nat.mul_pos hw (Nat.pow_pos (by decide)))
    hdigits (by omega) (hunits ▸ hbelow)
  rw [← hunits] at hexact
  exact ⟨hexact.2, by rw [narrowed, hexact.1, hnearest]⟩

theorem narrowed_of_exact (hfinite : code + 1 < binary32.infinityCode) (hw : 0 < w)
    (hbound : w ≤ 2 ^ 27) (hleast : -12 ≤ e) (hmost : e ≤ 9)
    (hnearest : nearest binary32 (w * 10 ^ e) = code + 1) :
    nearest binary64 (w * 10 ^ e) < binary64.infinityCode ∧
      narrowed (nearest binary64 (w * 10 ^ e)) = code + 1 := by
  rcases le_or_gt 0 e with hwhole | hfraction
  · obtain ⟨k, rfl⟩ := Int.eq_ofNat_of_zero_le hwhole
    have hdigits : w * 5 ^ k < 2 ^ 53 :=
      calc w * 5 ^ k ≤ 2 ^ 27 * 5 ^ 9 :=
            Nat.mul_le_mul hbound (Nat.pow_le_pow_right (by decide) (by omega))
        _ < 2 ^ 53 := by decide
    rw [zpow_natCast] at hnearest ⊢
    exact narrowed_of_whole hfinite hw hdigits hnearest
  · obtain ⟨k, hk⟩ : ∃ k : Nat, e = -k := ⟨(-e).toNat, by omega⟩
    have hvalue : (w : ℚ) * 10 ^ e = w / 10 ^ k := by
      rw [hk, zpow_neg, zpow_natCast, div_eq_mul_inv]
    have hbound' : w < 2 ^ 53 := hbound.trans_lt (by decide)
    rw [hvalue] at hnearest ⊢
    exact ⟨(near_places hw hbound' (by omega)).1,
      narrowed_of_places hfinite hw hbound' (by omega) hnearest⟩

end MappedMetrics.Proofs.DoubleRounding
