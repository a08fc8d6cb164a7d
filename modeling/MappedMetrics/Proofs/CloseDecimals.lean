import MappedMetrics.Proofs.FloatReadings

/-!
Decimals next to the middle of two singles. Only these can be rounded to the wrong single, and they
are so few that each of them is tried. They are found among the mediants that lie on the way to the
quotient of a binary and a decimal unit.
-/

namespace MappedMetrics.Proofs.CloseDecimals

open MappedMetrics
open MappedMetrics.Json
open MappedMetrics.Decimal
open MappedMetrics.Proofs.JsonFloats

section Mediants

variable (x y bound limit : Nat) (test : Nat → Nat → Bool)

/-- So many units of the one size are more than so many of the other size, and not nearly equal. -/
def above (w j : Nat) : Bool :=
  (bound + j * y).blt (w * x)

def below (w j : Nat) : Bool :=
  (bound + w * x).blt (j * y)

/-- Two pairs whose sums are all above, or all below. -/
def apart (w j w' j' : Nat) : Bool :=
  above x y bound w j && above x y bound w' j' || below x y bound w j && below x y bound w' j'

/-- The multiples of a pair within the limit pass the test if they are nearly equal. -/
def multiplesPass (w j : Nat) : Bool :=
  above x y bound w j || below x y bound w j ||
    (Nat.blt 0 j && (List.range (limit / j + 1)).all fun a => a == 0 || test (a * w) (a * j))

/-- All sums of multiples of two pairs within the limit pass the test if they are nearly equal.
Each step of the fuel takes the sum of both pairs in the place of one of them. -/
def sumsPass : Nat → Nat → Nat → Nat → Nat → Bool
  | 0, _, _, _, _ => false
  | fuel + 1, w, j, w', j' =>
      if limit < j + j' then
        multiplesPass x y bound limit test w j && multiplesPass x y bound limit test w' j'
      else if apart x y bound w j (w + w') (j + j') then sumsPass fuel (w + w') (j + j') w' j'
      else if apart x y bound (w + w') (j + j') w' j' then sumsPass fuel w j (w + w') (j + j')
      else sumsPass fuel w j (w + w') (j + j') && sumsPass fuel (w + w') (j + j') w' j'

/-- So many units of the one size nearly equal so many of the other size. -/
structure Even (w j : Nat) : Prop where
  upper : w * x ≤ bound + j * y
  lower : j * y ≤ bound + w * x

variable {x y bound limit test} {w j w' j' a b : Nat}

theorem not_even_of_apart (hapart : apart x y bound w j w' j' = true) (hab : 0 < a + b) :
    ¬ Even x y bound (a * w + b * w') (a * j + b * j') := by
  have hbound : bound + 1 ≤ (a + b) * (bound + 1) := Nat.le_mul_of_pos_left _ hab
  simp only [apart, above, below, Bool.or_eq_true, Bool.and_eq_true, Nat.blt_eq] at hapart
  rintro ⟨hupper, hlower⟩
  rcases hapart with ⟨hfirst, hsecond⟩ | ⟨hfirst, hsecond⟩
  · have hfirst' := Nat.mul_le_mul_left a hfirst
    have hsecond' := Nat.mul_le_mul_left b hsecond
    nlinarith
  · have hfirst' := Nat.mul_le_mul_left a hfirst
    have hsecond' := Nat.mul_le_mul_left b hsecond
    nlinarith

theorem test_of_multiplesPass (hpass : multiplesPass x y bound limit test w j = true) (ha : 0 < a)
    (hlimit : a * j ≤ limit) (heven : Even x y bound (a * w) (a * j)) :
    test (a * w) (a * j) = true := by
  have hnear : ¬ (above x y bound w j = true ∨ below x y bound w j = true) := by
    intro hfar
    have hapart : apart x y bound w j w j = true := by
      simpa [apart] using hfar
    refine not_even_of_apart (a := a) (b := 0) hapart ha ?_
    simpa using heven
  simp only [multiplesPass, Bool.or_eq_true, or_iff_right hnear, Bool.and_eq_true, Nat.blt_eq,
    List.all_eq_true, List.mem_range, beq_iff_eq] at hpass
  have hmultiple : a ≤ limit / j := (Nat.le_div_iff_mul_le hpass.1).mpr hlimit
  exact (hpass.2 a (Nat.lt_succ_of_le hmultiple)).resolve_left ha.ne'

theorem test_of_sumsPass {fuel : Nat}
    (hpass : sumsPass x y bound limit test fuel w j w' j' = true) (hab : 0 < a + b)
    (hlimit : a * j + b * j' ≤ limit)
    (heven : Even x y bound (a * w + b * w') (a * j + b * j')) :
    test (a * w + b * w') (a * j + b * j') = true := by
  induction fuel generalizing w j w' j' a b with
  | zero => cases hpass
  | succ fuel ih =>
      -- The mediant is in a sum as often as the rarer of the two pairs.
      have hleft : b ≤ a → (sumsPass x y bound limit test fuel w j (w + w') (j + j') = true ∨
          apart x y bound w j (w + w') (j + j') = true) →
          test (a * w + b * w') (a * j + b * j') = true := by
        intro hle hcone
        obtain ⟨c, rfl⟩ := Nat.exists_eq_add_of_le hle
        have hw : (b + c) * w + b * w' = c * w + b * (w + w') := by ring
        have hj : (b + c) * j + b * j' = c * j + b * (j + j') := by ring
        rw [hw, hj] at heven ⊢
        rw [hj] at hlimit
        exact hcone.elim (fun hcone => ih hcone (by omega) hlimit heven)
          fun hapart => absurd heven (not_even_of_apart hapart (by omega))
      have hright : a ≤ b → (sumsPass x y bound limit test fuel (w + w') (j + j') w' j' = true ∨
          apart x y bound (w + w') (j + j') w' j' = true) →
          test (a * w + b * w') (a * j + b * j') = true := by
        intro hle hcone
        obtain ⟨c, rfl⟩ := Nat.exists_eq_add_of_le hle
        have hw : a * w + (a + c) * w' = a * (w + w') + c * w' := by ring
        have hj : a * j + (a + c) * j' = a * (j + j') + c * j' := by ring
        rw [hw, hj] at heven ⊢
        rw [hj] at hlimit
        exact hcone.elim (fun hcone => ih hcone (by omega) hlimit heven)
          fun hapart => absurd heven (not_even_of_apart hapart (by omega))
      rw [sumsPass] at hpass
      split at hpass
      · rename_i hends
        rw [Bool.and_eq_true] at hpass
        rcases Nat.eq_zero_or_pos a with rfl | ha
        · simp only [Nat.zero_mul, Nat.zero_add] at hab hlimit heven ⊢
          exact test_of_multiplesPass hpass.2 hab hlimit heven
        rcases Nat.eq_zero_or_pos b with rfl | hb
        · simp only [Nat.zero_mul, Nat.add_zero] at hlimit heven ⊢
          exact test_of_multiplesPass hpass.1 ha hlimit heven
        · have hj := Nat.le_mul_of_pos_left j ha
          have hj' := Nat.le_mul_of_pos_left j' hb
          omega
      · rcases Nat.le_total b a with hle | hle
        · refine hleft hle ?_
          split at hpass
          · exact .inr ‹_›
          · split at hpass
            · exact .inl hpass
            · exact .inl (Bool.and_eq_true _ _ ▸ hpass).1
        · refine hright hle ?_
          split at hpass
          · exact .inl hpass
          · split at hpass
            · exact .inr ‹_›
            · exact .inl (Bool.and_eq_true _ _ ▸ hpass).2

end Mediants

section Units

/-- Whether the literal of a single is read as that single. -/
def readsBack (code : Nat) : Bool :=
  match (numeralOf singleStyle ⟨binary32, false, code⟩).magnitude? with
  | some x =>
      let (numerator, denominator) := binary64.quotient x.toBits.toNat
      binary32.roundQuotient numerator denominator == code
  | none => false

/-- The exponent of a decimal unit that is a little greater than a quarter of `2 ^ q`. -/
def exponentFor (q : ℤ) : ℤ :=
  (q - 2) * 59 / 196 + 1

/-- The decimal unit and the half of the binary unit, both multiplied by a number that makes them
whole. -/
def wholeUnits (q : ℤ) : Nat × Nat :=
  (10 ^ (exponentFor q).toNat * 2 ^ (-(q - 1)).toNat,
    2 ^ (q - 1).toNat * 10 ^ (-exponentFor q).toNat)

/-- The last number of half units, which is the middle after a power of two. -/
def lastMiddle : Nat :=
  2 ^ 25 + 2

/-- The singles between two middles are read as they were, where a decimal is next to a middle. -/
def middlePasses (q : ℤ) (w j : Nat) : Bool :=
  j % 2 == 0 && j != lastMiddle || readsBack (binary32.ofDecimal w (exponentFor q))

def unitPasses (q : ℤ) : Bool :=
  let (x, y) := wholeUnits q
  sumsPass x y (lastMiddle * y * 32 / (10 * 2 ^ 53)) lastMiddle (middlePasses q) 5000 1 0 0 1

theorem unitPasses_low : ∀ i : Nat, i < 108 → unitPasses (i - 149 : ℤ) = true := by
  decide +kernel

theorem unitPasses_high : ∀ i : Nat, i < 73 → unitPasses (i + 32 : ℤ) = true := by
  decide +kernel

end Units

end MappedMetrics.Proofs.CloseDecimals
