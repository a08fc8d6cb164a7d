import MappedMetrics.Proofs.JsonNumbers

namespace MappedMetrics.Proofs.JsonFloats

open MappedMetrics
open MappedMetrics.Json
open MappedMetrics.Decimal
open MappedMetrics.Proofs.JsonText
open MappedMetrics.Proofs.JsonNumbers

section Shortest

variable {f : BinaryFormat} {tie : Tie} {code : Nat}

theorem ofDecimal_of_neighbour? {exponent : Int} {digits : Nat}
    (hdigits : neighbour? f tie code exponent = some digits) :
    f.ofDecimal digits exponent = code := by
  have hread : ∀ pair : Nat × Nat,
      (if f.ofDecimal pair.1 exponent == code then some pair.1
        else if f.ofDecimal pair.2 exponent == code then some pair.2 else none) = some digits →
        f.ofDecimal digits exponent = code := by
    rintro ⟨first, second⟩ hfound
    split at hfound
    · rename_i hfirst
      cases hfound
      exact eq_of_beq hfirst
    · split at hfound
      · rename_i hsecond
        cases hfound
        exact eq_of_beq hsecond
      · cases hfound
  exact hread _ hdigits

/-- The exact value of a magnitude as a decimal. -/
def exactDecimal (f : BinaryFormat) (code : Nat) : Nat × Int :=
  ((f.quotient code).1 * 5 ^ (f.quotient code).2.log2, -(f.quotient code).2.log2)

theorem shortestFrom_cases (fuel : Nat) (exponent : Int) :
    f.ofDecimal (shortestFrom f tie code fuel exponent).1
        (shortestFrom f tie code fuel exponent).2 = code ∨
      shortestFrom f tie code fuel exponent = exactDecimal f code := by
  induction fuel generalizing exponent with
  | zero => exact .inr rfl
  | succ fuel ih =>
      rw [shortestFrom]
      split
      · rename_i digits hdigits
        exact .inl (ofDecimal_of_neighbour? hdigits)
      · exact ih (exponent - 1)

theorem stripZeros_pos (fuel : Nat) {digits : Nat} (hdigits : 0 < digits) (exponent : Int) :
    0 < (stripZeros fuel digits exponent).1 := by
  induction fuel generalizing digits exponent with
  | zero => exact hdigits
  | succ fuel ih =>
      rw [stripZeros]
      split
      · exact ih (by omega) _
      · exact hdigits

theorem quotient_pos (hcode : 0 < code) : 0 < (f.quotient code).1 := by
  simp only [BinaryFormat.quotient, BinaryFormat.decode]
  split
  · exact Nat.mul_pos hcode (Nat.two_pow_pos _)
  · exact Nat.mul_pos (Nat.add_pos_left (Nat.two_pow_pos _) _) (Nat.two_pow_pos _)

theorem shortestFrom_pos (hcode : 0 < code) (fuel : Nat) (exponent : Int) :
    0 < (shortestFrom f tie code fuel exponent).1 := by
  rcases shortestFrom_cases fuel exponent with hread | hexact
  · refine Nat.pos_of_ne_zero fun hzero => ?_
    rw [hzero, BinaryFormat.ofDecimal, if_pos rfl] at hread
    exact Nat.ne_of_lt hcode hread
  · rw [hexact]
    exact Nat.mul_pos (quotient_pos hcode) (Nat.pow_pos (by decide))

/-- The shortest digits, perhaps with zeros at their end. -/
def found (f : BinaryFormat) (tie : Tie) (code : Nat) : Nat × Int :=
  shortestFrom f tie code 17 (floorLog10 (f.quotient code).1 (f.quotient code).2)

theorem shortest_eq : shortest f tie code =
    stripZeros 20 (found f tie code).1 (found f tie code).2 := by
  simp only [shortest, found]

theorem shortest_pos (hcode : 0 < code) : 0 < (shortest f tie code).1 := by
  rw [shortest_eq]
  exact stripZeros_pos 20 (shortestFrom_pos hcode _ _) _

end Shortest

section Spelling

/-- Digits times a power of ten without an exponent, as a numeral. -/
def positional (negative : Bool) (digits : List Char) (exponent : Int) : Numeral :=
  if 0 ≤ exponent then
    ⟨negative, digits ++ List.replicate exponent.toNat '0', some ['0'], none⟩
  else
    let places := (-exponent).toNat
    if digits.length ≤ places then
      ⟨negative, ['0'], some (List.replicate (places - digits.length) '0' ++ digits), none⟩
    else
      ⟨negative, digits.take (digits.length - places),
        some (digits.drop (digits.length - places)), none⟩

/-- Digits with an exponent, as a numeral. -/
def scientific (negative : Bool) (digits : List Char) (scale : Int) : Numeral :=
  ⟨negative, digits.take 1, if digits.length ≤ 1 then none else some (digits.drop 1),
    some (scale < 0, digitChars scale.natAbs)⟩

/-- A finite number as a numeral in a style. -/
def numeralOf (style : DecimalStyle) (x : BinaryNumber) : Numeral :=
  if x.code = 0 then ⟨x.negative, ['0'], some ['0'], none⟩
  else
    let (value, exponent) := shortest x.format style.tie x.code
    let digits := digitChars value
    let scale := exponent + digits.length - 1
    if style.positional scale then positional x.negative digits exponent
    else scientific x.negative digits scale

/-- Whole numbers end in a point and a zero, and exponents have their sign. -/
structure Signed (style : DecimalStyle) : Prop where
  pointZero : style.pointZero = true
  plusSign : style.plusSign = true

variable {style : DecimalStyle} {x : BinaryNumber}

theorem signed_doubleStyle : Signed doubleStyle :=
  ⟨rfl, rfl⟩

theorem signed_singleStyle : Signed singleStyle :=
  ⟨rfl, rfl⟩

theorem spelled_positional (hstyle : Signed style) (negative : Bool) (digits : List Char)
    (exponent : Int) :
    spelled (positional negative digits exponent) =
      (if negative then ['-'] else []) ++ style.positionalText digits exponent := by
  simp only [positional, DecimalStyle.positionalText, DecimalStyle.wholeEnd, hstyle.pointZero]
  split
  · cases negative <;> simp [spelled, magnitudeChars, fractionChars, exponentChars]
  · split
    · cases negative <;> simp [spelled, magnitudeChars, fractionChars, exponentChars]
    · cases negative <;> simp [spelled, magnitudeChars, fractionChars, exponentChars]

theorem spelled_scientific (hstyle : Signed style) (negative : Bool) (digits : List Char)
    (scale : Int) :
    spelled (scientific negative digits scale) =
      (if negative then ['-'] else []) ++ style.scientificText digits scale := by
  have hsign : (if scale < 0 then ['-'] else if style.plusSign then ['+'] else []) =
      [if scale < 0 then '-' else '+'] := by
    rw [hstyle.plusSign]
    split <;> rfl
  simp only [scientific, DecimalStyle.scientificText, hsign]
  split <;> cases negative <;>
    simp [spelled, magnitudeChars, fractionChars, exponentChars]

theorem render_eq (hstyle : Signed style) (hfinite : x.code < x.format.infinityCode) :
    style.render x = spelled (numeralOf style x) := by
  have hnan : ¬ x.format.infinityCode < x.code := by omega
  have hinfinite : ¬ x.format.infinityCode = x.code := by omega
  simp only [DecimalStyle.render, numeralOf, if_neg hnan, if_neg hinfinite]
  split
  · cases hnegative : x.negative <;>
      simp [spelled, magnitudeChars, fractionChars, exponentChars, DecimalStyle.wholeEnd,
        hstyle.pointZero]
  · rw [apply_ite spelled, spelled_positional hstyle, spelled_scientific hstyle]
    exact apply_ite _ _ _ _

variable {digits : List Char}

theorem run_replicate_append (hrun : Run digits) (count : Nat) :
    Run (List.replicate count '0' ++ digits) := by
  refine ⟨fun c hmem => ?_, by simp [hrun.nonempty]⟩
  rcases List.mem_append.mp hmem with hzero | hdigit
  · rw [List.eq_of_mem_replicate hzero]
    decide
  · exact hrun.digits c hdigit

theorem run_of_mem {part : List Char} (hrun : Run digits) (hmem : ∀ c ∈ part, c ∈ digits)
    (hpart : part ≠ []) : Run part :=
  ⟨fun c hc => hrun.digits c (hmem c hc), hpart⟩

theorem run_zero : Run ['0'] := by
  refine ⟨fun c hmem => ?_, by decide⟩
  rw [List.eq_of_mem_singleton hmem]
  decide

theorem spellable_positional (hrun : Run digits) (hhead : digits.head? ≠ some '0')
    (negative : Bool) (exponent : Int) : Spellable (positional negative digits exponent) := by
  have hlength : 0 < digits.length := List.length_pos_iff.mpr hrun.nonempty
  simp only [positional]
  split
  · refine ⟨⟨fun c hmem => ?_, by simp [hrun.nonempty]⟩, .inr ?_, fun _ hsome => ?_,
      fun _ _ hsome => nomatch hsome⟩
    · rcases List.mem_append.mp hmem with hdigit | hzero
      · exact hrun.digits c hdigit
      · rw [List.eq_of_mem_replicate hzero]
        decide
    · simpa [List.head?_append, hrun.nonempty] using hhead
    · cases hsome
      exact run_zero
  · split
    · refine ⟨run_zero, .inl rfl, fun _ hsome => ?_, fun _ _ hsome => nomatch hsome⟩
      cases hsome
      exact run_replicate_append hrun _
    · refine ⟨run_of_mem hrun (fun c => List.mem_of_mem_take) ?_, .inr ?_, fun _ hsome => ?_,
        fun _ _ hsome => nomatch hsome⟩
      · simp [hrun.nonempty]
        omega
      · rwa [List.head?_take, if_neg (by omega)]
      · cases hsome
        refine run_of_mem hrun (fun c => List.mem_of_mem_drop) ?_
        simp
        omega

theorem spellable_scientific (hrun : Run digits) (negative : Bool) (scale : Int) :
    Spellable (scientific negative digits scale) := by
  have hlength : 0 < digits.length := List.length_pos_iff.mpr hrun.nonempty
  refine ⟨run_of_mem hrun (fun c => List.mem_of_mem_take) (by simp [scientific, hrun.nonempty]),
    .inl ?_, fun _ hsome => ?_, fun _ _ hsome => ?_⟩
  · simp [scientific]
    omega
  · simp only [scientific] at hsome
    split at hsome
    · cases hsome
    · rename_i hmore
      cases hsome
      refine run_of_mem hrun (fun c => List.mem_of_mem_drop) ?_
      rwa [Ne, List.drop_eq_nil_iff]
  · cases hsome
    exact run_digitChars _

theorem spellable_numeralOf (style : DecimalStyle) (x : BinaryNumber) :
    Spellable (numeralOf style x) := by
  rw [numeralOf]
  split
  · exact ⟨run_zero, .inl rfl, fun _ hsome => by cases hsome; exact run_zero,
      fun _ _ hsome => nomatch hsome⟩
  · rename_i hcode
    have hpos : 0 < (shortest x.format style.tie x.code).1 :=
      shortest_pos (Nat.pos_of_ne_zero hcode)
    have hdigits := head?_digitChars hpos
    simp only
    split
    · exact spellable_positional (run_digitChars _) hdigits _ _
    · exact spellable_scientific (run_digitChars _) _ _

theorem plain_spelled {y : Numeral} (hy : Spellable y) :
    Plain (.number (String.ofList (spelled y))) := by
  rw [Plain, String.toList_ofList]
  exact number?_spelled hy

theorem plain_ofDouble (bits : UInt64) : Plain (Json.ofDouble bits) := by
  simp only [Json.ofDouble]
  split
  · rename_i hfinite
    rw [render_eq signed_doubleStyle hfinite]
    exact plain_spelled (spellable_numeralOf _ _)
  · trivial

theorem plain_ofSingle (bits : UInt32) : Plain (Json.ofSingle bits) := by
  simp only [Json.ofSingle]
  split
  · rename_i hfinite
    rw [render_eq signed_singleStyle hfinite]
    exact plain_spelled (spellable_numeralOf _ _)
  · trivial

end Spelling

end MappedMetrics.Proofs.JsonFloats
