import MappedMetrics.Proofs.UnitExponents

namespace MappedMetrics.Proofs.DimensionWords

open MappedMetrics
open MappedMetrics.UnitTable
open MappedMetrics.Proofs.UnitClassification
open MappedMetrics.Proofs.UnitExponents

section Nibbles

variable {bit : Nat} {n shift : UInt32}

/-- The four bits of a word from a bit upwards. -/
def nibbleAt (bit : Nat) (word : UInt32) : Nat :=
  word.toNat / 2 ^ bit % 2 ^ 4

/-- What a nibble says in two's complement. -/
def signed (nibble : Nat) : Int :=
  if nibble < 8 then nibble else nibble - 16

theorem nibbleAt_or (bit : Nat) (v w : UInt32) :
    nibbleAt bit (v ||| w) = nibbleAt bit v ||| nibbleAt bit w := by
  rw [nibbleAt, UInt32.toNat_or, Nat.or_div_two_pow, Nat.or_mod_two_pow]
  rfl

theorem mul_two_pow_lt (hn : n.toNat < 2 ^ 4) (k : Nat) : n.toNat * 2 ^ k < 2 ^ (4 + k) := by
  rw [Nat.pow_add]
  exact Nat.mul_lt_mul_of_pos_right hn (Nat.two_pow_pos k)

theorem toNat_shiftLeft (hn : n.toNat < 2 ^ 4) (hshift : shift.toNat ≤ 28) :
    (n <<< shift).toNat = n.toNat * 2 ^ shift.toNat := by
  have hbound : n.toNat * 2 ^ shift.toNat < 2 ^ 32 :=
    Nat.lt_of_lt_of_le (mul_two_pow_lt hn _) (Nat.pow_le_pow_right (by decide) (by omega))
  rw [UInt32.toNat_shiftLeft, Nat.mod_eq_of_lt (a := shift.toNat) (by omega), Nat.shiftLeft_eq,
    Nat.mod_eq_of_lt hbound]

theorem nibbleAt_shiftLeft (hn : n.toNat < 2 ^ 4) (hshift : shift.toNat ≤ 28)
    (hbit : 4 ∣ bit) (hplace : 4 ∣ shift.toNat) :
    nibbleAt bit (n <<< shift) = if bit = shift.toNat then n.toNat else 0 := by
  rw [nibbleAt, toNat_shiftLeft hn hshift]
  -- Both places are multiples of four, so one field lies below the other unless they are the same.
  rcases Nat.lt_trichotomy bit shift.toNat with hbelow | heq | habove
  · obtain ⟨gap, hgap⟩ : ∃ gap, shift.toNat = gap + (4 + bit) := ⟨shift.toNat - (4 + bit), by omega⟩
    rw [if_neg (Nat.ne_of_lt hbelow), hgap, Nat.pow_add, Nat.pow_add, ← Nat.mul_assoc,
      ← Nat.mul_assoc, Nat.mul_div_cancel _ (Nat.two_pow_pos _), Nat.mul_mod_left]
  · rw [if_pos heq, heq, Nat.mul_div_cancel _ (Nat.two_pow_pos _), Nat.mod_eq_of_lt hn]
  · have hlow : n.toNat * 2 ^ shift.toNat < 2 ^ bit :=
      Nat.lt_of_lt_of_le (mul_two_pow_lt hn _) (Nat.pow_le_pow_right (by decide) (by omega))
    rw [if_neg (Nat.ne_of_gt habove), Nat.div_eq_of_lt hlow]

end Nibbles

/-- The lowest bit of the scale of a dimension. -/
def scaleBit : Dimension → Nat
  | .count => 8
  | .time => 12
  | .space => 16

/-- The lowest bit of the exponent of a dimension. -/
def exponentBit : Dimension → Nat
  | .count => 20
  | .time => 24
  | .space => 28

section Fields

variable {bit : Nat} {dimension other : Dimension}

theorem toNat_scaleShift (dimension : Dimension) :
    dimension.scaleShift.toNat = scaleBit dimension ∧ scaleBit dimension ≤ 28 ∧
      4 ∣ scaleBit dimension := by
  cases dimension <;> decide

theorem toNat_exponentShift (dimension : Dimension) :
    dimension.exponentShift.toNat = exponentBit dimension ∧ exponentBit dimension ≤ 28 ∧
      4 ∣ exponentBit dimension := by
  cases dimension <;> decide

theorem scaleBit_inj : scaleBit dimension = scaleBit other ↔ dimension = other := by
  cases dimension <;> cases other <;> decide

theorem exponentBit_inj : exponentBit dimension = exponentBit other ↔ dimension = other := by
  cases dimension <;> cases other <;> decide

theorem scaleBit_ne_exponentBit : scaleBit dimension ≠ exponentBit other := by
  cases dimension <;> cases other <;> decide

theorem code_lt (scale : Scale) : scale.code < 2 ^ 4 := by
  rcases scale with s | s | s <;> cases s <;> decide

theorem toNat_code (scale : Scale) : (UInt32.ofNat scale.code &&& 0xF).toNat = scale.code := by
  have hcode := code_lt scale
  rw [UInt32.toNat_and, UInt32.toNat_ofNat_of_lt' (Nat.lt_trans hcode (by decide))]
  exact (Nat.and_two_pow_sub_one_eq_mod _ 4).trans (Nat.mod_eq_of_lt hcode)

theorem nibbleAt_nibbles (scale : Scale) (exponent : UInt32) (hexponent : exponent.toNat < 2 ^ 4)
    (hbit : 4 ∣ bit) :
    nibbleAt bit (UnitMapping.nibbles scale exponent) =
      (if bit = scaleBit scale.dimension then scale.code else 0) |||
        if bit = exponentBit scale.dimension then exponent.toNat else 0 := by
  obtain ⟨hscale, hscaleBound, hscaleDvd⟩ := toNat_scaleShift scale.dimension
  obtain ⟨hplace, hplaceBound, hplaceDvd⟩ := toNat_exponentShift scale.dimension
  have hcode : (UInt32.ofNat scale.code &&& 0xF).toNat < 2 ^ 4 :=
    lt_of_eq_of_lt (toNat_code scale) (code_lt scale)
  rw [UnitMapping.nibbles, nibbleAt_or,
    nibbleAt_shiftLeft hcode (hscale ▸ hscaleBound) hbit (hscale ▸ hscaleDvd),
    nibbleAt_shiftLeft hexponent (hplace ▸ hplaceBound) hbit (hplace ▸ hplaceDvd),
    toNat_code, hscale, hplace]

end Fields

section Words

variable {bit : Nat} {dimension : Dimension} {part : Option Scale} {value : Scale → Nat}

/-- What a part of a mapping has in a field of a dimension, with zero for the other dimensions. -/
def fieldOf (part : Option Scale) (dimension : Dimension) (value : Scale → Nat) : Nat :=
  part.elim 0 fun scale => if dimension = scale.dimension then value scale else 0

theorem fieldOf_some {scale : Scale} (h : scale.dimension = dimension) :
    fieldOf (some scale) dimension value = value scale :=
  if_pos h.symm

theorem fieldOf_eq_zero (h : part.map Scale.dimension ≠ some dimension) :
    fieldOf part dimension value = 0 := by
  cases part with
  | none => rfl
  | some scale => exact if_neg fun heq => h (congrArg some heq.symm)

theorem fieldOf_some_of_ne {scale : Scale} (h : scale.dimension ≠ dimension) :
    fieldOf (some scale) dimension value = 0 :=
  fieldOf_eq_zero fun heq => h (Option.some.inj heq)

theorem nibbleAt_dimensionWord (mapping : UnitMapping) (hbit : 4 ∣ bit) :
    nibbleAt bit mapping.dimensionWord =
      ((if bit = scaleBit mapping.numerator.dimension then mapping.numerator.code else 0) |||
        if bit = exponentBit mapping.numerator.dimension then 1 else 0) |||
      mapping.denominator.elim 0 fun below =>
        (if bit = scaleBit below.dimension then below.code else 0) |||
          if bit = exponentBit below.dimension then 15 else 0 := by
  have habove := nibbleAt_nibbles mapping.numerator 1 (by decide) hbit
  rw [UnitMapping.dimensionWord]
  cases mapping.denominator with
  | none => exact habove.trans (Nat.or_zero _).symm
  | some below =>
      have hbelow := nibbleAt_nibbles below 0xF (by decide) hbit
      rw [nibbleAt_or, habove, hbelow]
      rfl

theorem toNat_dimensionWord_mod (mapping : UnitMapping) :
    mapping.dimensionWord.toNat % 2 ^ 8 = 0 := by
  have hfree : ∀ bit, 4 ∣ bit → bit < 8 → nibbleAt bit mapping.dimensionWord = 0 := by
    intro bit hbit hlow
    have hscale : ∀ dimension, bit ≠ scaleBit dimension := by
      rintro (_ | _ | _) rfl <;> exact absurd hlow (by decide)
    have hexponent : ∀ dimension, bit ≠ exponentBit dimension := by
      rintro (_ | _ | _) rfl <;> exact absurd hlow (by decide)
    rw [nibbleAt_dimensionWord mapping hbit]
    cases mapping.denominator <;> simp [hscale, hexponent]
  have hlow := hfree 0 (by decide) (by decide)
  have hhigh := hfree 4 (by decide) (by decide)
  rw [nibbleAt] at hlow hhigh
  omega

theorem nibbleAt_scaleBit (mapping : UnitMapping) (dimension : Dimension) :
    nibbleAt (scaleBit dimension) mapping.dimensionWord =
      fieldOf (some mapping.numerator) dimension Scale.code |||
        fieldOf mapping.denominator dimension Scale.code := by
  rw [nibbleAt_dimensionWord mapping (toNat_scaleShift dimension).2.2]
  simp only [scaleBit_inj, scaleBit_ne_exponentBit, if_false, Nat.or_zero]
  rfl

theorem nibbleAt_exponentBit (mapping : UnitMapping) (dimension : Dimension) :
    nibbleAt (exponentBit dimension) mapping.dimensionWord =
      fieldOf (some mapping.numerator) dimension (fun _ => 1) |||
        fieldOf mapping.denominator dimension fun _ => 15 := by
  rw [nibbleAt_dimensionWord mapping (toNat_exponentShift dimension).2.2]
  simp only [exponentBit_inj, scaleBit_ne_exponentBit.symm, if_false, Nat.zero_or]
  rfl

example : (UnitMapping.ofScales .spacePerTime (.space .kilobyte) (some (.time .second))
    ).dimensionWord = 0x1F013000 := by decide

end Words

section Shapes

variable {mapping : UnitMapping} {unit : PhysicalUnit}

/-- A unit has the power one in a dimension, the power minus one in none or in another dimension,
and no power in the others. -/
structure HasShape (unit : PhysicalUnit) (above : Dimension) (below : Option Dimension) : Prop where
  apart : below ≠ some above
  exponents : ∀ dimension, (exponentIn dimension unit).toInt =
    (if above = dimension then 1 else 0) - if below = some dimension then 1 else 0

/-- The scale that a mapping has for a dimension with an exponent, as a code. -/
inductive ScaleFor (mapping : UnitMapping) (dimension : Dimension) : Int → Nat → Prop where
  | absent : ScaleFor mapping dimension 0 0
  | above : mapping.numerator.dimension = dimension →
      ScaleFor mapping dimension 1 mapping.numerator.code
  | below {scale : Scale} : mapping.denominator = some scale → scale.dimension = dimension →
      ScaleFor mapping dimension (-1) scale.code

/-- The dimension word of a mapping says of a unit what is so. -/
structure States (mapping : UnitMapping) (unit : PhysicalUnit) : Prop where
  exponents : ∀ dimension, signed (nibbleAt (exponentBit dimension) mapping.dimensionWord) =
    (exponentIn dimension unit).toInt
  scales : ∀ dimension, ScaleFor mapping dimension (exponentIn dimension unit).toInt
    (nibbleAt (scaleBit dimension) mapping.dimensionWord)
  unused : mapping.dimensionWord.toNat % 2 ^ 8 = 0

theorem HasShape.dimension_cases {above : Dimension} {below : Option Dimension}
    (h : HasShape unit above below) (dimension : Dimension) :
    ((exponentIn dimension unit).toInt = 1 ∧ above = dimension ∧ below ≠ some dimension) ∨
    ((exponentIn dimension unit).toInt = -1 ∧ above ≠ dimension ∧ below = some dimension) ∨
    ((exponentIn dimension unit).toInt = 0 ∧ above ≠ dimension ∧ below ≠ some dimension) := by
  rw [h.exponents]
  by_cases habove : above = dimension
  · have hbelow : below ≠ some dimension := habove ▸ h.apart
    rw [if_pos habove, if_neg hbelow]
    exact .inl ⟨rfl, habove, hbelow⟩
  · rw [if_neg habove]
    by_cases hbelow : below = some dimension
    · rw [if_pos hbelow]
      exact .inr (.inl ⟨rfl, habove, hbelow⟩)
    · rw [if_neg hbelow]
      exact .inr (.inr ⟨rfl, habove, hbelow⟩)

theorem HasShape.exponent_eq (h : HasShape unit mapping.numerator.dimension
    (mapping.denominator.map Scale.dimension)) (dimension : Dimension) :
    signed (nibbleAt (exponentBit dimension) mapping.dimensionWord) =
      (exponentIn dimension unit).toInt := by
  rw [nibbleAt_exponentBit]
  rcases h.dimension_cases dimension with
    ⟨hexponent, habove, hbelow⟩ | ⟨hexponent, habove, hbelow⟩ | ⟨hexponent, habove, hbelow⟩
  · rw [hexponent, fieldOf_some habove, fieldOf_eq_zero hbelow]
    rfl
  · obtain ⟨scale, hscale, hdimension⟩ := Option.map_eq_some_iff.mp hbelow
    rw [hexponent, fieldOf_some_of_ne habove, hscale, fieldOf_some hdimension]
    rfl
  · rw [hexponent, fieldOf_some_of_ne habove, fieldOf_eq_zero hbelow]
    rfl

theorem HasShape.scaleFor (h : HasShape unit mapping.numerator.dimension
    (mapping.denominator.map Scale.dimension)) (dimension : Dimension) :
    ScaleFor mapping dimension (exponentIn dimension unit).toInt
      (nibbleAt (scaleBit dimension) mapping.dimensionWord) := by
  rw [nibbleAt_scaleBit]
  rcases h.dimension_cases dimension with
    ⟨hexponent, habove, hbelow⟩ | ⟨hexponent, habove, hbelow⟩ | ⟨hexponent, habove, hbelow⟩
  · rw [hexponent, fieldOf_some habove, fieldOf_eq_zero hbelow, Nat.or_zero]
    exact .above habove
  · obtain ⟨scale, hscale, hdimension⟩ := Option.map_eq_some_iff.mp hbelow
    rw [hexponent, fieldOf_some_of_ne habove, hscale, fieldOf_some hdimension, Nat.zero_or]
    exact .below hscale hdimension
  · rw [hexponent, fieldOf_some_of_ne habove, fieldOf_eq_zero hbelow]
    exact .absent

theorem HasShape.states (h : HasShape unit mapping.numerator.dimension
    (mapping.denominator.map Scale.dimension)) : States mapping unit where
  exponents := h.exponent_eq
  scales := h.scaleFor
  unused := toNat_dimensionWord_mod mapping

theorem scales_of_mem_entries (h : mapping ∈ entries) :
    mapping.numerator.dimension = mapping.shape.numerator ∧
      mapping.denominator.map Scale.dimension = mapping.shape.denominator := by
  obtain ⟨shape, -, hmem⟩ := List.mem_flatMap.mp h
  obtain ⟨above, below, rfl, habove, hbelow⟩ := exists_of_mem_ofShape hmem
  exact ⟨habove, hbelow⟩

theorem denominator_ne_numerator (shape : Shape) : shape.denominator ≠ some shape.numerator := by
  cases shape <;> decide

theorem toInt_shapeExponent (dimension : Dimension) (shape : Shape) :
    (shapeExponent dimension shape).toInt = (if shape.numerator = dimension then 1 else 0) -
      if shape.denominator = some dimension then 1 else 0 := by
  rw [shapeExponent]
  split <;> split <;> rfl

theorem hasShape_of_classify (h : unit.classify ≠ .fallback) :
    HasShape unit unit.classify.mapping.numerator.dimension
      (unit.classify.mapping.denominator.map Scale.dimension) := by
  obtain ⟨habove, hbelow⟩ := scales_of_mem_entries (agrees_of_classify h).1
  rw [habove, hbelow]
  refine ⟨denominator_ne_numerator _, fun dimension => ?_⟩
  rw [exponentIn_of_classify h, toInt_shapeExponent]

/-- What the dimension word tells a reader. -/
structure Truthful (unit : PhysicalUnit) : Prop where
  mapped : unit.classify = .fallback ∨ States unit.classify.mapping unit
  /-- There are nine shapes: one of three dimensions alone or above one of the other two. -/
  shapeless : (¬ ∃ above below, HasShape unit above below) →
    unit.classify = .fallback ∧ unit.classify.mapping = plainCount

/-- A unit is classified as the fallback, or the word of its mapping states the exponents of the
unit and the scales of the mapping, and nothing else. -/
theorem truthful (unit : PhysicalUnit) : Truthful unit where
  mapped := by
    by_cases h : unit.classify = .fallback
    · exact .inl h
    · exact .inr (hasShape_of_classify h).states
  shapeless hnone := by
    have hfallback : unit.classify = .fallback := by
      by_contra h
      exact hnone ⟨_, _, hasShape_of_classify h⟩
    exact ⟨hfallback, congrArg Classification.mapping hfallback⟩

end Shapes

end MappedMetrics.Proofs.DimensionWords
