import MappedMetrics.Proofs.UnitClassification

namespace MappedMetrics.Proofs.UnitExponents

open MappedMetrics
open MappedMetrics.UnitTable
open MappedMetrics.Proofs.UnitClassification

/-- The exponent of a dimension in a unit. -/
def exponentIn (dimension : Dimension) (unit : PhysicalUnit) : Int8 :=
  match dimension with
  | .space => unit.space
  | .time => unit.time
  | .count => unit.count

theorem forall_dimension {p : Dimension → Prop} :
    (∀ dimension, p dimension) ↔ (p .space ∧ p .time) ∧ p .count := by
  constructor
  · intro h
    exact ⟨⟨h .space, h .time⟩, h .count⟩
  · rintro ⟨⟨hspace, htime⟩, hcount⟩ dimension
    cases dimension <;> assumption

theorem exponentIn_ofScale (dimension : Dimension) (scale : Scale) :
    exponentIn dimension (PhysicalUnit.ofScale scale) =
      if scale.dimension = dimension then 1 else 0 := by
  cases scale <;> cases dimension <;> rfl

theorem exponentIn_times (dimension : Dimension) (unit : PhysicalUnit) (k : Float) :
    exponentIn dimension (unit.times k) = exponentIn dimension unit := by
  cases dimension <;> rfl

theorem exponentIn_per (dimension : Dimension) (u v : PhysicalUnit) :
    exponentIn dimension (u.per v) = exponentIn dimension u - exponentIn dimension v := by
  cases dimension <;> rfl

theorem exponentIn_product (dimension : Dimension) (u v : PhysicalUnit) :
    exponentIn dimension (u.product v) = exponentIn dimension u + exponentIn dimension v := by
  cases dimension <;> rfl

theorem bmod_of_fits {n : Int} (h : PhysicalUnit.fitsByte n = true) : n.bmod (2 ^ 8) = n := by
  simp only [PhysicalUnit.fitsByte, Bool.and_eq_true, decide_eq_true_eq] at h
  exact Int.bmod_eq_of_le h.1 (Int.lt_add_one_of_le h.2)

theorem per?_eq_some_iff {u v unit : PhysicalUnit} : u.per? v = some unit ↔
    (∀ dimension, PhysicalUnit.fitsByte
      ((exponentIn dimension u).toInt - (exponentIn dimension v).toInt) = true) ∧
      u.per v = unit := by
  simp only [PhysicalUnit.per?, Option.ite_none_right_eq_some, Bool.and_eq_true,
    Option.some.injEq, forall_dimension, exponentIn]

theorem product?_eq_some_iff {u v unit : PhysicalUnit} : u.product? v = some unit ↔
    (∀ dimension, PhysicalUnit.fitsByte
      ((exponentIn dimension u).toInt + (exponentIn dimension v).toInt) = true) ∧
      u.product v = unit := by
  simp only [PhysicalUnit.product?, Option.ite_none_right_eq_some, Bool.and_eq_true,
    Option.some.injEq, forall_dimension, exponentIn]

/-- An expression for a unit. -/
inductive Construction where
  | constant (dimension : Dimension)
  | canonical (scale : Scale)
  | times (unit : Construction) (k : Float)
  | per (above below : Construction)
  | product (first second : Construction)

def constantUnit : Dimension → PhysicalUnit
  | .space => PhysicalUnit.byte
  | .time => PhysicalUnit.second
  | .count => PhysicalUnit.item

theorem exponentIn_constantUnit (dimension other : Dimension) :
    exponentIn dimension (constantUnit other) = if other = dimension then 1 else 0 := by
  cases other <;> cases dimension <;> rfl

namespace Construction

/-- The unit of an expression, absent where an exponent leaves the range of a byte. -/
def unit? : Construction → Option PhysicalUnit
  | .constant dimension => some (constantUnit dimension)
  | .canonical scale => some (PhysicalUnit.ofScale scale)
  | .times unit k => do
      let unit ← unit.unit?
      some (unit.times k)
  | .per above below => do
      let above ← above.unit?
      let below ← below.unit?
      above.per? below
  | .product first second => do
      let first ← first.unit?
      let second ← second.unit?
      first.product? second

/-- The unit of an expression where exponents wrap around. -/
def wrapped : Construction → PhysicalUnit
  | .constant dimension => constantUnit dimension
  | .canonical scale => PhysicalUnit.ofScale scale
  | .times unit k => unit.wrapped.times k
  | .per above below => above.wrapped.per below.wrapped
  | .product first second => first.wrapped.product second.wrapped

/-- The exponent of a dimension in an expression, where numbers have no bound. -/
def exponent (dimension : Dimension) : Construction → Int
  | .constant other => if other = dimension then 1 else 0
  | .canonical scale => if scale.dimension = dimension then 1 else 0
  | .times unit _ => unit.exponent dimension
  | .per above below => above.exponent dimension - below.exponent dimension
  | .product first second => first.exponent dimension + second.exponent dimension

/-- The exponents of an expression and of all its parts fit a byte. -/
def Fits : Construction → Prop
  | .constant _ => True
  | .canonical _ => True
  | .times unit _ => unit.Fits
  | .per above below => above.Fits ∧ below.Fits ∧
      ∀ dimension, PhysicalUnit.fitsByte ((above.per below).exponent dimension) = true
  | .product first second => first.Fits ∧ second.Fits ∧
      ∀ dimension, PhysicalUnit.fitsByte ((first.product second).exponent dimension) = true

/-- The number of constants and scales in an expression. -/
def leaves : Construction → Nat
  | .constant _ => 1
  | .canonical _ => 1
  | .times unit _ => unit.leaves
  | .per above below => above.leaves + below.leaves
  | .product first second => first.leaves + second.leaves

theorem toInt_wrapped (construction : Construction) (dimension : Dimension) :
    (exponentIn dimension construction.wrapped).toInt =
      (construction.exponent dimension).bmod (2 ^ 8) := by
  induction construction with
  | constant other =>
      rw [wrapped, exponentIn_constantUnit, exponent]
      split <;> rfl
  | canonical scale =>
      rw [wrapped, exponentIn_ofScale, exponent]
      split <;> rfl
  | times unit k ih => rw [wrapped, exponentIn_times, exponent, ih]
  | per above below ihabove ihbelow =>
      rw [wrapped, exponentIn_per, Int8.toInt_sub, ihabove, ihbelow, Int.bmod_sub_bmod,
        Int.sub_bmod_bmod, exponent]
  | product first second ihfirst ihsecond =>
      rw [wrapped, exponentIn_product, Int8.toInt_add, ihfirst, ihsecond, Int.bmod_add_bmod,
        Int.add_bmod_bmod, exponent]

theorem Fits.fitsByte {construction : Construction} (h : construction.Fits)
    (dimension : Dimension) :
    PhysicalUnit.fitsByte (construction.exponent dimension) = true := by
  induction construction with
  | constant other =>
      rw [exponent]
      split <;> rfl
  | canonical scale =>
      rw [exponent]
      split <;> rfl
  | times unit k ih => exact ih h
  | per above below => exact h.2.2 dimension
  | product first second => exact h.2.2 dimension

theorem Fits.toInt_wrapped {construction : Construction} (h : construction.Fits)
    (dimension : Dimension) :
    (exponentIn dimension construction.wrapped).toInt = construction.exponent dimension := by
  rw [Construction.toInt_wrapped, bmod_of_fits (h.fitsByte dimension)]

theorem Fits.forall_fitsByte_iff {first second : Construction} (hfirst : first.Fits)
    (hsecond : second.Fits) (op : Int → Int → Int) :
    (∀ dimension, PhysicalUnit.fitsByte (op (exponentIn dimension first.wrapped).toInt
      (exponentIn dimension second.wrapped).toInt) = true) ↔
      ∀ dimension, PhysicalUnit.fitsByte
        (op (first.exponent dimension) (second.exponent dimension)) = true := by
  simp only [hfirst.toInt_wrapped, hsecond.toInt_wrapped]

theorem unit?_eq_some_iff {construction : Construction} {unit : PhysicalUnit} :
    construction.unit? = some unit ↔ construction.Fits ∧ unit = construction.wrapped := by
  induction construction generalizing unit with
  | constant dimension => simp only [unit?, Fits, wrapped, Option.some.injEq, true_and, eq_comm]
  | canonical scale => simp only [unit?, Fits, wrapped, Option.some.injEq, true_and, eq_comm]
  | times inner k ih =>
      simp only [unit?, Option.bind_eq_bind, Option.bind_eq_some_iff, ih, Option.some.injEq]
      constructor
      · rintro ⟨-, ⟨hinner, rfl⟩, rfl⟩
        exact ⟨hinner, rfl⟩
      · rintro ⟨hinner, rfl⟩
        exact ⟨_, ⟨hinner, rfl⟩, rfl⟩
  | per above below ihabove ihbelow =>
      simp only [unit?, Option.bind_eq_bind, Option.bind_eq_some_iff, ihabove, ihbelow,
        per?_eq_some_iff]
      constructor
      · rintro ⟨-, ⟨habove, rfl⟩, -, ⟨hbelow, rfl⟩, hfits, rfl⟩
        exact ⟨⟨habove, hbelow, (habove.forall_fitsByte_iff hbelow (· - ·)).mp hfits⟩, rfl⟩
      · rintro ⟨⟨habove, hbelow, hfits⟩, rfl⟩
        exact ⟨_, ⟨habove, rfl⟩, _, ⟨hbelow, rfl⟩,
          (habove.forall_fitsByte_iff hbelow (· - ·)).mpr hfits, rfl⟩
  | product first second ihfirst ihsecond =>
      simp only [unit?, Option.bind_eq_bind, Option.bind_eq_some_iff, ihfirst, ihsecond,
        product?_eq_some_iff]
      constructor
      · rintro ⟨-, ⟨hfirst, rfl⟩, -, ⟨hsecond, rfl⟩, hfits, rfl⟩
        exact ⟨⟨hfirst, hsecond, (hfirst.forall_fitsByte_iff hsecond (· + ·)).mp hfits⟩, rfl⟩
      · rintro ⟨⟨hfirst, hsecond, hfits⟩, rfl⟩
        exact ⟨_, ⟨hfirst, rfl⟩, _, ⟨hsecond, rfl⟩,
          (hfirst.forall_fitsByte_iff hsecond (· + ·)).mpr hfits, rfl⟩

theorem natAbs_exponent_le (construction : Construction) (dimension : Dimension) :
    (construction.exponent dimension).natAbs ≤ construction.leaves := by
  induction construction with
  | constant other =>
      rw [exponent, leaves]
      split <;> decide
  | canonical scale =>
      rw [exponent, leaves]
      split <;> decide
  | times unit k ih => exact ih
  | per above below ihabove ihbelow =>
      exact Nat.le_trans (Int.natAbs_sub_le _ _) (Nat.add_le_add ihabove ihbelow)
  | product first second ihfirst ihsecond =>
      exact Nat.le_trans (Int.natAbs_add_le _ _) (Nat.add_le_add ihfirst ihsecond)

theorem fitsByte_of_leaves {construction : Construction} (h : construction.leaves ≤ 127)
    (dimension : Dimension) :
    PhysicalUnit.fitsByte (construction.exponent dimension) = true := by
  have hle := construction.natAbs_exponent_le dimension
  simp only [PhysicalUnit.fitsByte, Bool.and_eq_true, decide_eq_true_eq]
  omega

theorem fits_of_leaves {construction : Construction} (h : construction.leaves ≤ 127) :
    construction.Fits := by
  induction construction with
  | constant dimension => trivial
  | canonical scale => trivial
  | times unit k ih => exact ih h
  | per above below ihabove ihbelow =>
      exact ⟨ihabove (Nat.le_trans (Nat.le_add_right _ _) h),
        ihbelow (Nat.le_trans (Nat.le_add_left _ _) h), fitsByte_of_leaves h⟩
  | product first second ihfirst ihsecond =>
      exact ⟨ihfirst (Nat.le_trans (Nat.le_add_right _ _) h),
        ihsecond (Nat.le_trans (Nat.le_add_left _ _) h), fitsByte_of_leaves h⟩

end Construction

/-- The exponent of a dimension in all units of a shape. -/
def shapeExponent (dimension : Dimension) (shape : Shape) : Int8 :=
  (if shape.numerator = dimension then 1 else 0) -
    if shape.denominator = some dimension then 1 else 0

theorem exponentIn_ofScales {shape : Shape} {above : Scale} {below : Option Scale}
    (habove : above.dimension = shape.numerator)
    (hbelow : below.map Scale.dimension = shape.denominator) (dimension : Dimension) :
    exponentIn dimension (UnitMapping.ofScales shape above below).unit =
      shapeExponent dimension shape := by
  rw [shapeExponent, ← habove, ← hbelow]
  cases below with
  | none => exact (exponentIn_ofScale dimension above).trans (Int8.sub_zero _).symm
  | some scale =>
      simp only [UnitMapping.ofScales, exponentIn_per, exponentIn_ofScale, Option.map_some,
        Option.some.injEq]

theorem exponentIn_of_mem_entries {entry : UnitMapping} (h : entry ∈ entries)
    (dimension : Dimension) :
    exponentIn dimension entry.unit = shapeExponent dimension entry.shape := by
  obtain ⟨shape, -, hmem⟩ := List.mem_flatMap.mp h
  obtain ⟨above, below, rfl, habove, hbelow⟩ := exists_of_mem_ofShape hmem
  exact exponentIn_ofScales habove hbelow dimension

theorem exponentIn_of_beq {u v : PhysicalUnit} (h : (u == v) = true) (dimension : Dimension) :
    exponentIn dimension u = exponentIn dimension v := by
  obtain ⟨hspace, htime, hcount, -⟩ := fields_of_beq h
  cases dimension <;> assumption

theorem exponentIn_of_isEquivalent {u v : PhysicalUnit} (h : u.isEquivalent v = true)
    (dimension : Dimension) : exponentIn dimension u = exponentIn dimension v := by
  simp only [PhysicalUnit.isEquivalent, Bool.and_eq_true, beq_iff_eq] at h
  obtain ⟨⟨⟨hspace, htime⟩, hcount⟩, -⟩ := h
  cases dimension <;> assumption

/-- Short of the fallback, a unit has the exponents of the shape that it is classified as. -/
theorem exponentIn_of_classify {unit : PhysicalUnit} (h : unit.classify ≠ .fallback)
    (dimension : Dimension) :
    exponentIn dimension unit = shapeExponent dimension unit.classify.mapping.shape := by
  obtain ⟨hmem, hagrees⟩ := agrees_of_classify h
  rw [← exponentIn_of_mem_entries hmem]
  rcases hagrees with hequal | hequivalent
  · exact (exponentIn_of_beq hequal dimension).symm
  · exact (exponentIn_of_isEquivalent hequivalent dimension).symm

theorem isDimensionless_iff {unit : PhysicalUnit} :
    unit.isDimensionless = true ↔ ∀ dimension, (exponentIn dimension unit).toInt = 0 := by
  have hzero : ∀ n : Int8, n.toInt = 0 ↔ n = 0 := fun n => Int8.toInt_inj (y := 0)
  simp only [PhysicalUnit.isDimensionless, Bool.and_eq_true, beq_iff_eq, forall_dimension,
    exponentIn, hzero]

/-- What the exponents of an expression's unit are. -/
structure ExactExponents (construction : Construction) : Prop where
  /-- There is a unit unless an exponent leaves the range of a byte on the way. -/
  built : (∃ unit, construction.unit? = some unit) ↔ construction.Fits
  /-- No exponent of a short expression leaves the range of a byte. -/
  short : construction.leaves ≤ 127 → construction.Fits
  exact : ∀ unit, construction.unit? = some unit →
    ∀ dimension, (exponentIn dimension unit).toInt = construction.exponent dimension
  dimensionless : ∀ unit, construction.unit? = some unit →
    (unit.isDimensionless = true ↔ ∀ dimension, construction.exponent dimension = 0)
  classified : ∀ unit, construction.unit? = some unit → unit.classify ≠ .fallback →
    ∀ dimension, construction.exponent dimension =
      (shapeExponent dimension unit.classify.mapping.shape).toInt
  bytes : ∀ unit, construction.unit? = some unit → unit.classify.mapping.shape = .space →
    ∀ dimension, construction.exponent dimension = if dimension = .space then 1 else 0
  /-- Without the check the exponents are exact up to multiples of 256. -/
  wrapped : ∀ dimension, (exponentIn dimension construction.wrapped).toInt =
    (construction.exponent dimension).bmod (2 ^ 8)

/-- An expression has a unit if and only if no exponent leaves the range of a byte on the way, and
the exponents of the unit are then the exact ones. -/
theorem exactExponents (construction : Construction) : ExactExponents construction := by
  have hexact : ∀ unit, construction.unit? = some unit →
      ∀ dimension, (exponentIn dimension unit).toInt = construction.exponent dimension := by
    intro unit hunit
    obtain ⟨hfits, rfl⟩ := Construction.unit?_eq_some_iff.mp hunit
    exact hfits.toInt_wrapped
  have hclassified : ∀ unit, construction.unit? = some unit → unit.classify ≠ .fallback →
      ∀ dimension, construction.exponent dimension =
        (shapeExponent dimension unit.classify.mapping.shape).toInt := by
    intro unit hunit hclass dimension
    rw [← hexact unit hunit, exponentIn_of_classify hclass]
  refine
    { built := ?_
      short := Construction.fits_of_leaves
      exact := hexact
      dimensionless := ?_
      classified := hclassified
      bytes := ?_
      wrapped := construction.toInt_wrapped }
  · constructor
    · rintro ⟨unit, hunit⟩
      exact (Construction.unit?_eq_some_iff.mp hunit).1
    · intro hfits
      exact ⟨_, Construction.unit?_eq_some_iff.mpr ⟨hfits, rfl⟩⟩
  · intro unit hunit
    rw [isDimensionless_iff]
    simp only [hexact unit hunit]
  · intro unit hunit hshape dimension
    have hclass : unit.classify ≠ .fallback := by
      intro hfallback
      rw [hfallback] at hshape
      cases hshape
    rw [hclassified unit hunit hclass, hshape]
    cases dimension <;> rfl

/-- The byte to the power of a power of two. -/
def doubled : Nat → Construction
  | 0 => .constant .space
  | n + 1 => .product (doubled n) (doubled n)

/-- Not every expression has a unit, and without the check exponents are not exact. -/
theorem not_exact_doubled :
    (¬ ∀ construction : Construction, ∃ unit, construction.unit? = some unit ∧
      ∀ dimension, (exponentIn dimension unit).toInt = construction.exponent dimension) ∧
    ¬ ∀ construction : Construction, construction.wrapped.isDimensionless = true →
      ∀ dimension, construction.exponent dimension = 0 := by
  constructor
  · intro h
    obtain ⟨unit, hunit, -⟩ := h (doubled 7)
    have hnone : (doubled 7).unit? = none := rfl
    rw [hnone] at hunit
    cases hunit
  · intro h
    have hzero : (doubled 8).wrapped.isDimensionless = true := rfl
    have hexponent : (doubled 8).exponent .space = 256 := rfl
    rw [h (doubled 8) hzero] at hexponent
    cases hexponent

end MappedMetrics.Proofs.UnitExponents
