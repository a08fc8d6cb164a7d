import MappedMetrics.UnitMapping

namespace MappedMetrics

namespace UnitTable

/-- All mappings of a shape, ordered by the numerator's scale and then by the denominator's. -/
def ofShape (shape : Shape) : List UnitMapping :=
  shape.numerator.scales.flatMap fun numerator =>
    match shape.denominator with
    | none => [UnitMapping.ofScales shape numerator none]
    | some below =>
        below.scales.map fun denominator => UnitMapping.ofScales shape numerator (some denominator)

def entries : List UnitMapping :=
  Shape.all.flatMap ofShape

/-- The mapping of units that have no shape of their own. -/
def plainCount : UnitMapping :=
  UnitMapping.ofScales .count (.count .one) none

end UnitTable

inductive Classification where
  | exact (mapping : UnitMapping)
  | equivalent (mapping : UnitMapping)
  | fallback

def Classification.mapping : Classification → UnitMapping
  | .exact mapping => mapping
  | .equivalent mapping => mapping
  | .fallback => UnitTable.plainCount

/-- The entry that equals a unit, found by its symbol; else the first entry equivalent to it. -/
def PhysicalUnit.classify (unit : PhysicalUnit) : Classification :=
  let sameSymbol := UnitTable.entries.find? fun entry => entry.unit.symbol == unit.symbol
  match sameSymbol.filter fun entry => entry.unit == unit with
  | some entry => .exact entry
  | none =>
      match UnitTable.entries.find? fun entry => entry.unit.isEquivalent unit with
      | some entry => .equivalent entry
      | none => .fallback

end MappedMetrics
