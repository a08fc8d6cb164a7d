import MappedMetrics.PhysicalUnit.Scale
import MappedMetrics.Decimal.Style

namespace MappedMetrics

open MappedMetrics.Decimal

/-- A physical unit. The factor converts to the same product of bytes, seconds and items. -/
structure PhysicalUnit where
  space : Int8
  time : Int8
  count : Int8
  factor : Float
  symbol : String
deriving BEq

namespace PhysicalUnit

/-- The canonical unit of a scale. -/
def ofScale (scale : Scale) : PhysicalUnit :=
  match scale with
  | .space _ => ⟨1, 0, 0, scale.factor, scale.symbol⟩
  | .time _ => ⟨0, 1, 0, scale.factor, scale.symbol⟩
  | .count _ => ⟨0, 0, 1, scale.factor, scale.symbol⟩

def byte : PhysicalUnit := ⟨1, 0, 0, 1, "B"⟩

def second : PhysicalUnit := ⟨0, 1, 0, 1, "s"⟩

def item : PhysicalUnit := ⟨0, 0, 1, 1, "count"⟩

/-- Multipliers in symbols have no exponent and no point unless a fraction follows it. -/
def multiplierStyle : DecimalStyle where
  positional _ := true
  pointZero := false
  plusSign := false
  tie := .up
  infinity := "inf"
  nan := "NaN"

def multiplierText (k : Float) : String :=
  String.ofList (multiplierStyle.render (BinaryNumber.ofDouble k.toBits))

def times (u : PhysicalUnit) (k : Float) : PhysicalUnit :=
  { u with factor := u.factor * k, symbol := s!"{multiplierText k}*{u.symbol}" }

/-- The symbol below a stroke, in parentheses if it is itself a quotient or a product. -/
def denominatorSymbol (u : PhysicalUnit) : String :=
  if u.symbol.toList.any fun c => c == '/' || c == '.' then s!"({u.symbol})" else u.symbol

/-- The quotient of two units whose exponents have differences that fit a byte. -/
def per (u v : PhysicalUnit) : PhysicalUnit where
  space := u.space - v.space
  time := u.time - v.time
  count := u.count - v.count
  factor := u.factor / v.factor
  symbol := s!"{u.symbol}/{v.denominatorSymbol}"

/-- The product of two units whose exponents have sums that fit a byte. -/
def product (u v : PhysicalUnit) : PhysicalUnit where
  space := u.space + v.space
  time := u.time + v.time
  count := u.count + v.count
  factor := u.factor * v.factor
  symbol := s!"{u.symbol}.{v.symbol}"

/-- Whether a number is the value of a signed byte. -/
def fitsByte (n : Int) : Bool :=
  -128 ≤ n && n ≤ 127

/-- The quotient of two units, absent where an exponent leaves the range of a byte. -/
def per? (u v : PhysicalUnit) : Option PhysicalUnit :=
  if fitsByte (u.space.toInt - v.space.toInt) && fitsByte (u.time.toInt - v.time.toInt) &&
      fitsByte (u.count.toInt - v.count.toInt) then
    some (u.per v)
  else none

/-- The product of two units, absent where an exponent leaves the range of a byte. -/
def product? (u v : PhysicalUnit) : Option PhysicalUnit :=
  if fitsByte (u.space.toInt + v.space.toInt) && fitsByte (u.time.toInt + v.time.toInt) &&
      fitsByte (u.count.toInt + v.count.toInt) then
    some (u.product v)
  else none

def isDimensionless (u : PhysicalUnit) : Bool :=
  u.space == 0 && u.time == 0 && u.count == 0

/-- The relative difference up to which two factors count as the same. -/
def factorTolerance : Float := 1e-9

/-- Whether two units measure the same thing with no conversion between them. -/
def isEquivalent (u v : PhysicalUnit) : Bool :=
  u.space == v.space && u.time == v.time && u.count == v.count &&
    (u.factor / v.factor - 1).abs ≤ factorTolerance

end PhysicalUnit

end MappedMetrics
