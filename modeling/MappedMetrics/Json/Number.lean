import MappedMetrics.Json
import MappedMetrics.Decimal.Reader
import MappedMetrics.Decimal.Style

/-!
Numbers of JSON text: which literals are integers, which double a literal stands for, and how
doubles and singles are written.
-/

namespace MappedMetrics.Json

open MappedMetrics.Decimal

/-- Numbers with a scale from -5 to 15 are written without an exponent. -/
def doubleStyle : DecimalStyle where
  positional scale := -5 ≤ scale && scale < 16
  pointZero := true
  plusSign := true
  tie := .even
  infinity := "null"
  nan := "null"

/-- Numbers with a scale from -6 to 12 are written without an exponent. -/
def singleStyle : DecimalStyle :=
  { doubleStyle with positional := fun scale => -6 ≤ scale && scale < 13 }

/-- A double, where infinities and NaN have no number to stand for them. -/
def ofDouble (bits : UInt64) : Json :=
  let x := BinaryNumber.ofDouble bits
  if x.code < binary64.infinityCode then .number (String.ofList (doubleStyle.render x)) else .null

/-- A single, where infinities and NaN have no number to stand for them. -/
def ofSingle (bits : UInt32) : Json :=
  let x := BinaryNumber.ofSingle bits
  if x.code < binary32.infinityCode then .number (String.ofList (singleStyle.render x)) else .null

structure Numeral where
  negative : Bool
  whole : List Char
  /-- The digits after the point, if there is one. -/
  fraction : Option (List Char)
  /-- The sign and the digits of the exponent, if there is one. -/
  exponent : Option (Bool × List Char)

def Numeral.ofLiteral (literal : String) : Numeral :=
  let text := literal.toList
  let negative := text.head? == some '-'
  let text := if negative then text.drop 1 else text
  let whole := text.takeWhile isDigit
  let text := text.dropWhile isDigit
  let (fraction, text) :=
    match text with
    | '.' :: rest => (some (rest.takeWhile isDigit), rest.dropWhile isDigit)
    | _ => (none, text)
  let exponent :=
    match text with
    | _ :: rest => some (splitSign rest)
    | [] => none
  ⟨negative, whole, fraction, exponent⟩

def maxSignificand : Nat := 2 ^ 64 - 1

def maxExponent : Nat := 2 ^ 31 - 1

/-- The number that the leading digits spell, as far as it stays within `limit`, and the count of
the digits left over. -/
def accumulate (limit : Nat) : Nat → List Char → Nat × Nat
  | n, [] => (n, 0)
  | n, c :: rest =>
      let next := 10 * n + (digit? c).getD 0
      if next ≤ limit then accumulate limit next rest else (n, rest.length + 1)

/-- The double nearest to a power of ten. -/
def powerOfTen (exponent : Nat) : Float :=
  Float.ofBits (UInt64.ofNat (binary64.ofDecimal 1 exponent))

/-- A double times a power of ten, by one multiplication or by divisions through powers that a
double holds; absent where the product is too great. -/
def scaled? (x : Float) (exponent : Int) : Option Float :=
  if 0 ≤ exponent then
    if exponent ≤ 308 then
      let product := x * powerOfTen exponent.toNat
      if product.isInf then none else some product
    else if x == 0 then some x
    else none
  else if -308 ≤ exponent then some (x / powerOfTen (-exponent).toNat)
  else if x == 0 then some x
  else scaled? (x / powerOfTen 308) (exponent + 308)
termination_by (-exponent).toNat
decreasing_by omega

/-- The magnitude of a literal as a double. As many leading digits as fit into 64 bits are kept,
so the last bit may differ from the nearest double of a long literal. -/
def Numeral.magnitude? (x : Numeral) : Option Float := do
  let (high, extra) := accumulate maxSignificand 0 x.whole
  let fraction := x.fraction.getD []
  let (significand, ignored) := accumulate maxSignificand high fraction
  let start : Int := extra - (fraction.length - ignored : Nat)
  let mantissa := (UInt64.ofNat significand).toFloat
  match x.exponent with
  | none => scaled? mantissa start
  | some (negative, digits) =>
      let (exponent, excess) := accumulate maxExponent 0 digits
      if excess = 0 then
        let shifted := if negative then start - exponent else start + exponent
        scaled? mantissa (max (-2 ^ 31) (min (2 ^ 31 - 1) shifted))
      else if significand ≠ 0 && !negative then none
      else some 0

/-- What a literal stands for: an integer that 64 bits hold, or a double. -/
inductive Number where
  | integer (n : Int)
  | double (bits : UInt64)

def Numeral.double? (x : Numeral) : Option Number :=
  x.magnitude?.map fun magnitude => .double (if x.negative then -magnitude else magnitude).toBits

/-- The number of a literal, absent where it is too great for a double. Negative zero and whole
numbers beyond 64 bits are doubles. -/
def Number.ofLiteral? (literal : String) : Option Number :=
  let x := Numeral.ofLiteral literal
  let n := digitsValue x.whole
  if x.fraction.isSome || x.exponent.isSome then x.double?
  else if x.negative then
    if 0 < n ∧ n ≤ 2 ^ 63 then some (.integer (-n)) else x.double?
  else if n < 2 ^ 64 then some (.integer n)
  else x.double?

/-- The double nearest to a number. -/
def Number.toDouble : Number → UInt64
  | .integer n =>
      UInt64.ofNat ((if n < 0 then binary64.signWeight else 0) + binary64.roundQuotient n.natAbs 1)
  | .double bits => bits

/-- The single nearest to a number. -/
def Number.toSingle : Number → UInt32
  | .integer n =>
      UInt32.ofNat ((if n < 0 then binary32.signWeight else 0) + binary32.roundQuotient n.natAbs 1)
  | .double bits => narrow bits

end MappedMetrics.Json
