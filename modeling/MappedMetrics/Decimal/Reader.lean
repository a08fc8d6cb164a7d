import MappedMetrics.Decimal.Binary

namespace MappedMetrics.Decimal

def digit? (c : Char) : Option Nat :=
  if '0' ≤ c ∧ c ≤ '9' then some (c.toNat - 48) else none

def isDigit (c : Char) : Bool :=
  (digit? c).isSome

/-- The number that a run of digits spells, other characters counting as zero. -/
def digitsValue (digits : List Char) : Nat :=
  digits.foldl (fun n c => 10 * n + (digit? c).getD 0) 0

/-- A sign, if there is one, and the rest. -/
def splitSign : List Char → Bool × List Char
  | '-' :: rest => (true, rest)
  | '+' :: rest => (false, rest)
  | text => (false, text)

/-- An exponent mark, an optional sign and at least one digit, up to the end of the text; no text
is the exponent zero. -/
def exponent? : List Char → Option Int
  | [] => some 0
  | mark :: text =>
      if mark = 'e' ∨ mark = 'E' then
        let (negative, digits) := splitSign text
        if digits.isEmpty || !digits.all isDigit then none
        else some (if negative then -(digitsValue digits : Int) else digitsValue digits)
      else none

/-- The digits and the exponent of ten of digits with an optional point and an optional exponent;
at least one digit stands before the exponent. -/
def decimal? (text : List Char) : Option (Nat × Int) := do
  let whole := text.takeWhile isDigit
  let afterWhole := text.dropWhile isDigit
  let (fraction, tail) :=
    match afterWhole with
    | '.' :: rest => (rest.takeWhile isDigit, rest.dropWhile isDigit)
    | _ => ([], afterWhole)
  if whole.isEmpty && fraction.isEmpty then none
  else
    let exponent ← exponent? tail
    some (digitsValue (whole ++ fraction), exponent - fraction.length)

def lower (text : List Char) : List Char :=
  text.map Char.toLower

/-- The bits of the double that a text names: a decimal, or infinity or NaN by name in any case,
with an optional sign. -/
def double? (text : List Char) : Option UInt64 := do
  let (negative, magnitude) := splitSign text
  let sign := if negative then binary64.signWeight else 0
  let named := lower magnitude
  if named = "inf".toList ∨ named = "infinity".toList then
    some (UInt64.ofNat (sign + binary64.infinityCode))
  else if named = "nan".toList then
    some (UInt64.ofNat (sign + binary64.infinityCode + 2 ^ 51))
  else
    let (digits, exponent) ← decimal? magnitude
    some (UInt64.ofNat (sign + binary64.ofDecimal digits exponent))

end MappedMetrics.Decimal
