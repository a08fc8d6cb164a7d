import MappedMetrics.Decimal.Shortest

namespace MappedMetrics.Decimal

/-- The decisions of one way to write numbers: the scale is the exponent of ten of the first
digit, and numbers whose scale is in range are written without an exponent. -/
structure DecimalStyle where
  positional : Int → Bool
  /-- Whether a whole number written without an exponent ends in a point and a zero. -/
  pointZero : Bool
  /-- Whether an exponent that is not negative has a plus sign. -/
  plusSign : Bool
  tie : Tie
  infinity : String
  nan : String

/-- A double or a single, as its format, sign and magnitude code. -/
structure BinaryNumber where
  format : BinaryFormat
  negative : Bool
  code : Nat

def BinaryNumber.ofDouble (bits : UInt64) : BinaryNumber :=
  ⟨binary64, bits.toNat / 2 ^ 63 == 1, bits.toNat % 2 ^ 63⟩

def BinaryNumber.ofSingle (bits : UInt32) : BinaryNumber :=
  ⟨binary32, bits.toNat / 2 ^ 31 == 1, bits.toNat % 2 ^ 31⟩

def digitChars (n : Nat) : List Char :=
  Nat.toDigits 10 n

def DecimalStyle.wholeEnd (style : DecimalStyle) : List Char :=
  if style.pointZero then ['.', '0'] else []

/-- Digits times a power of ten, without an exponent. -/
def DecimalStyle.positionalText (style : DecimalStyle) (digits : List Char) (exponent : Int) :
    List Char :=
  if 0 ≤ exponent then digits ++ (List.replicate exponent.toNat '0' ++ style.wholeEnd)
  else
    let places := (-exponent).toNat
    if digits.length ≤ places then
      '0' :: '.' :: (List.replicate (places - digits.length) '0' ++ digits)
    else
      digits.take (digits.length - places) ++ '.' :: digits.drop (digits.length - places)

/-- One digit before the point, then the exponent of ten of that digit. -/
def DecimalStyle.scientificText (style : DecimalStyle) (digits : List Char) (scale : Int) :
    List Char :=
  let fraction := if digits.length ≤ 1 then [] else '.' :: digits.drop 1
  let sign := if scale < 0 then ['-'] else if style.plusSign then ['+'] else []
  digits.take 1 ++ (fraction ++ 'e' :: (sign ++ digitChars scale.natAbs))

def DecimalStyle.render (style : DecimalStyle) (x : BinaryNumber) : List Char :=
  let sign := if x.negative then ['-'] else []
  if x.format.infinityCode < x.code then style.nan.toList
  else if x.format.infinityCode = x.code then sign ++ style.infinity.toList
  else if x.code = 0 then sign ++ '0' :: style.wholeEnd
  else
    let (value, exponent) := shortest x.format style.tie x.code
    let digits := digitChars value
    let scale := exponent + digits.length - 1
    sign ++
      if style.positional scale then style.positionalText digits exponent
      else style.scientificText digits scale

end MappedMetrics.Decimal
