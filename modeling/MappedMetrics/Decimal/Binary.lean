/-!
Binary floating-point formats. A magnitude is kept as its code, the number that the exponent and
fraction bits spell together, so that codes are ordered as the values they stand for.
-/

namespace MappedMetrics.Decimal

/-- How many bits a binary format gives to the exponent and to the fraction. -/
structure BinaryFormat where
  exponentBits : Nat
  fractionBits : Nat

def binary32 : BinaryFormat := ⟨8, 23⟩

def binary64 : BinaryFormat := ⟨11, 52⟩

/-- The quotient rounded to the nearest whole number, a half to the even one. -/
def roundDiv (numerator denominator : Nat) : Nat :=
  let quotient := numerator / denominator
  let twice := 2 * (numerator % denominator)
  if twice < denominator then quotient
  else if denominator < twice then quotient + 1
  else quotient + quotient % 2

namespace BinaryFormat

/-- The exponent of the least unit of all values. -/
def minExponent (f : BinaryFormat) : Int :=
  2 - 2 ^ (f.exponentBits - 1) - f.fractionBits

/-- The code of infinity, above the codes of all finite magnitudes. -/
def infinityCode (f : BinaryFormat) : Nat :=
  (2 ^ f.exponentBits - 1) * 2 ^ f.fractionBits

/-- The position of the sign bit. -/
def signWeight (f : BinaryFormat) : Nat :=
  2 ^ (f.exponentBits + f.fractionBits)

/-- The magnitude as a whole number and the exponent of two that it is multiplied by. -/
def decode (f : BinaryFormat) (code : Nat) : Nat × Int :=
  let shift := code / 2 ^ f.fractionBits
  if shift = 0 then (code, f.minExponent)
  else (2 ^ f.fractionBits + code % 2 ^ f.fractionBits, f.minExponent + (shift - 1 : Nat))

/-- The magnitude as a quotient of whole numbers. -/
def quotient (f : BinaryFormat) (code : Nat) : Nat × Nat :=
  let (m, q) := f.decode code
  (m * 2 ^ q.toNat, 2 ^ (-q).toNat)

end BinaryFormat

/-- The exponent of the greatest power of two that is not above a quotient. -/
def floorLog2 (numerator denominator : Nat) : Int :=
  let guess : Int := numerator.log2 - denominator.log2
  if denominator * 2 ^ guess.toNat ≤ numerator * 2 ^ (-guess).toNat then guess else guess - 1

namespace BinaryFormat

/-- The code of the magnitude nearest to a quotient, a tie to the even code, and infinity for
what lies too high. -/
def roundQuotient (f : BinaryFormat) (numerator denominator : Nat) : Nat :=
  if numerator = 0 then 0
  else
    let q := max f.minExponent (floorLog2 numerator denominator - f.fractionBits)
    let m := roundDiv (numerator * 2 ^ (-q).toNat) (denominator * 2 ^ q.toNat)
    min f.infinityCode ((q - f.minExponent).toNat * 2 ^ f.fractionBits + m)

/-- The code of the magnitude nearest to `digits * 10 ^ exponent`. Exponents so far out that the
answer is zero or infinity in every format here are answered without the power. -/
def ofDecimal (f : BinaryFormat) (digits : Nat) (exponent : Int) : Nat :=
  if digits = 0 then 0
  else if 400 < digits.log2 / 4 + exponent then f.infinityCode
  else if digits.log2 / 3 + exponent < -400 then 0
  else f.roundQuotient (digits * 10 ^ exponent.toNat) (10 ^ (-exponent).toNat)

end BinaryFormat

/-- The magnitude of a single as the code of a double. A NaN becomes a quiet one. -/
def widenCode (code : Nat) : Nat :=
  let shift := code / 2 ^ 23
  let fraction := code % 2 ^ 23
  if code = 0 then 0
  else if shift = 0 then (code.log2 + 873) * 2 ^ 52 + code * 2 ^ (52 - code.log2)
  else if shift < 255 then (shift + 896) * 2 ^ 52 + fraction * 2 ^ 29
  else if fraction = 0 then binary64.infinityCode
  else binary64.infinityCode + 2 ^ 51 + fraction % 2 ^ 22 * 2 ^ 29

/-- The double of the same value as a single. -/
def widen (bits : UInt32) : UInt64 :=
  UInt64.ofNat (bits.toNat / 2 ^ 31 * 2 ^ 63 + widenCode (bits.toNat % 2 ^ 31))

/-- The single nearest to a double that is not a NaN. -/
def narrow (bits : UInt64) : UInt32 :=
  let code := bits.toNat % 2 ^ 63
  let nearest :=
    if code < binary64.infinityCode then
      let (numerator, denominator) := binary64.quotient code
      binary32.roundQuotient numerator denominator
    else binary32.infinityCode
  UInt32.ofNat (bits.toNat / 2 ^ 63 * 2 ^ 31 + nearest)

/-- Whether the bits of a double are those of a NaN. -/
def isNaN (bits : UInt64) : Bool :=
  binary64.infinityCode < bits.toNat % 2 ^ 63

/-- Whether the bits of a single are those of a NaN. -/
def isNaN32 (bits : UInt32) : Bool :=
  binary32.infinityCode < bits.toNat % 2 ^ 31

end MappedMetrics.Decimal
