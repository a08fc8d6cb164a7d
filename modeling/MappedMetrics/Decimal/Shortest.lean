import MappedMetrics.Decimal.Binary

/-!
The shortest decimal that reads back as a given binary magnitude. For each count of digits the two
neighbours of the value on that decimal grid are tried, so the first grid with a hit has the fewest
digits.
-/

namespace MappedMetrics.Decimal

/-- Which of two equally near decimals is taken. -/
inductive Tie where
  | up
  | even
deriving DecidableEq, Repr

/-- The exponent of the greatest power of ten that is not above a quotient, found by trying the
exponents from `start` down. -/
def floorLog10From (numerator denominator : Nat) : Nat → Int → Int
  | 0, exponent => exponent
  | fuel + 1, exponent =>
      if denominator * 10 ^ exponent.toNat ≤ numerator * 10 ^ (-exponent).toNat then exponent
      else floorLog10From numerator denominator fuel (exponent - 1)

def floorLog10 (numerator denominator : Nat) : Int :=
  floorLog10From numerator denominator 3 (floorLog2 numerator denominator * 30103 / 100000 + 1)

/-- The nearer of the two neighbours of a value on the grid of multiples of `10 ^ exponent` that
reads back as `code`, if one does. -/
def neighbour? (f : BinaryFormat) (tie : Tie) (code : Nat) (exponent : Int) : Option Nat :=
  let (m, n) := f.quotient code
  let numerator := m * 10 ^ (-exponent).toNat
  let denominator := n * 10 ^ exponent.toNat
  let low := numerator / denominator
  let rest := numerator % denominator
  let high := if rest = 0 then low else low + 1
  let readsBack := fun digits => f.ofDecimal digits exponent == code
  let preferHigh :=
    denominator < 2 * rest || (denominator == 2 * rest && (tie == .up || low % 2 == 1))
  let (first, second) := if preferHigh then (high, low) else (low, high)
  if readsBack first then some first
  else if readsBack second then some second
  else none

/-- The first hit on the grids from the one at `exponent` on, each ten times as fine as the one
before; with no more grids to try, the value itself. -/
def shortestFrom (f : BinaryFormat) (tie : Tie) (code : Nat) : Nat → Int → Nat × Int
  | 0, _ =>
      let (m, n) := f.quotient code
      (m * 5 ^ n.log2, -n.log2)
  | fuel + 1, exponent =>
      match neighbour? f tie code exponent with
      | some digits => (digits, exponent)
      | none => shortestFrom f tie code fuel (exponent - 1)

/-- Moves trailing zeros of the digits into the exponent. -/
def stripZeros : Nat → Nat → Int → Nat × Int
  | 0, digits, exponent => (digits, exponent)
  | fuel + 1, digits, exponent =>
      if digits % 10 = 0 then stripZeros fuel (digits / 10) (exponent + 1) else (digits, exponent)

/-- The digits and the exponent of ten of the shortest decimal that reads back as a finite,
nonzero magnitude; of several of that length it is the nearest. -/
def shortest (f : BinaryFormat) (tie : Tie) (code : Nat) : Nat × Int :=
  let (numerator, denominator) := f.quotient code
  let (digits, exponent) := shortestFrom f tie code 17 (floorLog10 numerator denominator)
  stripZeros 20 digits exponent

end MappedMetrics.Decimal
