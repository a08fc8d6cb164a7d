import MappedMetrics.Decimal.Style

namespace MappedMetrics

open MappedMetrics.Decimal

/-- A span of time. Its whole seconds fit into 64 bits. -/
structure Duration where
  nanoseconds : Nat
  nanoseconds_lt : nanoseconds < 2 ^ 64 * 10 ^ 9
deriving DecidableEq

namespace Duration

def ofSeconds (seconds : UInt64) : Duration where
  nanoseconds := seconds.toNat * 10 ^ 9
  nanoseconds_lt := Nat.mul_lt_mul_of_pos_right seconds.toNat_lt (by decide)

def seconds (d : Duration) : Nat :=
  d.nanoseconds / 10 ^ 9

/-- The nanoseconds beyond the last whole second. -/
def fraction (d : Duration) : Nat :=
  d.nanoseconds % 10 ^ 9

def microseconds (d : Duration) : Nat :=
  d.nanoseconds / 1000

/-- The span nearest to a double of seconds, a tie to the even count of nanoseconds; absent for
negative numbers, for NaN, and where the seconds do not fit into 64 bits. -/
def ofDouble? (bits : UInt64) : Option Duration :=
  let code := bits.toNat % 2 ^ 63
  let (numerator, denominator) := binary64.quotient code
  let nanoseconds := roundDiv (numerator * 10 ^ 9) denominator
  if 2 ^ 63 ≤ bits.toNat ∧ code ≠ 0 then none
  else if binary64.infinityCode ≤ code then none
  else if h : nanoseconds < 2 ^ 64 * 10 ^ 9 then some ⟨nanoseconds, h⟩
  else none

/-- The seconds as a double: whole seconds and the fraction are rounded on their own. -/
def toDouble (d : Duration) : UInt64 :=
  ((UInt64.ofNat d.seconds).toFloat + (UInt64.ofNat d.fraction).toFloat / 1e9).toBits

/-- A whole number and a fraction of `places` digits without its trailing zeros. -/
def decimalText (whole fraction places : Nat) : List Char :=
  let digits := digitChars fraction
  let padded := List.replicate (places - digits.length) '0' ++ digits
  let kept := (padded.reverse.dropWhile (· == '0')).reverse
  digitChars whole ++ if kept.isEmpty then [] else '.' :: kept

/-- A span in messages, in the greatest unit that it reaches. -/
def message (d : Duration) : String :=
  let n := d.fraction
  if 0 < d.seconds then String.ofList (decimalText d.seconds n 9) ++ "s"
  else if 10 ^ 6 ≤ n then String.ofList (decimalText (n / 10 ^ 6) (n % 10 ^ 6) 6) ++ "ms"
  else if 10 ^ 3 ≤ n then String.ofList (decimalText (n / 10 ^ 3) (n % 10 ^ 3) 3) ++ "µs"
  else String.ofList (digitChars n) ++ "ns"

end Duration

end MappedMetrics
