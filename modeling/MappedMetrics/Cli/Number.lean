import MappedMetrics.Decimal.Reader
import MappedMetrics.Duration
import MappedMetrics.Text.Blank

namespace MappedMetrics.Cli

open MappedMetrics.Decimal
open MappedMetrics.Text

inductive NumberFlaw where
  | empty
  | invalidDigit
  | tooLarge
deriving DecidableEq, Repr

def NumberFlaw.message : NumberFlaw → String
  | .empty => "cannot parse integer from empty string"
  | .invalidDigit => "invalid digit found in string"
  | .tooLarge => "number too large to fit in target type"

/-- The number that digits spell after those already read; the first digit that is none or goes too
far decides. -/
def digitsFrom (bound : Nat) : Nat → List Char → Except NumberFlaw Nat
  | n, [] => .ok n
  | n, c :: rest =>
      match digit? c with
      | none => .error .invalidDigit
      | some d =>
          if bound ≤ 10 * n + d then .error .tooLarge else digitsFrom bound (10 * n + d) rest

/-- A number below a bound with an optional plus sign. -/
def number (bound : Nat) (text : List Char) : Except NumberFlaw Nat :=
  match text with
  | [] => .error .empty
  | '+' :: [] => .error .invalidDigit
  | '+' :: digits => digitsFrom bound 0 digits
  | digits => digitsFrom bound 0 digits

/-- A number below a bound with an optional sign; only zero may have a minus sign. -/
def signedNumber (bound : Nat) (text : List Char) : Except NumberFlaw Nat :=
  match text with
  | '-' :: [] => .error .invalidDigit
  | '-' :: digits => digitsFrom 1 0 digits
  | text => number bound text

inductive DurationFlaw where
  | empty
  | number (flaw : NumberFlaw)
  | unknownUnit (unit : Char)
  | tooLarge (text : String)
deriving DecidableEq, Repr

def DurationFlaw.message : DurationFlaw → String
  | .empty => "Empty duration string"
  | .number flaw => flaw.message
  | .unknownUnit unit => s!"Unknown duration unit: '{unit}'. Use s, m, or h."
  | .tooLarge text => s!"Duration too large: '{text}'"

def unitSeconds? : Char → Option Nat
  | 's' => some 1
  | 'm' => some 60
  | 'h' => some 3600
  | _ => none

/-- A number of seconds, minutes or hours; the unit is the last character. -/
def duration (text : String) : Except DurationFlaw UInt64 :=
  let trimmed := trim text.toList
  match trimmed.getLast? with
  | none => .error .empty
  | some unit =>
      match number (2 ^ 64) trimmed.dropLast with
      | .error flaw => .error (.number flaw)
      | .ok n =>
          match unitSeconds? unit with
          | none => .error (.unknownUnit unit)
          | some seconds =>
              if n * seconds < 2 ^ 64 then .ok (UInt64.ofNat (n * seconds))
              else .error (.tooLarge (String.ofList trimmed))

end MappedMetrics.Cli
