import MappedMetrics.PhysicalUnit
import MappedMetrics.Decimal.Reader
import MappedMetrics.Text.Blank

namespace MappedMetrics

open MappedMetrics.Text
open MappedMetrics.Decimal

inductive UnitFlaw where
  | empty
  | multiplierNotNumber
  | multiplierNotPositive
  | unknownName
  | secondStroke
deriving DecidableEq, Repr

def UnitFlaw.message : UnitFlaw → String
  | .empty => "empty unit"
  | .multiplierNotNumber => "multiplier is not a number"
  | .multiplierNotPositive => "multiplier must be positive"
  | .unknownName => "unknown unit name"
  | .secondStroke => "at most one '/' is supported"

namespace Scale

/-- The names of a scale besides its symbol. -/
def spellings : Scale → List String
  | .space .byte => ["byte", "bytes"]
  | .space .kilobyte => ["kilobyte", "kilobytes", "KB"]
  | .space .megabyte => ["megabyte", "megabytes", "MB"]
  | .space .gigabyte => ["gigabyte", "gigabytes", "GB"]
  | .space .terabyte => ["terabyte", "terabytes", "TB"]
  | .space .petabyte => ["petabyte", "petabytes", "PB"]
  | .space .exabyte => ["exabyte", "exabytes", "EB"]
  | .time .nanosecond => ["nanosecond", "nanoseconds", "nsec"]
  | .time .microsecond => ["microsecond", "microseconds", "usec", "µs"]
  | .time .millisecond => ["millisecond", "milliseconds", "msec"]
  | .time .second => ["second", "seconds", "sec"]
  | .time .minute => ["minute", "minutes"]
  | .time .hour => ["hour", "hours", "hr"]
  | .count .one => ["1", "one", "counts"]
  | .count _ => []

def ofName? (name : String) : Option Scale :=
  all.find? fun scale => scale.symbol == name || scale.spellings.contains name

end Scale

namespace PhysicalUnit

/-- A multiplier: a finite number above zero. -/
def multiplier (text : List Char) : Except UnitFlaw Float :=
  match double? text with
  | none => .error .multiplierNotNumber
  | some bits =>
      let k := Float.ofBits bits
      if k.isFinite && 0 < k then .ok k else .error .multiplierNotPositive

def named (name : List Char) : Except UnitFlaw PhysicalUnit :=
  match Scale.ofName? (String.ofList name) with
  | some scale => .ok (ofScale scale)
  | none => .error .unknownName

/-- A name, or a multiplier and a name with a star or a middle dot between them. -/
def numerator (text : List Char) : Except UnitFlaw PhysicalUnit :=
  match splitOnce (fun c => c == '*' || c == '·') text with
  | none => named text
  | some (k, name) => do
      let k ← multiplier (trim k)
      let unit ← named (trim name)
      pure (unit.times k)

/-- The unit of a text. The multiplier is checked before the name, and the part above the stroke
before the part below it. -/
def ofText (text : String) : Except UnitFlaw PhysicalUnit :=
  let trimmed := trim text.toList
  if trimmed.isEmpty then .error .empty
  else
    match splitOnce (· == '/') trimmed with
    | none => numerator trimmed
    | some (above, below) => do
        let unit ← numerator (trim above)
        let below := trim below
        if below.contains '/' then .error .secondStroke
        else
          let divisor ← named below
          pure (unit.per divisor)

end PhysicalUnit

end MappedMetrics
