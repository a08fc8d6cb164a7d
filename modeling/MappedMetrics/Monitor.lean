import MappedMetrics.Error

namespace MappedMetrics

/-- What a probe leaves when it gives up: a message, or something that is no text. -/
abbrev ProbeFailure := Option String

def ProbeFailure.message (failure : ProbeFailure) : String :=
  Option.getD failure "non-string panic payload"

inductive Monitor where
  /-- A count that wraps around. -/
  | counter (name : String) (unit : PhysicalUnit) (count : Int64)
  /-- A reading that goes up and down, as the bits of a double. -/
  | gauge (name : String) (unit : PhysicalUnit) (reading : UInt64)
  | constant (name : String) (unit : PhysicalUnit) (value : MetricValue)
  /-- A source of any kind, which may give up when it is read. -/
  | probe (name : String) (reading : Except ProbeFailure MetricValue)

namespace Monitor

def name : Monitor → String
  | .counter name _ _ | .gauge name _ _ | .constant name _ _ | .probe name _ => name

def unit : Monitor → PhysicalUnit
  | .counter _ unit _ | .gauge _ unit _ | .constant _ unit _ => unit
  | .probe _ _ => .item

def semantics : Monitor → Semantics
  | .counter _ _ _ => .counter
  | .gauge _ _ _ => .instant
  | .constant _ _ _ => .discrete
  | .probe _ _ => .unspecified

def current : Monitor → Except ProbeFailure MetricValue
  | .counter _ _ count => .ok (.i64 count)
  | .gauge _ _ reading => .ok (.f64 reading)
  | .constant _ _ value => .ok value
  | .probe _ reading => reading

/-- Adds to a counter; other sources stay as they are. -/
def add (monitor : Monitor) (delta : Int64) : Monitor :=
  match monitor with
  | .counter name unit count => .counter name unit (count + delta)
  | other => other

/-- Sets what a gauge or a probe reads; other sources stay as they are. -/
def set (monitor : Monitor) (value : MetricValue) : Monitor :=
  match monitor, value with
  | .gauge name unit _, .f64 bits => .gauge name unit bits
  | .probe name _, value => .probe name (.ok value)
  | other, _ => other

end Monitor

end MappedMetrics
