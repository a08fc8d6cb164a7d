import MappedMetrics.Duration
import MappedMetrics.Event

/-!
The count of signals that found the queue full, with warnings at most once per interval. One drop
takes four steps, which other threads' drops may come between: the count, the clock, a look at the
last warning, and an exchange that succeeds only if no other warning came since that look.
-/

namespace MappedMetrics

/-- Dropped signals, counted modulo 2⁶⁴, and the time of the last warning in microseconds. -/
structure Overflow where
  dropped : UInt64
  lastWarning : UInt64
deriving DecidableEq, Repr

namespace Overflow

/-- The mark of a queue that never warned. -/
def neverWarned : UInt64 := 0xFFFFFFFFFFFFFFFF

def none : Overflow := ⟨0, neverWarned⟩

/-- A number of microseconds as a stamp, below the mark of a queue that never warned. -/
def stamp (microseconds : Nat) : UInt64 :=
  if microseconds < 2 ^ 64 then UInt64.ofNat microseconds else neverWarned - 1

def intervalStamp (interval : Duration) : UInt64 :=
  if interval.microseconds < 2 ^ 64 then UInt64.ofNat interval.microseconds else neverWarned

/-- Whether a warning is due at a time, given the last one. -/
def isDue (interval : Duration) (last now : UInt64) : Bool :=
  last == neverWarned || intervalStamp interval ≤ (if last ≤ now then now - last else 0)

def count (overflow : Overflow) : Overflow :=
  { overflow with dropped := overflow.dropped + 1 }

/-- Moves the last warning to a time, if it is still the one that was seen. -/
def exchange (overflow : Overflow) (seen now : UInt64) : Overflow × Bool :=
  if overflow.lastWarning = seen then ({ overflow with lastWarning := now }, true)
  else (overflow, false)

/-- Counts a drop at a time, given in microseconds, and warns where a warning is due. -/
def record (overflow : Overflow) (interval : Duration) (microseconds : Nat) :
    Overflow × List Event :=
  let counted := overflow.count
  let now := stamp microseconds
  let seen := counted.lastWarning
  if isDue interval seen now then
    match counted.exchange seen now with
    | (warned, true) => (warned, [.droppedSignals counted.dropped])
    | (same, false) => (same, [])
  else (counted, [])

end Overflow

end MappedMetrics
