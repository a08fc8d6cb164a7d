import MappedMetrics.Event
import MappedMetrics.Handler
import MappedMetrics.Layout
import MappedMetrics.Decimal.Style

namespace MappedMetrics

open MappedMetrics.Text
open MappedMetrics.Decimal

structure Metric where
  name : String
  semantics : Semantics
  unit : PhysicalUnit
  handler : Handler
  /-- The value that is written first. -/
  initial : MetricValue

/-- The mapping whose dimension word the descriptor carries. -/
def Metric.mapping (metric : Metric) : UnitMapping :=
  metric.unit.classify.mapping

/-- The offset of the metric's slot, and the bytes that a value leaves in zeros there. -/
def Metric.slot (metric : Metric) (offsets : Offsets) (value : MetricValue) :
    Outcome (Nat × Bytes) := do
  let patch ← metric.handler.putBytes metric.handler.dataLength.toNat (fun _ => 0) value
  pure (offsets.value.toNat, patch.bytes)

/-- Numbers in messages have an exponent below 0.0001 and from 10 to the 16th on. -/
def messageStyle : DecimalStyle where
  positional scale := -4 ≤ scale && scale < 16
  pointZero := true
  plusSign := false
  tie := .up
  infinity := "inf"
  nan := "NaN"

def numberMessage (x : BinaryNumber) : String :=
  String.ofList (messageStyle.render x)

/-- A value in messages: the kind with the value in parentheses. -/
def MetricValue.message : MetricValue → String
  | .bool b => s!"Bool({b})"
  | .i32 n => s!"I32({n})"
  | .u32 n => s!"U32({n})"
  | .i64 n => s!"I64({n})"
  | .u64 n => s!"U64({n})"
  | .f32 bits => s!"F32({numberMessage (BinaryNumber.ofSingle bits)})"
  | .f64 bits => s!"F64({numberMessage (BinaryNumber.ofDouble bits)})"
  | .str text => s!"Str({quoted text})"

def Metric.message (metric : Metric) : String :=
  s!"Metric \x7b name: {quoted metric.name}, semantics: {metric.semantics.title}, " ++
    s!"unit: {quoted metric.unit.symbol}, type: {quoted metric.handler.typeName}, " ++
    s!"initial: {metric.initial.message} \x7d"

end MappedMetrics
