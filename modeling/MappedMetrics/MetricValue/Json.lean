import MappedMetrics.MetricValue
import MappedMetrics.Json.Reading

namespace MappedMetrics

open MappedMetrics.Json (Fields)

def Kind.ofJson? (value : Json) : Option Kind :=
  value.name?.bind Kind.ofName?

def Semantics.ofJson? (value : Json) : Option Semantics :=
  value.name?.bind Semantics.ofName?

namespace MetricValue

def ofContent? (kind : Kind) (content : Json) : Option MetricValue :=
  match kind with
  | .bool => content.bool?.map .bool
  | .i32 => (content.integer? (-2 ^ 31) (2 ^ 31 - 1)).map fun n => .i32 (Int32.ofInt n)
  | .u32 => (content.integer? 0 (2 ^ 32 - 1)).map fun n => .u32 (UInt32.ofNat n.toNat)
  | .i64 => (content.integer? (-2 ^ 63) (2 ^ 63 - 1)).map fun n => .i64 (Int64.ofInt n)
  | .u64 => (content.integer? 0 (2 ^ 64 - 1)).map fun n => .u64 (UInt64.ofNat n.toNat)
  | .f32 => content.numberValue?.map fun x => .f32 x.toSingle
  | .f64 => content.numberValue?.map fun x => .f64 x.toDouble
  | .str => content.text?.map .str

/-- A value from an object of its kind and content in either order, or from an array of the two,
where the kind can only be a string. -/
def ofJson? : Json → Option MetricValue
  | .array [.string (some name), content] => do ofContent? (← Kind.ofName? name) content
  | .array _ => none
  | value => do
      let fields ← value.fields? ["kind", "value"]
      let kind ← (fields.get? "kind").bind Kind.ofJson?
      let content ← fields.get? "value"
      ofContent? kind content

def content : MetricValue → Json
  | .bool b => .bool b
  | .i32 n => Json.ofInt n.toInt
  | .u32 n => Json.ofNat n.toNat
  | .i64 n => Json.ofInt n.toInt
  | .u64 n => Json.ofNat n.toNat
  | .f32 bits => Json.ofSingle bits
  | .f64 bits => Json.ofDouble bits
  | .str text => Json.str text

def toJson (value : MetricValue) : Json :=
  Json.obj [("kind", Json.str value.kind.name), ("value", value.content)]

end MetricValue

end MappedMetrics
