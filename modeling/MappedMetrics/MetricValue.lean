namespace MappedMetrics

/-- The kinds of metric value, by which handlers are chosen. -/
inductive Kind where
  | bool
  | i32
  | u32
  | i64
  | u64
  | f32
  | f64
  | str
deriving DecidableEq, Repr

namespace Kind

def all : List Kind :=
  [.bool, .i32, .u32, .i64, .u64, .f32, .f64, .str]

/-- The name in configurations. -/
def name : Kind → String
  | .bool => "bool"
  | .i32 => "i32"
  | .u32 => "u32"
  | .i64 => "i64"
  | .u64 => "u64"
  | .f32 => "f32"
  | .f64 => "f64"
  | .str => "str"

/-- The name in messages. -/
def title : Kind → String
  | .bool => "Bool"
  | .i32 => "I32"
  | .u32 => "U32"
  | .i64 => "I64"
  | .u64 => "U64"
  | .f32 => "F32"
  | .f64 => "F64"
  | .str => "Str"

def ofName? (name : String) : Option Kind :=
  all.find? fun kind => kind.name == name

theorem ofName?_name (kind : Kind) : ofName? kind.name = some kind := by
  cases kind <;> rfl

end Kind

/-- A value of a metric. Floating-point numbers are kept as their bits. -/
inductive MetricValue where
  | bool (b : Bool)
  | i32 (n : Int32)
  | u32 (n : UInt32)
  | i64 (n : Int64)
  | u64 (n : UInt64)
  | f32 (bits : UInt32)
  | f64 (bits : UInt64)
  | str (text : String)
deriving DecidableEq

def MetricValue.kind : MetricValue → Kind
  | .bool _ => .bool
  | .i32 _ => .i32
  | .u32 _ => .u32
  | .i64 _ => .i64
  | .u64 _ => .u64
  | .f32 _ => .f32
  | .f64 _ => .f64
  | .str _ => .str

/-- How a monitoring agent is to read successive values of a metric. -/
inductive Semantics where
  | unspecified
  | counter
  | instant
  | discrete
deriving DecidableEq, Repr

namespace Semantics

def all : List Semantics :=
  [.unspecified, .counter, .instant, .discrete]

def name : Semantics → String
  | .unspecified => "unspecified"
  | .counter => "counter"
  | .instant => "instant"
  | .discrete => "discrete"

/-- The name in messages. -/
def title : Semantics → String
  | .unspecified => "Unspecified"
  | .counter => "Counter"
  | .instant => "Instant"
  | .discrete => "Discrete"

def code : Semantics → Nat
  | .unspecified => 0
  | .counter => 1
  | .instant => 3
  | .discrete => 4

def ofName? (name : String) : Option Semantics :=
  all.find? fun semantics => semantics.name == name

theorem ofName?_name (semantics : Semantics) : ofName? semantics.name = some semantics := by
  cases semantics <;> rfl

end Semantics

end MappedMetrics
