import MappedMetrics.Error
import MappedMetrics.Json

namespace MappedMetrics

/-- The offsets of one metric: of its descriptor and its value record, if the format has them, and
of the bytes of its value. -/
structure Offsets where
  descriptor : Option UInt32
  dataBlock : Option UInt32
  value : UInt32
deriving DecidableEq, Repr

inductive BlockKind where
  | metrics
  | values
  | strings
deriving DecidableEq, Repr

namespace BlockKind

def all : List BlockKind :=
  [.metrics, .values, .strings]

def name : BlockKind → String
  | .metrics => "metrics"
  | .values => "values"
  | .strings => "strings"

/-- The type of a block in the table of contents. -/
def code : BlockKind → Nat
  | .metrics => 2
  | .values => 3
  | .strings => 4

end BlockKind

structure Block where
  kind : BlockKind
  offset : Nat
  count : Nat
deriving DecidableEq, Repr

/-- The greatest length that 32-bit offsets can address. -/
def maxLength : Nat := 4294967295

/-- A file's length with the offsets of its metrics, in order of registration. -/
structure Layout where
  length : Nat
  offsets : List Offsets
  blocks : List Block
  length_le : length ≤ maxLength

namespace Layout

/-- A layout whose length every offset can address. -/
def ofParts (length : Nat) (offsets : List Offsets) (blocks : List Block) : Outcome Layout :=
  if h : length ≤ maxLength then .ok ⟨length, offsets, blocks, h⟩
  else (MappingError.tooLarge length).refuse

def block? (layout : Layout) (kind : BlockKind) : Option Block :=
  layout.blocks.find? fun block => block.kind = kind

/-- A number in 32 bits; numbers that do not fit become the greatest one. -/
def narrow (n : Nat) : UInt32 :=
  if n ≤ maxLength then UInt32.ofNat n else UInt32.ofNat maxLength

def offsetJson (offset : Option UInt32) : Json :=
  match offset with
  | some offset => Json.ofNat offset.toNat
  | none => .null

def offsetsJson (offsets : Offsets) : Json :=
  Json.obj [("descriptor", offsetJson offsets.descriptor),
    ("data_block", offsetJson offsets.dataBlock), ("value", Json.ofNat offsets.value.toNat)]

def blockJson (block : Block) : Json :=
  Json.obj [("kind", Json.str block.kind.name), ("offset", Json.ofNat block.offset),
    ("count", Json.ofNat block.count)]

/-- The parts of a layout, in order of declaration. -/
def toJson (layout : Layout) : Json :=
  Json.obj [("length", Json.ofNat layout.length),
    ("offsets", .array (layout.offsets.map offsetsJson)),
    ("blocks", .array (layout.blocks.map blockJson))]

end Layout

end MappedMetrics
