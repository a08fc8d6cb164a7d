import MappedMetrics.Bytes.Patch
import MappedMetrics.Error
import MappedMetrics.Text.Utf8
import MappedMetrics.Decimal.Binary

namespace MappedMetrics

open MappedMetrics.Text

inductive WireType where
  | i32
  | u32
  | i64
  | u64
  | float
  | double
  | string
deriving DecidableEq, Repr

namespace WireType

def code : WireType → Nat
  | .i32 => 0
  | .u32 => 1
  | .i64 => 2
  | .u64 => 3
  | .float => 4
  | .double => 5
  | .string => 6

def name : WireType → String
  | .i32 => "I32"
  | .u32 => "U32"
  | .i64 => "I64"
  | .u64 => "U64"
  | .float => "Float"
  | .double => "Double"
  | .string => "String"

end WireType

/-- Encodes values of one kind into slots of `dataLength` bytes. -/
structure Handler where
  kind : Kind
  wireType : WireType
  dataLength : UInt64
  /-- The name of the type in a sidecar. -/
  typeName : String
  /-- Whether values stand outside the records of a self-describing file. -/
  large : Bool
  /-- What a value leaves in a slot of a given width with the bytes that the slot held. -/
  encode : MetricValue → (width : Nat) → (Fin width → UInt8) → Outcome Patch
  width_encode : ∀ {value width held patch}, encode value width held = .ok patch →
    patch.width = width

namespace Handler

/-- What a value leaves in a slot with the bytes that the slot held, once the slot's width and the
value's kind are checked. -/
def putBytes (handler : Handler) (width : Nat) (held : Fin width → UInt8) (value : MetricValue) :
    Outcome Patch :=
  if width ≠ handler.dataLength.toNat then
    (ConfigurationError.slotSize handler.dataLength.toNat width).refuse
  else if value.kind ≠ handler.kind then
    (ConfigurationError.typeMismatch handler.kind value.kind).refuse
  else handler.encode value width held

theorem width_putBytes {handler : Handler} {width : Nat} {held : Fin width → UInt8}
    {patch : Patch} {value : MetricValue} (h : handler.putBytes width held value = .ok patch) :
    patch.width = width := by
  rw [putBytes] at h
  split at h
  · cases h
  · split at h
    · cases h
    · exact handler.width_encode h

/-- The width of the standard text slot, with the NUL that ends the text. -/
def textSlotLength : UInt64 := 256

/-- The bytes of a number, with the booleans as 0 and 1 and singles widened; texts have none. -/
def numericBytes? : MetricValue → Option Bytes
  | .bool b => some (Bytes.ofNat 4 b.toNat)
  | .i32 n => some (Bytes.ofNat 4 n.toUInt32.toNat)
  | .u32 n => some (Bytes.ofNat 4 n.toNat)
  | .i64 n => some (Bytes.ofNat 8 n.toUInt64.toNat)
  | .u64 n => some (Bytes.ofNat 8 n.toNat)
  | .f32 bits => some (Bytes.ofNat 8 (Decimal.widen bits).toNat)
  | .f64 bits => some (Bytes.ofNat 8 bits.toNat)
  | .str _ => none

/-- A number takes the whole slot. -/
def encodeNumeric (kind : Kind) (value : MetricValue) (width : Nat) : Outcome Patch :=
  match numericBytes? value with
  | some bytes =>
      if bytes.length = width then .ok (.ofBytes bytes) else .error (.halted .lengthMismatch)
  | none => (ConfigurationError.typeMismatch kind .str).refuse

theorem width_encodeNumeric {kind : Kind} {value : MetricValue} {width : Nat} {patch : Patch}
    (h : encodeNumeric kind value width = .ok patch) : patch.width = width := by
  rw [encodeNumeric] at h
  split at h
  · split at h
    · cases h
      assumption
    · cases h
  · cases h

/-- The type in descriptors of the values of a kind; singles are widened to doubles. -/
def wireTypeOf : Kind → WireType
  | .bool | .i32 => .i32
  | .u32 => .u32
  | .i64 => .i64
  | .u64 => .u64
  | .f32 | .f64 => .double
  | .str => .string

def widthOf : WireType → UInt64
  | .i32 | .u32 | .float => 4
  | .i64 | .u64 | .double => 8
  | .string => textSlotLength

def typeNameOf : Kind → String
  | .bool => "boolean"
  | .i32 => "int32"
  | .u32 => "uint32"
  | .i64 => "int64"
  | .u64 => "uint64"
  | .f32 | .f64 => "double"
  | .str => "string"

def numeric (kind : Kind) : Handler where
  kind := kind
  wireType := wireTypeOf kind
  dataLength := widthOf (wireTypeOf kind)
  typeName := typeNameOf kind
  large := false
  encode value width _ := encodeNumeric kind value width
  width_encode := width_encodeNumeric

/-- The handler of a kind of numbers; texts are not numbers. -/
def numeric? (kind : Kind) : Option Handler :=
  if kind = .str then none else some (numeric kind)

/-- The bytes of as many whole characters as leave room for a NUL in a slot of a given width. No
more characters are looked at than the slot has bytes. -/
def fittingBytes (width : Nat) (text : String) : Bytes :=
  (fitting (width - 1) (text.take (width - 1)).copy.toList).flatMap String.utf8EncodeChar

theorem fittingBytes_eq (width : Nat) (text : String) :
    fittingBytes width text = (fitting (width - 1) text.toList).flatMap String.utf8EncodeChar := by
  rw [fittingBytes, String.toList_copy_take, fitting_take]

/-- As many whole characters as leave room for a NUL in slots of width `room`, and zeros after
them. -/
def encodeText (room : Nat) (value : MetricValue) (width : Nat) : Outcome Patch :=
  match value with
  | .str text =>
      let bytes := fittingBytes room text
      if fits : bytes.length ≤ width then .ok ⟨bytes, 0, width, fits⟩
      else .error (.halted .outOfBounds)
  | value => (ConfigurationError.typeMismatch .str value.kind).refuse

theorem width_encodeText {room : Nat} {value : MetricValue} {width : Nat} {patch : Patch}
    (h : encodeText room value width = .ok patch) : patch.width = width := by
  cases value with
  | str text =>
      simp only [encodeText] at h
      generalize fittingBytes room text = bytes at h
      split at h
      · cases h
        rfl
      · cases h
  | _ => cases h

/-- The handler of texts in slots of a given width, which is at least the one byte of the NUL. -/
def text (width : UInt64) : Handler where
  kind := .str
  wireType := .string
  dataLength := max width 1
  typeName := "string"
  large := true
  encode value slot _ := encodeText (max width 1).toNat value slot
  width_encode := width_encodeText

def standardText : Handler :=
  text textSlotLength

end Handler

end MappedMetrics
