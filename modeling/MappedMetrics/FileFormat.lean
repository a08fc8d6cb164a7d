import MappedMetrics.FileFormat.Write
import MappedMetrics.Layout
import MappedMetrics.Layout.Slots
import MappedMetrics.Metric

/-!
The two file formats. Each plans a layout, gives the writes that lay down everything but the last
mark, and the write of that mark, which makes the file ready. The marks are two places that hold
the same generation in a ready file.

A packed file has nine bytes of header, its generation at 0 and its version at 8, and then the
value slots. The second generation stands in a text beside it, the sidecar.

A self-describing file has a header of 32 bytes with the generations at 8 and 16, a table of
contents, descriptors of 76 bytes, value records of 24 bytes, and slots for the values that do not
fit a record.
-/

namespace MappedMetrics

open MappedMetrics.Text
open MappedMetrics.Layout

inductive FileFormat where
  /-- Packed slots, described by a sidecar. -/
  | legacy
  /-- Records that describe themselves. -/
  | mmv
deriving DecidableEq, Repr

namespace FileFormat

def all : List FileFormat :=
  [.legacy, .mmv]

def name : FileFormat → String
  | .legacy => "legacy"
  | .mmv => "mmv"

/-- The name in messages. -/
def title : FileFormat → String
  | .legacy => "Legacy"
  | .mmv => "Mmv"

def ofName? (name : String) : Option FileFormat :=
  all.find? fun format => format.name == name

/-- The greatest length of a metric name in bytes. -/
def nameLimit : FileFormat → Nat
  | .legacy => 255
  | .mmv => 63

/-- Characters with a meaning in the sidecar. -/
def isReserved (c : Char) : Bool :=
  c == '=' || c == ',' || c == '\n' || c == '\r'

/-- The first reserved character of a name, if the format has reserved ones. -/
def reservedIn? (format : FileFormat) (name : String) : Option Char :=
  match format with
  | .legacy => name.toList.find? isReserved
  | .mmv => none

/-- Checks a metric name: reserved characters first, then emptiness, NUL and length. -/
def validateName (format : FileFormat) (name : String) : Outcome Unit :=
  match format.reservedIn? name with
  | some c => (ConfigurationError.invalidName name (.reserved c)).refuse
  | none =>
      if name.toList.isEmpty then (ConfigurationError.invalidName name .empty).refuse
      else if name.toList.contains '\x00' then (ConfigurationError.invalidName name .nul).refuse
      else if format.nameLimit < (utf8 name).length then
        (ConfigurationError.nameTooLong name (utf8 name).length format.nameLimit).refuse
      else .ok ()

namespace Packed

def headerLength : UInt64 := 9

def version : UInt8 := 1

/-- The slots in order of registration, each aligned for its width. -/
def slots (metrics : List Metric) : List (UInt64 × UInt64) :=
  metrics.map fun metric => (metric.handler.dataLength, alignmentFor metric.handler.dataLength)

/-- The layout of a packed file, absent where a sum leaves the word. -/
def plan? (metrics : List Metric) : Option (Outcome Layout) := do
  let (values, finish) ← packSlots? headerLength (slots metrics)
  let offsets := values.map fun value => ⟨none, none, narrow value.toNat⟩
  let first := (values.head?.getD headerLength).toNat
  some (Layout.ofParts finish.toNat offsets [⟨.values, first, metrics.length⟩])

/-- The first generation is zero until the file is ready. -/
def header : List Write :=
  [.wide 0 0, .bytes 8 [version]]

def sidecarLine (metric : Metric) (offsets : Offsets) : String :=
  s!"{metric.name}={offsets.value}," ++ metric.handler.typeName ++ "\n"

/-- The sidecar: the version, the generation, and a line for each metric. -/
def sidecarText (layout : Layout) (metrics : List Metric) (generation : UInt64) : String :=
  s!"version={version}\ngeneration={generation}\n" ++
    String.join ((metrics.zip layout.offsets).map fun entry => sidecarLine entry.1 entry.2)

def sidecarPath (path : String) : String :=
  path ++ ".txt"

end Packed

namespace Described

def headerLength : UInt64 := 32

def entryLength : UInt64 := 16

def descriptorLength : UInt64 := 76

def recordLength : UInt64 := 24

/-- The width of the value inside a record. -/
def inlineLength : UInt64 := 16

/-- The width of a descriptor's name, with the NUL that ends it. -/
def nameLength : Nat := 64

def version : UInt32 := 1

/-- The letters that begin a file, with a NUL. -/
def magic : Bytes := [0x4D, 0x4D, 0x56, 0]

/-- The domain of a metric with a single instance. -/
def noInstances : UInt32 := 0xFFFFFFFF

/-- The first handler whose values fit neither a record nor have slots of their own. -/
def oversized? (metrics : List Metric) : Option Handler :=
  (metrics.map Metric.handler).find? fun handler =>
    !handler.large && inlineLength < handler.dataLength

/-- The value offsets: of the next free slot for large values, else inside the metric's record. -/
def valueOffsets : List Metric → List UInt64 → List UInt64 → List UInt64
  | metric :: metrics, record :: records, slots =>
      if metric.handler.large then
        match slots with
        | slot :: slots => slot :: valueOffsets metrics records slots
        | [] => (record + 8) :: valueOffsets metrics records []
      else (record + 8) :: valueOffsets metrics records slots
  | _, _, _ => []

/-- The layout of a self-describing file, absent where a sum leaves the word. -/
def plan? (metrics : List Metric) : Option (Outcome Layout) := do
  let large := metrics.filter fun metric => metric.handler.large
  let entryCount : UInt64 := if large.isEmpty then 2 else 3
  let start := headerLength + entryLength * entryCount
  let (descriptors, descriptorsEnd) ←
    packSlots? start (metrics.map fun _ => (descriptorLength, narrowAlign))
  let recordsStart ← alignUp? descriptorsEnd wideAlign
  let (records, recordsEnd) ←
    packSlots? recordsStart (metrics.map fun _ => (recordLength, wideAlign))
  let slotsStart ← alignUp? recordsEnd wideAlign
  let (slots, finish) ←
    packSlots? slotsStart (large.map fun metric => (metric.handler.dataLength, wideAlign))
  let values := valueOffsets metrics records slots
  let offsets := (descriptors.zip (records.zip values)).map fun (descriptor, record, value) =>
    ⟨some (narrow descriptor.toNat), some (narrow record.toNat), narrow value.toNat⟩
  let blocks := [⟨.metrics, start.toNat, metrics.length⟩,
    ⟨.values, recordsStart.toNat, metrics.length⟩]
  let slotBlocks := if large.isEmpty then [] else [⟨.strings, slotsStart.toNat, large.length⟩]
  some (Layout.ofParts finish.toNat offsets (blocks ++ slotBlocks))

/-- The first generation is written at once and the second one is zero until the file is ready. -/
def header (layout : Layout) (generation : UInt64) : List Write :=
  [.bytes 0 magic, .word 4 version, .wide 8 generation, .wide 16 0,
    .word 24 (narrow layout.blocks.length), .word 28 0]

def entry (index : Nat) (block : Block) : List Write :=
  let start := headerLength.toNat + index * entryLength.toNat
  [.word start (UInt32.ofNat block.kind.code), .word (start + 4) (narrow block.count),
    .word (start + 8) (narrow block.offset), .word (start + 12) 0]

def entries (layout : Layout) : List Write :=
  layout.blocks.zipIdx.flatMap fun (block, index) => entry index block

/-- The descriptor and the value record of a metric. A record begins with the offset of its
descriptor; for a large value it then holds the offset of the value's slot. -/
def records (metric : Metric) (offsets : Offsets) : List Write :=
  match offsets.descriptor, offsets.dataBlock with
  | some descriptor, some record =>
      let start := descriptor.toNat
      let payload := record.toNat + 8
      [.field start nameLength (utf8 metric.name),
        .word (start + 64) (UInt32.ofNat metric.handler.wireType.code),
        .word (start + 68) noInstances,
        .word (start + 72) metric.mapping.dimensionWord,
        .word record.toNat descriptor,
        .word (record.toNat + 4) 0,
        .blank payload inlineLength.toNat] ++
        if metric.handler.large then [.wide payload offsets.value.toUInt64] else []
  | _, _ => []

end Described

def plan (format : FileFormat) (metrics : List Metric) : Outcome Layout :=
  match format with
  | .legacy => (Packed.plan? metrics).getD (.error (.halted .overflow))
  | .mmv =>
      match Described.oversized? metrics with
      | some handler =>
          (ConfigurationError.slotSize Described.inlineLength.toNat
            handler.dataLength.toNat).refuse
      | none => (Described.plan? metrics).getD (.error (.halted .overflow))

def initialValues (layout : Layout) (metrics : List Metric) : List Write :=
  (metrics.zip layout.offsets).map fun (metric, offsets) =>
    .slot offsets.value.toNat metric.handler metric.initial

/-- All writes before the last mark. -/
def structureWrites (format : FileFormat) (layout : Layout) (metrics : List Metric)
    (generation : UInt64) : List Write :=
  match format with
  | .legacy => Packed.header ++ initialValues layout metrics
  | .mmv =>
      Described.header layout generation ++ Described.entries layout ++
        (metrics.zip layout.offsets).flatMap (fun (metric, offsets) =>
          Described.records metric offsets) ++
        initialValues layout metrics

/-- The write of the last mark. -/
def publishWrite (format : FileFormat) (generation : UInt64) : Write :=
  match format with
  | .legacy => .wide 0 generation
  | .mmv => .wide 16 generation

/-- The path and the text of the sidecar, if the format has one. -/
def sidecar? (format : FileFormat) (path : String) (layout : Layout) (metrics : List Metric)
    (generation : UInt64) : Option (String × String) :=
  match format with
  | .legacy => some (Packed.sidecarPath path, Packed.sidecarText layout metrics generation)
  | .mmv => none

end FileFormat

end MappedMetrics
