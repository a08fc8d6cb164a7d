import MappedMetrics.Config
import MappedMetrics.Handler.Registry
import MappedMetrics.MappedFile
import MappedMetrics.Monitor

/-!
The writer of a metrics file: metrics are registered, the file is started, its values are updated,
and the file is stopped. A call answers with the writer, the files and the reports that it leaves,
whether it succeeds or not.
-/

namespace MappedMetrics

open MappedMetrics.Layout

inductive Phase where
  | unstarted
  | started
  | stopped
deriving DecidableEq, Repr

/-- A writer. Layout and generation are those of the last successful start. -/
structure Writer where
  path : String
  format : FileFormat
  handlers : Registry
  /-- The metrics in order of registration. -/
  metrics : List Metric
  /-- The positions of the metrics by name. -/
  index : List (String × Nat)
  phase : Phase
  layout : Option Layout
  /-- The mapped file while the writer is started. -/
  file : Option MappedFile
  generation : UInt64
  sidecar : Option String

namespace Writer

structure Reply where
  writer : Writer
  volume : Volume
  events : List Event
  result : Outcome Unit

/-- An unstarted writer without metrics and with the standard handlers. -/
def ofPath (path : String) (format : FileFormat) : Writer where
  path := path
  format := format
  handlers := .standard
  metrics := []
  index := []
  phase := .unstarted
  layout := none
  file := none
  generation := 0
  sidecar := none

/-- The position of the metric with a given name. -/
def index? (writer : Writer) (name : String) : Option Nat :=
  writer.index.lookup name

def metric? (writer : Writer) (name : String) : Option Metric :=
  (writer.index? name).bind fun i => writer.metrics[i]?

/-- The offsets of the metric with a given name, once the writer is started. -/
def offsets? (writer : Writer) (name : String) : Option Offsets := do
  let i ← writer.index? name
  let layout ← writer.layout
  layout.offsets[i]?

/-- The refusal of a call that needs a mapped file. -/
def inactiveError (writer : Writer) : LifecycleError :=
  if writer.phase = .stopped then .stopped else .notStarted

def ensureUnstarted (writer : Writer) : Outcome Unit :=
  if writer.phase = .unstarted then .ok () else LifecycleError.addAfterStart.refuse

/-- The answer to a call that leaves the files as they are and reports nothing when it fails. -/
def answer (writer : Writer) (volume : Volume) (outcome : Outcome (Writer × List Event)) : Reply :=
  match outcome with
  | .ok (writer, events) => ⟨writer, volume, events, .ok ()⟩
  | .error fault => ⟨writer, volume, [], .error fault⟩

def registerHandler (writer : Writer) (volume : Volume) (kind : Kind) (handler : Handler) : Reply :=
  writer.answer volume do
    writer.ensureUnstarted
    pure ({ writer with handlers := writer.handlers.register kind handler }, [])

def insert (writer : Writer) (metric : Metric) : Outcome (Writer × List Event) := do
  writer.format.validateName metric.name
  if (writer.index? metric.name).isSome then
    (ConfigurationError.duplicateMetric metric.name).refuse
  else
    let registered := Event.registeredMetric metric.name metric.unit.symbol metric.mapping.shape
      metric.handler.typeName
    let index := (metric.name, writer.metrics.length) :: writer.index
    pure ({ writer with metrics := writer.metrics ++ [metric], index := index },
      metric.unit.classificationEvents ++ [registered])

/-- Registers a metric with the handler of its initial value's kind. -/
def addMetric (writer : Writer) (volume : Volume) (name : String) (unit : PhysicalUnit)
    (semantics : Semantics) (initial : MetricValue) : Reply :=
  writer.answer volume do
    writer.ensureUnstarted
    let handler ← writer.handlers.resolve initial.kind
    writer.insert ⟨name, semantics, unit, handler, initial⟩

/-- Registers a metric with a handler of its own, which must be of the initial value's kind. -/
def addMetricWithHandler (writer : Writer) (volume : Volume) (name : String) (unit : PhysicalUnit)
    (semantics : Semantics) (handler : Handler) (initial : MetricValue) : Reply :=
  writer.answer volume do
    writer.ensureUnstarted
    if handler.kind ≠ initial.kind then
      (ConfigurationError.typeMismatch handler.kind initial.kind).refuse
    else writer.insert ⟨name, semantics, unit, handler, initial⟩

/-- Registers a source under its own name, with what it reads now as the initial value. -/
def addMonitor (writer : Writer) (volume : Volume) (monitor : Monitor) (unit : PhysicalUnit)
    (semantics : Semantics) : Reply :=
  match monitor.current with
  | .ok initial => writer.addMetric volume monitor.name unit semantics initial
  | .error _ => ⟨writer, volume, [], .error (.halted .probe)⟩

/-- The generation for a time of the clock in nanoseconds, which may be before the clock's epoch. It
is never zero. -/
def stamp (nanoseconds : Int) : UInt64 :=
  UInt64.ofNat (max (min nanoseconds.toNat (2 ^ 64 - 1)) 1)

theorem stamp_ne_zero (nanoseconds : Int) : stamp nanoseconds ≠ 0 := by
  intro hzero
  have hword := congrArg UInt64.toNat hzero
  rw [stamp, UInt64.toNat_ofNat', UInt64.toNat_zero, Nat.mod_eq_of_lt (by omega)] at hword
  omega

/-- Writes the file and its sidecar, marks the file as ready last, and gives the mapped file and
the path of the sidecar. -/
def publish (writer : Writer) (volume : Volume) (layout : Layout) (generation : UInt64) :
    Volume × Outcome (MappedFile × Option String) :=
  match MappedFile.create volume writer.path layout.length with
  | (volume, .error fault) => (volume, .error fault)
  | (volume, .ok file) =>
      let writes := writer.format.structureWrites layout writer.metrics generation
      match Write.run (file.contents volume) writes with
      | (image, .error fault) => (file.replace volume image, .error fault)
      | (image, .ok ()) =>
          let volume := file.replace volume image
          let mark := [writer.format.publishWrite generation]
          match writer.format.sidecar? writer.path layout writer.metrics generation with
          | none =>
              let (image, result) := Write.run image mark
              (file.replace volume image, result.map fun _ => (file, none))
          | some (path, text) =>
              match volume.write path (.ofBytes (Text.utf8 text)) with
              | .error flaw => (volume, (MappingError.sidecar path flaw).refuse)
              | .ok (volume, _) =>
                  let (image, result) := Write.run image mark
                  (file.replace volume image, result.map fun _ => (file, some path))

/-- Publishes the file on a host. A file that is not mapped stays as it was made; one that is not
written through is complete. -/
def publishOn (host : Host) (writer : Writer) (volume : Volume) (layout : Layout)
    (generation : UInt64) : Volume × Outcome (MappedFile × Option String) :=
  match host.mapping with
  | some reason =>
      let (volume, made) := MappedFile.create volume writer.path layout.length
      (volume, do
        let _ ← made
        (MappingError.map writer.path reason).refuse)
  | none =>
      let (volume, published) := writer.publish volume layout generation
      (volume, do
        let (file, sidecar) ← published
        file.flush host
        pure (file, sidecar))

/-- Plans the layout and publishes the file with a generation, in a given way. -/
def startBy (publish : Writer → Volume → Layout → UInt64 →
      Volume × Outcome (MappedFile × Option String))
    (writer : Writer) (volume : Volume) (generation : UInt64) : Reply :=
  match writer.phase with
  | .started => ⟨writer, volume, [], LifecycleError.alreadyStarted.refuse⟩
  | .stopped => ⟨writer, volume, [], LifecycleError.stopped.refuse⟩
  | .unstarted =>
      match writer.format.plan writer.metrics with
      | .error fault => ⟨writer, volume, [], .error fault⟩
      | .ok layout =>
          let planned := Event.plannedLayout writer.path writer.format.title layout.length
            writer.metrics.length
          match publish writer volume layout generation with
          | (volume, .error fault) => ⟨writer, volume, [planned], .error fault⟩
          | (volume, .ok (file, sidecar)) =>
              let published := Event.publishedFile writer.path writer.metrics.length
              ⟨{ writer with
                  phase := .started
                  layout := some layout
                  file := some file
                  generation := generation
                  sidecar := sidecar },
                volume, [planned, published], .ok ()⟩

/-- Starts the writer on a host that refuses nothing. -/
def start : Writer → Volume → UInt64 → Reply :=
  startBy publish

def startOn (host : Host) : Writer → Volume → UInt64 → Reply :=
  startBy (publishOn host)

/-- The offset of the slot of the metric with a given name, and the bytes that a value has there. -/
def encoded (writer : Writer) (name : String) (value : MetricValue) : Outcome (Nat × Bytes) :=
  match writer.index? name with
  | none => (UpdateError.unknownMetric name).refuse
  | some i =>
      match writer.layout.bind fun layout => layout.offsets[i]? with
      | none => LifecycleError.notStarted.refuse
      | some offsets =>
          match writer.metrics[i]? with
          | none => .error (.halted .outOfBounds)
          | some metric => metric.slot offsets value

/-- The files after a value is encoded into the slot of the metric with a given name in a mapped
file. The value is encoded beside the file first, so a value that is refused changes nothing. -/
def storedIn (writer : Writer) (file : MappedFile) (volume : Volume) (name : String)
    (value : MetricValue) : Outcome Volume := do
  let (offset, data) ← writer.encoded name value
  file.store volume offset data

/-- The files after a value is encoded into the slot of the metric with a given name, while the
writer has a mapped file. -/
def updated (writer : Writer) (volume : Volume) (name : String) (value : MetricValue) :
    Outcome Volume :=
  match writer.file with
  | some file => writer.storedIn file volume name value
  | none => writer.inactiveError.refuse

/-- The files after one value is encoded into the slot of every metric. -/
def updatedAll (writer : Writer) (volume : Volume) (value : MetricValue) : Outcome Volume :=
  match writer.file, writer.layout with
  | some file, some layout => do
      let patches ← (writer.metrics.zip layout.offsets).mapM fun (metric, offsets) =>
        metric.slot offsets value
      file.storeAll volume patches
  | _, _ => writer.inactiveError.refuse

/-- Encodes a value into the slot of the metric with a given name. -/
def updateMetric (writer : Writer) (volume : Volume) (name : String) (value : MetricValue) :
    Reply :=
  match writer.updated volume name value with
  | .ok volume => ⟨writer, volume, [], .ok ()⟩
  | .error fault => ⟨writer, volume, [], .error fault⟩

/-- The writer once its phase says that it is stopped. -/
def markStopped (writer : Writer) : Writer :=
  { writer with phase := .stopped }

def release (writer : Writer) : Writer :=
  { writer with file := none }

/-- Releases the mapped file and writes it through at last; stopping again does nothing. -/
def stopOn (host : Host) (writer : Writer) (volume : Volume) : Reply :=
  match writer.phase with
  | .unstarted => ⟨writer, volume, [], LifecycleError.notStarted.refuse⟩
  | .stopped => ⟨writer, volume, [], .ok ()⟩
  | .started =>
      let flushed := (writer.file.map (MappedFile.flush host)).getD (.ok ())
      ⟨writer.markStopped.release, volume, [.stoppedWriter writer.path], flushed⟩

def stop : Writer → Volume → Reply :=
  stopOn .willing

/-- Writes the mapped bytes through to the file. -/
def flushOn (host : Host) (writer : Writer) (volume : Volume) : Reply :=
  match writer.file with
  | some file => ⟨writer, volume, [], file.flush host⟩
  | none => ⟨writer, volume, [], writer.inactiveError.refuse⟩

def flush : Writer → Volume → Reply :=
  flushOn .willing

def addAll (writer : Writer) (volume : Volume) :
    List MetricConfig → Outcome (Writer × List Event)
  | [] => .ok (writer, [])
  | metric :: rest => do
      let unit ← PhysicalUnit.parse metric.unit
      let reply := writer.addMetric volume metric.name unit metric.semantics metric.initial
      reply.result
      let (writer, events) ← addAll reply.writer volume rest
      pure (writer, reply.events ++ events)

/-- The unstarted writer of a configuration that is in order. -/
def ofConfig (config : WriterConfig) : Outcome (Writer × List Event) := do
  config.validate
  (ofPath config.path config.format).addAll .empty config.metrics

end Writer

end MappedMetrics
