import MappedMetrics.Bridge
import MappedMetrics.Cli.Command
import MappedMetrics.Config.Json
import MappedMetrics.Json.Sorted

namespace MappedMetrics.Cli

/-- What a run leaves: its exit code, the printed lines, the message of a failure, the files. -/
structure Report where
  code : Nat
  output : List String
  failure : Option String
  volume : Volume

def Report.success (output : List String) (volume : Volume) : Report :=
  ⟨0, output, none, volume⟩

def Report.refusal (output : List String) (message : String) (volume : Volume) : Report :=
  ⟨1, output, some s!"Error: {message}", volume⟩

def faultMessage : Fault → String
  | .refused error => error.message
  | .halted _ => "the program cannot go on"

/-- A run that ends at a fault after some printed lines. -/
def Report.fault (output : List String) (fault : Fault) (volume : Volume) : Report :=
  Report.refusal output (faultMessage fault) volume

def programVersion : String := "0.1.0"

def scaleText (scale : Scale) : String :=
  s!"{scale.dimension.name}({scale.name})"

/-- A word in base sixteen with all of its eight digits. -/
def wordText (word : UInt32) : String :=
  let digits := Nat.toDigits 16 word.toNat
  String.ofList ('0' :: 'x' :: (List.replicate (8 - digits.length) '0' ++ digits))

def metricJson (metric : Metric) (offsets : Offsets) : Json :=
  Json.obj [("name", Json.str metric.name), ("type", Json.str metric.handler.typeName),
    ("width", Json.ofNat metric.handler.dataLength.toNat),
    ("unit", Json.str metric.unit.symbol), ("dimension", Json.str metric.mapping.shape.name),
    ("dimension_code", Json.str (wordText metric.mapping.dimensionWord)),
    ("offsets", Layout.offsetsJson offsets)]

def layoutJson (config : WriterConfig) (writer : Writer) (layout : Layout) : Json :=
  Json.obj [("path", Json.str config.path), ("variant", Json.str config.format.name),
    ("length", Json.ofNat layout.length), ("blocks", .array (layout.blocks.map Layout.blockJson)),
    ("metrics", .array ((writer.metrics.zip layout.offsets).map fun (metric, offsets) =>
      metricJson metric offsets))]

/-- Prints the layout of the configuration in a file. -/
def layoutReport (path : String) (volume : Volume) : Report :=
  let outcome : Outcome Json := do
    let config ← WriterConfig.ofFile volume path
    let (writer, _) ← Writer.ofConfig config
    let layout ← writer.format.plan writer.metrics
    pure (layoutJson config writer layout)
  match outcome with
  | .ok report => Report.success [report.sorted.indented] volume
  | .error fault => Report.fault [] fault volume

def unitsHeading : String :=
  padded 24 "UNIT" ++ " " ++ padded 14 "DIMENSION" ++ " " ++ padded 28 "NUMERATOR" ++ " " ++
    padded 28 "DENOMINATOR" ++ " CODE"

def unitLine (text : String) (mapping : UnitMapping) : String :=
  padded 24 text ++ " " ++ padded 14 mapping.shape.name ++ " " ++
    padded 28 (scaleText mapping.numerator) ++ " " ++
    padded 28 ((mapping.denominator.map scaleText).getD "-") ++ " " ++
    wordText mapping.dimensionWord

/-- The lines of units up to the first that is refused, and that refusal. -/
def unitLines : List String → List String × Outcome Unit
  | [] => ([], .ok ())
  | text :: rest =>
      match PhysicalUnit.parse text with
      | .error fault => ([], .error fault)
      | .ok unit =>
          let (lines, outcome) := unitLines rest
          (unitLine text unit.classify.mapping :: lines, outcome)

def unitsReport (texts : List String) (volume : Volume) : Report :=
  match unitLines texts with
  | (lines, .ok ()) => Report.success (unitsHeading :: lines) volume
  | (lines, .error fault) => Report.fault (unitsHeading :: lines) fault volume

/-- The sources of a demonstration: ticks, the time since its start, and a constant. -/
def demoMonitors : List (String × Monitor) :=
  [("ticks", .counter "demo.ticks" .item 0),
    ("uptime", .gauge "demo.uptime" (.ofScale (.time .second)) 0),
    ("version", .constant "demo.version" .item (.str programVersion))]

def addMonitors (writer : Writer) (volume : Volume) : List (String × Monitor) → Outcome Writer
  | [] => .ok writer
  | (_, monitor) :: rest => do
      let reply := writer.addMonitor volume monitor monitor.unit monitor.semantics
      reply.result
      addMonitors reply.writer volume rest

def demoHeading (writer : Writer) (duration : UInt64) : List String :=
  [s!"Publishing {writer.path} ({writer.format.title}) for {(Duration.ofSeconds duration).message}"]
    ++ (writer.sidecar.toList.map fun path => s!"  Sidecar: {path}") ++
    [s!"  Generation: {writer.generation}"]

/-- A published file with its bridge running, and the printed lines; or the files and the fault
that kept it from that. -/
def demoStart (path : String) (format : FileFormat) (duration generation : UInt64)
    (volume : Volume) : Except (Volume × Fault) (Site × List String) :=
  match addMonitors (Writer.ofPath path format) volume demoMonitors with
  | .error fault => .error (volume, fault)
  | .ok writer =>
      let reply := writer.start volume generation
      match reply.result, Bridge.ofConfig .standard with
      | .error fault, _ => .error (reply.volume, fault)
      | _, .error fault => .error (reply.volume, fault)
      | .ok (), .ok bridge =>
          let (site, _, outcome) :=
            ({ bridge := bridge, writer := reply.writer, volume := reply.volume,
               monitors := demoMonitors } : Site).start
          match outcome with
          | .error fault => .error (site.volume, fault)
          | .ok () => .ok (site, demoHeading reply.writer duration)

/-- One tick of a demonstration at an uptime, the bits of a double of seconds. -/
def demoTick (site : Site) (uptime : UInt64) : Site :=
  let site := site.modifyMonitor "ticks" fun ticks => ticks.add 1
  let site := site.modifyMonitor "uptime" fun gauge => gauge.set (.f64 uptime)
  let (bridge, _) := site.bridge.notify "ticks" 0
  let (bridge, _) := bridge.notify "uptime" 0
  (Site.settle { site with bridge := bridge }).1

def tickCount (site : Site) : Int :=
  match site.monitor? "ticks" with
  | some (.counter _ _ count) => count.toInt
  | _ => 0

/-- Stops the bridge and the writer of a demonstration. -/
def demoFinish (site : Site) (output : List String) : Report :=
  let (site, _, _, outcome) := site.stop
  match outcome with
  | .error fault => Report.fault output fault site.volume
  | .ok () =>
      let reply := site.writer.stop site.volume
      match reply.result with
      | .error fault => Report.fault output fault reply.volume
      | .ok () =>
          let results := ["", "Results:", s!"  Ticks: {tickCount site}",
            s!"  Applied updates: {site.bridge.applied}",
            s!"  Dropped signals: {site.bridge.overflow.dropped}"]
          Report.success (output ++ results) reply.volume

/-- Publishes a file and updates it at each of the given uptimes. -/
def demoReport (path : String) (format : FileFormat) (durationText : String) (volume : Volume)
    (generation : UInt64) (uptimes : List UInt64) : Report :=
  match duration durationText with
  | .error flaw => Report.refusal [] flaw.message volume
  | .ok duration =>
      match demoStart path format duration generation volume with
      | .error (volume, fault) => Report.fault [] fault volume
      | .ok (site, output) => demoFinish (uptimes.foldl demoTick site) output

/-- The directory of a measurement, in the one for temporary files. -/
def benchDirectory (temporary : String) : String :=
  temporary ++ "/mmvexport_bench"

/-- A metric of a measurement, a count with a name of its own. -/
def benchMetric (i : Nat) : Metric where
  name := s!"metric.{i}"
  semantics := .counter
  unit := .item
  handler := .numeric .i64
  initial := .i64 0

/-- The unstarted writer of a measurement. Its names are numbered, so each is valid and none is
there twice. -/
def benchWriter (format : FileFormat) (count : Nat) (directory : String) : Writer :=
  { Writer.ofPath s!"{directory}/bench.mmv" format with
    metrics := (List.range count).map benchMetric
    index := (List.range count).map fun i => ((benchMetric i).name, i) }

/-- The files after `rounds` rounds of updates, each of which writes its number into every metric.
A round overwrites all that the rounds before it wrote, so the last one is enough. -/
def benchRounds (writer : Writer) (rounds : Nat) (volume : Volume) : Outcome Volume :=
  if rounds = 0 then .ok volume else writer.updatedAll volume (.i64 (Int64.ofNat rounds))

def benchHeading (updates metrics : Nat) (format : FileFormat) : List String :=
  ["mmvexport update benchmark", s!"  Updates: {updates}", s!"  Metrics: {metrics}",
    s!"  Variant: {format.title}", ""]

/-- The lines of a measurement, given the times as texts: the whole, per update, and updates per
second. -/
def benchResults (updates metrics total : Nat) (times : String × String × String) : List String :=
  let (elapsed, latency, throughput) := times
  [s!"Writing {updates} updates across {metrics} metrics...", "", "Results:",
    s!"  Total updates: {total}", s!"  Elapsed: {elapsed}", s!"  Avg latency: {latency} ns/update",
    s!"  Throughput: {throughput} updates/sec", ""]

/-- Measures updates. The files of a measurement are removed at its end, unless it fails. -/
def benchReport (updates metrics : Nat) (format : FileFormat) (temporary : String)
    (volume : Volume) (generation : UInt64) (times : String × String × String) : Report :=
  let heading := benchHeading updates metrics format
  let directory := benchDirectory temporary
  let count := max metrics 1
  let rounds := updates / count
  match volume.makeDirectories directory with
  | (volume, .error flaw) => Report.refusal heading flaw.message volume
  | (volume, .ok place) =>
      let reply := (benchWriter format count directory).start volume generation
      match reply.result with
      | .error fault => Report.fault heading fault reply.volume
      | .ok () =>
          match benchRounds reply.writer rounds reply.volume with
          | .error fault => Report.fault heading fault reply.volume
          | .ok finished =>
              Report.success (heading ++ benchResults updates count (rounds * count) times)
                (finished.remove place)

/-- Runs a command, given the directory for temporary files, a generation, the uptimes of a
demonstration, and the times of a measurement. -/
def Command.run (command : Command) (temporary : String) (volume : Volume) (generation : UInt64)
    (uptimes : List UInt64) (times : String × String × String) : Report :=
  match command with
  | .version => Report.success [s!"mmvexport {programVersion}"] volume
  | .help page => Report.success page volume
  | .layout config => layoutReport config volume
  | .units texts => unitsReport texts volume
  | .demo path format duration _ => demoReport path format duration volume generation uptimes
  | .bench updates metrics format =>
      benchReport updates metrics format temporary volume generation times

end MappedMetrics.Cli
