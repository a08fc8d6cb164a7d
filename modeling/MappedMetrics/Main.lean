import MappedMetrics.Cli

namespace MappedMetrics.Main

open MappedMetrics.Cli

/-- A volume with the contents of one file, if it can be read. -/
def loadFile (path : String) : IO Volume := do
  try
    let bytes ← IO.FS.readBinFile path
    match Volume.route path with
    | .ok route =>
        let volume := Volume.empty.withDirectory ("/".intercalate route.above)
        match volume.write path (.ofBytes bytes.toList) with
        | .ok (volume, _) => pure volume
        | .error _ => pure volume
    | .error _ => pure .empty
  catch _ => pure .empty

/-- A volume with the directories above a path that are there. -/
def loadDirectories (path : String) : IO Volume := do
  match Volume.route path with
  | .ok route =>
      let above := route.above
      let paths := (List.range above.length).map fun i => "/".intercalate (above.take (i + 1))
      let found ← paths.filterM fun (path : String) => do
        try
          let _ ← IO.FS.realPath path
          pure (path ≠ "")
        catch _ => pure false
      pure (found.foldl Volume.withDirectory Volume.empty)
  | .error _ => pure .empty

/-- Writes a file of the volume to the disk. -/
def save (volume : Volume) (path : String) : IO Unit := do
  match volume.read path with
  | .ok image => IO.FS.writeBinFile path image.toBytes.toByteArray
  | .error _ => pure ()

/-- A generation at the time of the clock. -/
def stamp : IO UInt64 := do
  pure (Writer.stamp (Int.ofNat (← IO.monoNanosNow)))

/-- Waits, ticks and saves until the time is over. -/
partial def tickUntil (finish start interval : Nat) (path : String) (site : Site) : IO Site := do
  if finish ≤ (← IO.monoNanosNow) then pure site
  else
    IO.sleep (UInt32.ofNat interval)
    let elapsed := (← IO.monoNanosNow) - start
    let uptime := (Float.ofNat elapsed / 1e9).toBits
    let site := demoTick site uptime
    save site.volume path
    tickUntil finish start interval path site

def printReport (report : Report) : IO UInt32 := do
  for line in report.output do
    IO.println line
  match report.failure with
  | some message => IO.eprintln message
  | none => pure ()
  pure (UInt32.ofNat report.code)

def runDemo (path : String) (format : FileFormat) (text : String) (interval : Nat) :
    IO UInt32 := do
  match duration text with
  | .error flaw => printReport (Report.refusal [] flaw.message .empty)
  | .ok seconds =>
      match demoStart path format seconds (← stamp) (← loadDirectories path) with
      | .error (volume, fault) => printReport (Report.fault [] fault volume)
      | .ok (site, output) =>
          output.forM IO.println
          save site.volume path
          if let some sidecar := site.writer.sidecar then save site.volume sidecar
          let start ← IO.monoNanosNow
          let finish := start + seconds.toNat * 10 ^ 9
          let site ← tickUntil finish start (max interval 1) path site
          let report := demoFinish site []
          save report.volume path
          printReport report

/-- Writes round after round into every metric, from the given round on. -/
def runRounds (writer : Writer) : Nat → Nat → Volume → Volume
  | 0, _, volume => volume
  | rounds + 1, round, volume =>
      match writer.updatedAll volume (.i64 (Int64.ofNat round)) with
      | .ok volume => runRounds writer rounds (round + 1) volume
      | .error _ => volume

/-- The texts of a time in nanoseconds: the whole, per update, and updates per second. -/
def timeTexts (elapsed total : Nat) : String × String × String :=
  (s!"{elapsed}ns", toString (Float.ofNat elapsed / Float.ofNat (max total 1)),
    toString (Float.ofNat total * 1e9 / Float.ofNat (max elapsed 1)))

def temporaryDirectory : IO String := do
  pure ((← IO.getEnv "TMPDIR").getD "/tmp")

def runBench (updates metrics : Nat) (format : FileFormat) : IO UInt32 := do
  let temporary ← temporaryDirectory
  let count := max metrics 1
  let rounds := updates / count
  let directory := benchDirectory temporary
  let reply := (benchWriter format count directory).start
    (Volume.empty.withDirectory directory) (← stamp)
  let start ← IO.monoNanosNow
  let finished := runRounds reply.writer rounds 1 reply.volume
  if finished.nodes.isEmpty then IO.eprintln "no file is left"
  let elapsed := (← IO.monoNanosNow) - start
  printReport (benchReport updates metrics format temporary .empty (← stamp)
    (timeTexts elapsed (rounds * count)))

def run (arguments : List String) : IO UInt32 := do
  match Command.parse? arguments with
  | none =>
      IO.eprintln "error: the arguments are not understood"
      pure 2
  | some (.demo path format text interval) => runDemo path format text interval
  | some (.bench updates metrics format) => runBench updates metrics format
  | some (.layout path) =>
      printReport ((Command.layout path).run "" (← loadFile path) 1 [] ("", "", ""))
  | some command => printReport (command.run "" .empty 1 [] ("", "", ""))

end MappedMetrics.Main

def main (arguments : List String) : IO UInt32 :=
  MappedMetrics.Main.run arguments
