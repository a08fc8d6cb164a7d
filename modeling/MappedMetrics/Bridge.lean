import MappedMetrics.Bridge.Channel
import MappedMetrics.Bridge.Overflow
import MappedMetrics.Config
import MappedMetrics.Writer

/-!
The bridge between the threads of a program and the writer. A change of a metric is signalled
through a bounded queue; one thread empties the queue in batches and writes, for each metric of a
batch, the value that it then reads. Signals carry no values, so of several signals for one name
in a batch the first is enough.

The thread is a sequence of stages, each of which does one thing that other threads can see.
-/

namespace MappedMetrics

/-- What the queue holds: the key of a source that changed, or the wish to end. -/
inductive Signal where
  | changed (key : String)
  | shutdown
deriving DecidableEq, Repr

/-- The key of a signalled change. -/
def Signal.key? : Signal → Option String
  | .changed key => some key
  | .shutdown => none

inductive Ending where
  | done
  | failed (error : Error)
  | gaveUp (failure : ProbeFailure)
deriving DecidableEq, Repr

inductive Stage where
  /-- About to wait for the first signal of a batch. -/
  | receiving
  /-- About to take a further signal, if one is queued. -/
  | draining (batch : List String)
  /-- About to read the next source of a batch, after those of the names already seen. -/
  | applying (shutdown : Bool) (batch seen : List String)
  /-- About to write a value that was read. -/
  | writing (shutdown : Bool) (batch seen : List String) (name : String) (value : MetricValue)
  /-- About to look whether the bridge was stopped. -/
  | checking (shutdown : Bool)
  /-- About to drop the receiving end. -/
  | leaving (ending : Ending)
  /-- About to say that it no longer runs. -/
  | released (ending : Ending)
  | finished (ending : Ending)
deriving DecidableEq

structure Bridge where
  config : BridgeConfig
  channel : Channel Signal
  started : Bool
  /-- The thread, until it was waited for. -/
  thread : Option Stage
  stop : Bool
  running : Bool
  /-- The updates that succeeded, counted modulo 2⁶⁴. -/
  applied : UInt64
  overflow : Overflow

/-- A bridge with the writer that its thread updates, the files, and the sources by key. -/
structure Site where
  bridge : Bridge
  writer : Writer
  volume : Volume
  monitors : List (String × Monitor)

namespace Bridge

/-- A bridge that is not started. Signals may be queued at once. -/
def ofConfig (config : BridgeConfig) : Outcome Bridge :=
  if config.capacity = 0 then (ConfigurationError.invalidConfig .bridgeCapacity).refuse
  else
    .ok
      { config := config
        channel := .ofCapacity config.capacity
        started := false
        thread := none
        stop := false
        running := false
        applied := 0
        overflow := .none }

/-- Signals a change without waiting, at a time in microseconds; tells whether the signal was
queued. -/
def notify (bridge : Bridge) (key : String) (microseconds : Nat) : Bridge × Bool × List Event :=
  match bridge.channel.send (.changed key) with
  | (channel, .accepted) => ({ bridge with channel := channel }, true, [])
  | (_, .full) =>
      let (overflow, events) := bridge.overflow.record bridge.config.interval microseconds
      ({ bridge with overflow := overflow }, false, events)
  | (_, .disconnected) => (bridge, false, [])

/-- Signals changes one after the other, if there is room for all of them. -/
def notifyAll? (bridge : Bridge) (keys : List String) : Option Bridge :=
  (bridge.channel.sendAll? (keys.map .changed)).map fun channel =>
    { bridge with channel := channel }

theorem notify_of_notifyAll? {bridge later : Bridge} {key : String} {keys : List String}
    (h : bridge.notifyAll? (key :: keys) = some later) (microseconds : Nat) :
    ∃ next, bridge.notify key microseconds = (next, true, []) ∧
      next.notifyAll? keys = some later := by
  obtain ⟨channel, hchannel, hlater⟩ := Option.map_eq_some_iff.mp h
  obtain ⟨hsend, hrest⟩ := Channel.send_of_sendAll? hchannel
  refine ⟨_, by rw [notify, hsend], ?_⟩
  rw [notifyAll?, hrest, ← hlater]
  rfl

def queued (bridge : Bridge) : Nat :=
  bridge.channel.queue.length

def message (bridge : Bridge) : String :=
  s!"UpdateBridge \x7b config: {bridge.config.message}, running: {bridge.running}, " ++
    s!"queued: {bridge.queued}, dropped: {bridge.overflow.dropped} \x7d"

def notifierMessage (bridge : Bridge) : String :=
  s!"UpdateNotifier \x7b queued: {bridge.queued} \x7d"

end Bridge

namespace Site

def monitor? (site : Site) (key : String) : Option Monitor :=
  (site.monitors.find? fun entry => entry.1 = key).map (·.2)

def modifyMonitor (site : Site) (key : String) (change : Monitor → Monitor) : Site :=
  { site with
    monitors := site.monitors.map fun entry =>
      if entry.1 = key then (entry.1, change entry.2) else entry }

/-- The site once the thread has come to a stage. -/
def enter (site : Site) (stage : Stage) : Site :=
  { site with bridge := { site.bridge with thread := some stage } }

def setChannel (site : Site) (channel : Channel Signal) : Site :=
  { site with bridge := { site.bridge with channel := channel } }

def stepWriting (site : Site) (shutdown : Bool) (batch seen : List String) (name : String)
    (value : MetricValue) : Site × List Event :=
  match site.writer.updated site.volume name value with
  | .ok volume =>
      let bridge := { site.bridge with applied := site.bridge.applied + 1 }
      (enter { site with volume := volume, bridge := bridge } (.applying shutdown batch seen), [])
  | .error (.refused (.lifecycle .stopped)) => (site.enter (.leaving .done), [.leftStoppedWriter])
  | .error (.refused error) =>
      (site.enter (.leaving (.failed error)), [.failedUpdate error.message])
  | .error (.halted _) =>
      (site.enter (.leaving (.gaveUp none)), [.abandonedUpdate (ProbeFailure.message none)])

/-- Reads the next source of a batch, unless its name was seen. -/
def stepApplying (site : Site) (shutdown : Bool) (batch seen : List String) : Site × List Event :=
  match batch with
  | [] => (site.enter (.checking shutdown), [])
  | key :: batch =>
      match site.monitor? key with
      | none => (site.enter (.applying shutdown batch seen), [])
      | some monitor =>
          if seen.contains monitor.name then (site.enter (.applying shutdown batch seen), [])
          else
            match monitor.current with
            | .ok value =>
                (site.enter (.writing shutdown batch (monitor.name :: seen) monitor.name value), [])
            | .error failure =>
                (site.enter (.leaving (.gaveUp failure)), [.abandonedUpdate failure.message])

/-- One step of the thread from a stage, absent where it waits for a signal or has ended. -/
def stepFrom (site : Site) : Stage → Option (Site × List Event)
  | .receiving =>
      match site.bridge.channel.receive with
      | none => none
      | some (.changed key, channel) => some ((site.setChannel channel).enter (.draining [key]), [])
      | some (.shutdown, channel) =>
          some ((site.setChannel channel).enter (.applying true [] []), [])
  | .draining batch =>
      match site.bridge.channel.receive with
      | none => some (site.enter (.applying false batch []), [])
      | some (.changed key, channel) =>
          some ((site.setChannel channel).enter (.draining (batch ++ [key])), [])
      | some (.shutdown, channel) =>
          some ((site.setChannel channel).enter (.applying true batch []), [])
  | .applying shutdown batch seen => some (site.stepApplying shutdown batch seen)
  | .writing shutdown batch seen name value =>
      some (site.stepWriting shutdown batch seen name value)
  | .checking shutdown =>
      if shutdown || site.bridge.stop then some (site.enter (.leaving .done), [])
      else some (site.enter .receiving, [])
  | .leaving ending =>
      some ((site.setChannel site.bridge.channel.close).enter (.released ending), [])
  | .released ending =>
      let bridge := { site.bridge with running := false }
      some (enter { site with bridge := bridge } (.finished ending), [])
  | .finished _ => none

def step (site : Site) : Option (Site × List Event) :=
  match site.bridge.thread with
  | some stage => site.stepFrom stage
  | none => none

/-- At most `fuel` steps of the thread, until a goal is reached, it waits or it has ended. What it
reports comes after what was reported before. -/
def stepMany (goal : Site → Bool) : Nat → Site → List Event → Site × List Event
  | 0, site, events => (site, events)
  | fuel + 1, site, events =>
      if goal site then (site, events)
      else
        match site.step with
        | none => (site, events)
        | some (site, later) => stepMany goal fuel site (events ++ later)

/-- Takes at once, where the thread empties the queue, the changes that are queued before anything
else. -/
def takeChanges (site : Site) : Site :=
  match site.bridge.thread with
  | some (.draining batch) =>
      let queue := site.bridge.channel.queue
      let keys := (queue.takeWhile fun signal => signal.key?.isSome).filterMap Signal.key?
      let rest := queue.dropWhile fun signal => signal.key?.isSome
      (site.setChannel { site.bridge.channel with queue := rest }).enter (.draining (batch ++ keys))
  | _ => site

/-- To take changes at once is to take them step by step. -/
theorem takeChanges_of_step {site : Site} {batch : List String} {key : String}
    {queue : List Signal} (hthread : site.bridge.thread = some (.draining batch))
    (hqueue : site.bridge.channel.queue = .changed key :: queue) :
    ∃ next, site.step = some (next, []) ∧ next.takeChanges = site.takeChanges := by
  refine ⟨(site.setChannel { site.bridge.channel with queue := queue }).enter
    (.draining (batch ++ [key])), ?_, ?_⟩
  · simp only [step, hthread, stepFrom, Channel.receive, hqueue]
  · simp [takeChanges, hthread, hqueue, enter, setChannel, Signal.key?]

/-- The signals that a stage has taken and not yet dealt with. -/
def taken : Stage → Nat
  | .draining batch | .applying _ batch _ | .writing _ batch _ _ _ => batch.length
  | _ => 0

/-- Runs the thread until a goal is reached, it waits or it has ended. Each signal costs at most
three steps and a pass of the loop costs at most seven more. -/
def settleUntil (site : Site) (goal : Site → Bool) : Site × List Event :=
  match site.bridge.thread with
  | some stage => stepMany goal (3 * (site.bridge.queued + taken stage) + 14) site []
  | none => (site, [])

/-- Runs the thread until it waits or has ended. -/
def settle (site : Site) : Site × List Event :=
  site.takeChanges.settleUntil fun _ => false

/-- Gives the receiving end to a thread. The writer must be started; of the other two refusals,
the one of a bridge whose thread was not waited for comes first. -/
def start (site : Site) : Site × List Event × Outcome Unit :=
  if site.writer.phase ≠ .started then (site, [], LifecycleError.notStarted.refuse)
  else if site.bridge.thread.isSome then (site, [], LifecycleError.bridgeRunning.refuse)
  else if site.bridge.started then (site, [], LifecycleError.stopped.refuse)
  else
    let bridge := { site.bridge with started := true, running := true, thread := some .receiving }
    let config := site.bridge.config
    ({ site with bridge := bridge }, [.startedBridge config.threadName config.capacity], .ok ())

def verdict : Ending → Outcome Unit
  | .done => .ok ()
  | .failed error => (UpdateError.bridgeFailed error.message).refuse
  | .gaveUp failure =>
      (UpdateError.bridgeFailed s!"writer thread panicked: {failure.message}").refuse

/-- Raises the flag that the thread looks at after each batch. -/
def raiseFlag (site : Site) : Site :=
  { site with bridge := { site.bridge with stop := true } }

/-- Asks the thread to end. A full queue needs no such wish, as the thread is busy and will look at
the flag. -/
def askToEnd (site : Site) : Site :=
  site.setChannel (site.bridge.channel.send .shutdown).1

/-- Takes the ending of a thread that was waited for. -/
def join (site : Site) : Site × List Event × Outcome Unit :=
  let outcome :=
    match site.bridge.thread with
    | some (.finished ending) => verdict ending
    | _ => .ok ()
  let stopped := Event.stoppedBridge site.bridge.applied site.bridge.overflow.dropped
  ({ site with bridge := { site.bridge with thread := none } }, [stopped], outcome)

/-- Ends the thread and waits for it: the site, the reports of the thread, those of the caller, and
the result. Without a thread nothing happens. -/
def stop (site : Site) : Site × List Event × List Event × Outcome Unit :=
  if site.bridge.thread.isSome then
    let (site, threadEvents) := site.raiseFlag.askToEnd.settle
    let (site, events, outcome) := site.join
    (site, threadEvents, events, outcome)
  else (site, [], [], .ok ())

/-- Stops the bridge, reports how that failed if it did, and drops the receiving end. -/
def drop (site : Site) : Site × List Event × List Event :=
  let (site, threadEvents, events, outcome) := site.stop
  let failures :=
    match outcome with
    | .error (.refused error) => [Event.failedBridge error.message]
    | _ => []
  (site.setChannel site.bridge.channel.close, threadEvents, events ++ failures)

end Site

end MappedMetrics
