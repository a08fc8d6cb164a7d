import MappedMetrics.Bridge

/-!
A bridge among threads. Any thread may signal a change, the sources change at any moment, the
thread of the bridge goes from stage to stage, and the owner starts and stops the bridge. A run is
any order of such moves; each move says what happened.
-/

namespace MappedMetrics.Proofs.BridgeInterleaving

open MappedMetrics

/-- How far the owner has come in stopping the bridge. -/
inductive Owner where
  | idle
  | flagged
  | asked
deriving DecidableEq, Repr

inductive Happening where
  /-- A signal was queued. -/
  | accepted (key : String)
  /-- A signal found the queue full. -/
  | dropped (key : String)
  /-- A signal found the receiving end gone. -/
  | unheard (key : String)
  | started
  | startRefused (fault : Fault)
  | flagged
  | asked
  | returned
  | took (key : String)
  /-- The thread found the queue empty or took the wish to end. -/
  | drained
  | skipped (key : String)
  | read (key name : String) (value : MetricValue)
  | wrote (name : String) (value : MetricValue)
  /-- A source gave up, an update failed, or the writer was stopped. -/
  | abandoned
  | closed
deriving DecidableEq

inductive Move where
  | notify (key : String) (microseconds : Nat)
  /-- A source becomes another one of the same name. -/
  | change (key : String) (monitor : Monitor)
  | thread
  | start
  | raiseFlag
  | askToEnd
  | join
  | markWriter
  | releaseWriter

structure World where
  site : Site
  owner : Owner

/-- What the thread did on its way from one stage to the next. -/
def report : Stage → Stage → List Happening
  | .receiving, .draining batch => batch.map .took
  | .receiving, .applying .. => [.drained]
  | .draining batch, .draining longer => (longer.drop batch.length).map .took
  | .draining _, .applying .. => [.drained]
  | .applying _ (key :: _) _, .applying .. => [.skipped key]
  | .applying _ (key :: _) _, .writing _ _ _ name value => [.read key name value]
  | .applying .., .leaving _ => [.abandoned]
  | .writing _ _ _ name value, .applying .. => [.wrote name value]
  | .writing .., .leaving _ => [.abandoned]
  | .leaving _, .released _ => [.closed]
  | _, _ => []

namespace World

variable (world : World)

def thread : Option Stage :=
  world.site.bridge.thread

def channel : Channel Signal :=
  world.site.bridge.channel

def started : Bool :=
  world.site.bridge.started

def nameOf (key : String) : Option String :=
  (world.site.monitor? key).map Monitor.name

def withBridge (bridge : Bridge) : World :=
  { world with site := { world.site with bridge := bridge } }

/-- The world after a move, with what happened; absent where the move cannot be made. -/
def step : Move → Option (World × List Happening)
  | .notify key microseconds =>
      if (world.nameOf key).isSome then
        let (bridge, queued, _) := world.site.bridge.notify key microseconds
        let answer :=
          if queued then Happening.accepted key
          else if world.channel.isOpen then .dropped key
          else .unheard key
        some ({ world with site := { world.site with bridge := bridge } }, [answer])
      else none
  | .change key monitor =>
      if world.nameOf key = some monitor.name then
        some ({ world with site := world.site.modifyMonitor key fun _ => monitor }, [])
      else none
  | .thread =>
      match world.site.bridge.thread, world.site.step with
      | some stage, some (site, _) =>
          some ({ world with site := site }, (site.bridge.thread.map (report stage)).getD [])
      | _, _ => none
  | .start =>
      if world.owner = .idle then
        match world.site.start with
        | (site, _, .ok ()) => some ({ world with site := site }, [.started])
        | (site, _, .error fault) => some ({ world with site := site }, [.startRefused fault])
      else none
  | .raiseFlag =>
      if world.owner = .idle ∧ world.thread.isSome then
        some (⟨world.site.raiseFlag, .flagged⟩, [.flagged])
      else none
  | .askToEnd =>
      if world.owner = .flagged then some (⟨world.site.askToEnd, .asked⟩, [.asked]) else none
  | .join =>
      match world.owner, world.thread with
      | .asked, some (.finished _) => some (⟨world.site.join.1, .idle⟩, [.returned])
      | _, _ => none
  | .markWriter =>
      if world.site.writer.phase = .started then
        some ({ world with site :=
          { world.site with writer := world.site.writer.markStopped } }, [])
      else none
  | .releaseWriter =>
      if world.site.writer.phase = .stopped then
        some ({ world with site := { world.site with writer := world.site.writer.release } }, [])
      else none

def Fresh : Prop :=
  (∃ config, Bridge.ofConfig config = .ok world.site.bridge) ∧ world.owner = .idle

end World

theorem bridge_of_fresh {world : World} (hfresh : world.Fresh) :
    ∃ config : BridgeConfig, 0 < config.capacity ∧ world.site.bridge =
      { config := config
        channel := .ofCapacity config.capacity
        started := false
        thread := none
        stop := false
        running := false
        applied := 0
        overflow := .none } := by
  obtain ⟨⟨config, hbridge⟩, _⟩ := hfresh
  simp only [Bridge.ofConfig] at hbridge
  split at hbridge
  · cases hbridge
  · rename_i hroomy
    exact ⟨config, Nat.pos_of_ne_zero hroomy, (Except.ok.inj hbridge).symm⟩

/-- The worlds that moves lead to, with what happened on the way. -/
inductive Run (first : World) : List Happening → World → Prop where
  | refl : Run first [] first
  | step {log happenings : List Happening} {world next : World} (move : Move) :
      Run first log world → world.step move = some (next, happenings) →
        Run first (log ++ happenings) next

def World.steps (world : World) : List Move → Option (World × List Happening)
  | [] => some (world, [])
  | move :: moves =>
      match world.step move with
      | none => none
      | some (next, happenings) =>
          (next.steps moves).map fun (last, later) => (last, happenings ++ later)

/-- One step of the thread as the other threads see it: what it does to the queue, the stage that it
comes to, and what happened. `nameOf` gives the names of the sources, and `stop` is the flag. -/
inductive Advance (nameOf : String → Option String) (stop : Bool) :
    Channel Signal → Stage → List Happening → Channel Signal → Stage → Prop where
  | takeFirst {channel : Channel Signal} {key : String} {rest : List Signal} :
      channel.queue = .changed key :: rest →
        Advance nameOf stop channel .receiving [.took key] { channel with queue := rest }
          (.draining [key])
  | endFirst {channel : Channel Signal} {rest : List Signal} :
      channel.queue = .shutdown :: rest →
        Advance nameOf stop channel .receiving [.drained] { channel with queue := rest }
          (.applying true [] [])
  | take {channel : Channel Signal} {key : String} {rest : List Signal} {batch : List String} :
      channel.queue = .changed key :: rest →
        Advance nameOf stop channel (.draining batch) [.took key] { channel with queue := rest }
          (.draining (batch ++ [key]))
  | takeEnd {channel : Channel Signal} {rest : List Signal} {batch : List String} :
      channel.queue = .shutdown :: rest →
        Advance nameOf stop channel (.draining batch) [.drained] { channel with queue := rest }
          (.applying true batch [])
  | empty {channel : Channel Signal} {batch : List String} :
      channel.queue = [] →
        Advance nameOf stop channel (.draining batch) [.drained] channel (.applying false batch [])
  | skip {channel : Channel Signal} {shutdown : Bool} {key : String} {batch seen : List String} :
      (∀ name, nameOf key = some name → name ∈ seen) →
        Advance nameOf stop channel (.applying shutdown (key :: batch) seen) [.skipped key] channel
          (.applying shutdown batch seen)
  | read {channel : Channel Signal} {shutdown : Bool} {key name : String}
      {batch seen : List String} {value : MetricValue} :
      nameOf key = some name → name ∉ seen →
        Advance nameOf stop channel (.applying shutdown (key :: batch) seen)
          [.read key name value] channel (.writing shutdown batch (name :: seen) name value)
  | giveUp {channel : Channel Signal} {shutdown : Bool} {key : String} {batch seen : List String}
      {ending : Ending} :
      Advance nameOf stop channel (.applying shutdown (key :: batch) seen) [.abandoned] channel
        (.leaving ending)
  | applied {channel : Channel Signal} {shutdown : Bool} {seen : List String} :
      Advance nameOf stop channel (.applying shutdown [] seen) [] channel (.checking shutdown)
  | write {channel : Channel Signal} {shutdown : Bool} {batch seen : List String} {name : String}
      {value : MetricValue} :
      Advance nameOf stop channel (.writing shutdown batch seen name value) [.wrote name value]
        channel (.applying shutdown batch seen)
  | fail {channel : Channel Signal} {shutdown : Bool} {batch seen : List String} {name : String}
      {value : MetricValue} {ending : Ending} :
      Advance nameOf stop channel (.writing shutdown batch seen name value) [.abandoned] channel
        (.leaving ending)
  | leave {channel : Channel Signal} {shutdown : Bool} :
      (shutdown || stop) = true →
        Advance nameOf stop channel (.checking shutdown) [] channel (.leaving .done)
  | again {channel : Channel Signal} {shutdown : Bool} :
      (shutdown || stop) = false →
        Advance nameOf stop channel (.checking shutdown) [] channel .receiving
  | close {channel : Channel Signal} {ending : Ending} :
      Advance nameOf stop channel (.leaving ending) [.closed] channel.close (.released ending)
  | finish {channel : Channel Signal} {ending : Ending} :
      Advance nameOf stop channel (.released ending) [] channel (.finished ending)

/-- What a step of the thread leaves as it is. -/
structure Kept (before after : Site) : Prop where
  monitors : after.monitors = before.monitors
  stop : after.bridge.stop = before.bridge.stop
  started : after.bridge.started = before.bridge.started

theorem advance_of_stepApplying {site next : Site} {shutdown : Bool} {batch seen : List String}
    {events : List Event} (hnext : site.stepApplying shutdown batch seen = (next, events)) :
    ∃ stage, next.bridge.thread = some stage ∧ Kept site next ∧
      Advance (fun key => (site.monitor? key).map Monitor.name) site.bridge.stop
        site.bridge.channel (.applying shutdown batch seen)
        (report (.applying shutdown batch seen) stage) next.bridge.channel stage := by
  cases batch with
  | nil =>
      cases hnext
      exact ⟨_, rfl, ⟨rfl, rfl, rfl⟩, .applied⟩
  | cons key batch =>
      simp only [Site.stepApplying] at hnext
      split at hnext
      · rename_i hmonitor
        cases hnext
        -- A key without a monitor has no name, so there is none that has to be seen.
        refine ⟨_, rfl, ⟨rfl, rfl, rfl⟩, .skip ?_⟩
        intro name hname
        simp [hmonitor] at hname
      · rename_i monitor hmonitor
        have hname : (site.monitor? key).map Monitor.name = some monitor.name := by
          rw [hmonitor, Option.map_some]
        split at hnext
        · rename_i hseen
          cases hnext
          refine ⟨_, rfl, ⟨rfl, rfl, rfl⟩, .skip ?_⟩
          intro name hother
          have hsame : monitor.name = name := by
            simpa only [hname, Option.some.injEq] using hother
          exact hsame ▸ List.contains_iff_mem.mp hseen
        · rename_i hseen
          have hfresh : monitor.name ∉ seen := fun hmem =>
            hseen (List.contains_iff_mem.mpr hmem)
          split at hnext
          · cases hnext
            exact ⟨_, rfl, ⟨rfl, rfl, rfl⟩, .read hname hfresh⟩
          · cases hnext
            exact ⟨_, rfl, ⟨rfl, rfl, rfl⟩, .giveUp⟩

theorem advance_of_stepWriting {site next : Site} {shutdown : Bool} {batch seen : List String}
    {name : String} {value : MetricValue} {events : List Event}
    (hnext : site.stepWriting shutdown batch seen name value = (next, events)) :
    ∃ stage, next.bridge.thread = some stage ∧ Kept site next ∧
      Advance (fun key => (site.monitor? key).map Monitor.name) site.bridge.stop
        site.bridge.channel (.writing shutdown batch seen name value)
        (report (.writing shutdown batch seen name value) stage) next.bridge.channel stage := by
  simp only [Site.stepWriting] at hnext
  split at hnext
  · cases hnext
    exact ⟨_, rfl, ⟨rfl, rfl, rfl⟩, .write⟩
  all_goals
    cases hnext
    exact ⟨_, rfl, ⟨rfl, rfl, rfl⟩, .fail⟩

theorem queue_eq_of_receive {channel later : Channel Signal} {signal : Signal}
    (hreceive : channel.receive = some (signal, later)) :
    ∃ rest, channel.queue = signal :: rest ∧ later = { channel with queue := rest } := by
  simp only [Channel.receive] at hreceive
  split at hreceive
  · cases hreceive
  · rename_i rest hqueue
    cases hreceive
    exact ⟨rest, hqueue, rfl⟩

theorem queue_eq_nil_of_receive {channel : Channel Signal} (hreceive : channel.receive = none) :
    channel.queue = [] := by
  simp only [Channel.receive] at hreceive
  split at hreceive
  · assumption
  · cases hreceive

theorem advance_of_stepFrom {site next : Site} {stage : Stage} {events : List Event}
    (hstep : site.stepFrom stage = some (next, events)) :
    ∃ after, next.bridge.thread = some after ∧ Kept site next ∧
      Advance (fun key => (site.monitor? key).map Monitor.name) site.bridge.stop
        site.bridge.channel stage (report stage after) next.bridge.channel after := by
  cases stage with
  | receiving =>
      simp only [Site.stepFrom] at hstep
      split at hstep
      · cases hstep
      · rename_i key later hreceive
        obtain ⟨rest, hqueue, rfl⟩ := queue_eq_of_receive hreceive
        cases hstep
        exact ⟨_, rfl, ⟨rfl, rfl, rfl⟩, .takeFirst hqueue⟩
      · rename_i later hreceive
        obtain ⟨rest, hqueue, rfl⟩ := queue_eq_of_receive hreceive
        cases hstep
        exact ⟨_, rfl, ⟨rfl, rfl, rfl⟩, .endFirst hqueue⟩
  | draining batch =>
      simp only [Site.stepFrom] at hstep
      split at hstep
      · rename_i hreceive
        cases hstep
        exact ⟨_, rfl, ⟨rfl, rfl, rfl⟩, .empty (queue_eq_nil_of_receive hreceive)⟩
      · rename_i key later hreceive
        obtain ⟨rest, hqueue, rfl⟩ := queue_eq_of_receive hreceive
        cases hstep
        refine ⟨_, rfl, ⟨rfl, rfl, rfl⟩, ?_⟩
        have htook : report (.draining batch) (.draining (batch ++ [key])) = [.took key] := by
          simp [report]
        rw [htook]
        exact .take hqueue
      · rename_i later hreceive
        obtain ⟨rest, hqueue, rfl⟩ := queue_eq_of_receive hreceive
        cases hstep
        exact ⟨_, rfl, ⟨rfl, rfl, rfl⟩, .takeEnd hqueue⟩
  | applying shutdown batch seen =>
      simp only [Site.stepFrom, Option.some.injEq] at hstep
      exact advance_of_stepApplying hstep
  | writing shutdown batch seen name value =>
      simp only [Site.stepFrom, Option.some.injEq] at hstep
      exact advance_of_stepWriting hstep
  | checking shutdown =>
      simp only [Site.stepFrom] at hstep
      split at hstep
      · rename_i hleave
        cases hstep
        exact ⟨_, rfl, ⟨rfl, rfl, rfl⟩, .leave hleave⟩
      · rename_i hstay
        cases hstep
        exact ⟨_, rfl, ⟨rfl, rfl, rfl⟩, .again (Bool.eq_false_iff.mpr hstay)⟩
  | leaving ending =>
      cases hstep
      exact ⟨_, rfl, ⟨rfl, rfl, rfl⟩, .close⟩
  | released ending =>
      cases hstep
      exact ⟨_, rfl, ⟨rfl, rfl, rfl⟩, .finish⟩
  | finished ending => cases hstep

/-- The moves that can be made: what each asks of a world, and what becomes of it. -/
inductive Made (world : World) : Move → World → List Happening → Prop where
  | queued {key : String} {microseconds : Nat} :
      (world.nameOf key).isSome → world.channel.isOpen = true →
      world.channel.queue.length < world.channel.capacity →
        Made world (.notify key microseconds)
          (world.withBridge { world.site.bridge with
            channel := { world.channel with queue := world.channel.queue ++ [.changed key] } })
          [.accepted key]
  | full {key : String} {microseconds : Nat} :
      (world.nameOf key).isSome → world.channel.isOpen = true →
      world.channel.capacity ≤ world.channel.queue.length →
        Made world (.notify key microseconds)
          (world.withBridge { world.site.bridge with
            overflow := (world.site.bridge.overflow.record world.site.bridge.config.interval
              microseconds).1 })
          [.dropped key]
  | unheard {key : String} {microseconds : Nat} :
      (world.nameOf key).isSome → world.channel.isOpen = false →
        Made world (.notify key microseconds) world [.unheard key]
  | changed {key : String} {monitor : Monitor} :
      world.nameOf key = some monitor.name →
        Made world (.change key monitor)
          { world with site := world.site.modifyMonitor key fun _ => monitor } []
  | advanced {stage after : Stage} {site : Site} {events : List Event} :
      world.thread = some stage → world.site.stepFrom stage = some (site, events) →
      site.bridge.thread = some after →
        Made world .thread { world with site := site } (report stage after)
  | started :
      world.owner = .idle → world.thread = none → world.started = false →
        Made world .start
          (world.withBridge { world.site.bridge with
            started := true, running := true, thread := some .receiving })
          [.started]
  | startRefused {fault : Fault} :
      world.owner = .idle → world.site.start = (world.site, [], .error fault) →
        Made world .start world [.startRefused fault]
  | flagged :
      world.owner = .idle → world.thread.isSome →
        Made world .raiseFlag ⟨world.site.raiseFlag, .flagged⟩ [.flagged]
  | asked :
      world.owner = .flagged → Made world .askToEnd ⟨world.site.askToEnd, .asked⟩ [.asked]
  | joined {ending : Ending} :
      world.owner = .asked → world.thread = some (.finished ending) →
        Made world .join ⟨world.site.join.1, .idle⟩ [.returned]
  | marked :
      world.site.writer.phase = .started →
        Made world .markWriter
          { world with site := { world.site with writer := world.site.writer.markStopped } } []
  | released :
      world.site.writer.phase = .stopped →
        Made world .releaseWriter
          { world with site := { world.site with writer := world.site.writer.release } } []

theorem start_ok {site next : Site} {events : List Event}
    (hstart : site.start = (next, events, .ok ())) :
    site.bridge.thread = none ∧ site.bridge.started = false ∧
      next = { site with bridge := { site.bridge with
        started := true, running := true, thread := some .receiving } } := by
  simp only [Site.start, LifecycleError.refuse] at hstart
  split at hstart
  · cases hstart
  · split at hstart
    · cases hstart
    · split at hstart
      · cases hstart
      · rename_i hthread hstarted
        cases hstart
        exact ⟨by simpa using hthread, by simpa using hstarted, rfl⟩

theorem start_error {site next : Site} {events : List Event} {fault : Fault}
    (hstart : site.start = (next, events, .error fault)) : next = site ∧ events = [] := by
  simp only [Site.start] at hstart
  split at hstart
  · cases hstart
    exact ⟨rfl, rfl⟩
  · split at hstart
    · cases hstart
      exact ⟨rfl, rfl⟩
    · split at hstart
      · cases hstart
        exact ⟨rfl, rfl⟩
      · cases hstart

section Made

variable {world next : World} {happenings : List Happening}

theorem made_of_notify {key : String} {microseconds : Nat}
    (hstep : world.step (.notify key microseconds) = some (next, happenings)) :
    Made world (.notify key microseconds) next happenings := by
  simp only [World.step] at hstep
  split at hstep
  · rename_i hnamed
    simp only [Bridge.notify, Channel.send] at hstep
    have hchannel : world.channel = world.site.bridge.channel := rfl
    cases hopen : world.site.bridge.channel.isOpen
    · simp only [hchannel, hopen, Bool.not_false, if_true, Bool.false_eq_true, if_false] at hstep
      cases hstep
      exact .unheard hnamed hopen
    · simp only [hchannel, hopen, Bool.not_true, Bool.false_eq_true, if_false, if_true] at hstep
      by_cases hfull : world.site.bridge.channel.capacity ≤ world.site.bridge.channel.queue.length
      · simp only [hfull, if_true, Bool.false_eq_true, if_false] at hstep
        cases hstep
        exact .full hnamed hopen hfull
      · simp only [hfull, if_false, if_true] at hstep
        cases hstep
        rw [← hopen]
        exact .queued hnamed hopen (Nat.lt_of_not_le hfull)
  · cases hstep

theorem made_of_start (hstep : world.step .start = some (next, happenings)) :
    Made world .start next happenings := by
  simp only [World.step] at hstep
  split at hstep
  · rename_i howner
    split at hstep
    · rename_i site events hstart
      obtain ⟨hthread, hstarted, rfl⟩ := start_ok hstart
      cases hstep
      exact .started howner hthread hstarted
    · rename_i site events fault hstart
      obtain ⟨rfl, rfl⟩ := start_error hstart
      cases hstep
      exact .startRefused howner hstart
  · cases hstep

theorem made_of_thread (hstep : world.step .thread = some (next, happenings)) :
    Made world .thread next happenings := by
  simp only [World.step] at hstep
  split at hstep
  · rename_i stage site events hthread hsite
    simp only [Site.step, hthread] at hsite
    obtain ⟨after, hafter, _⟩ := advance_of_stepFrom hsite
    cases hstep
    rw [hafter]
    exact .advanced hthread hsite hafter
  · cases hstep

theorem made_of_step {move : Move} (hstep : world.step move = some (next, happenings)) :
    Made world move next happenings := by
  cases move with
  | notify key microseconds => exact made_of_notify hstep
  | thread => exact made_of_thread hstep
  | start => exact made_of_start hstep
  | join =>
      simp only [World.step] at hstep
      split at hstep
      · rename_i howner hthread
        cases hstep
        exact .joined howner hthread
      · cases hstep
  | change key monitor =>
      obtain ⟨hname, hnext⟩ := Option.ite_none_right_eq_some.mp hstep
      cases hnext
      exact .changed hname
  | raiseFlag =>
      obtain ⟨⟨howner, hthread⟩, hnext⟩ := Option.ite_none_right_eq_some.mp hstep
      cases hnext
      exact .flagged howner hthread
  | askToEnd =>
      obtain ⟨howner, hnext⟩ := Option.ite_none_right_eq_some.mp hstep
      cases hnext
      exact .asked howner
  | markWriter =>
      obtain ⟨hphase, hnext⟩ := Option.ite_none_right_eq_some.mp hstep
      cases hnext
      exact .marked hphase
  | releaseWriter =>
      obtain ⟨hphase, hnext⟩ := Option.ite_none_right_eq_some.mp hstep
      cases hnext
      exact .released hphase

end Made

/-- What a move does to the thread, the queue and the owner. -/
inductive Transition (world next : World) : List Happening → Prop where
  | advance {stage after : Stage} {happenings : List Happening} :
      world.thread = some stage → next.thread = some after →
      next.started = world.started → next.owner = world.owner →
      Advance world.nameOf world.site.bridge.stop world.channel stage happenings next.channel
        after →
        Transition world next happenings
  | accept {key : String} :
      next.thread = world.thread → next.started = world.started → next.owner = world.owner →
      world.channel.isOpen = true →
      next.channel = { world.channel with queue := world.channel.queue ++ [.changed key] } →
        Transition world next [.accepted key]
  /-- A signal was refused, a source changed, a start was refused, or the writer was stopped. -/
  | quiet {happenings : List Happening} :
      next.thread = world.thread → next.started = world.started → next.owner = world.owner →
      next.channel = world.channel →
      (∀ happening ∈ happenings, (∃ key, happening = .dropped key) ∨
        (∃ key, happening = .unheard key) ∨ ∃ fault, happening = .startRefused fault) →
        Transition world next happenings
  | start :
      world.thread = none → world.started = false →
      next.thread = some .receiving → next.started = true → next.owner = world.owner →
      next.channel = world.channel →
        Transition world next [.started]
  | flag :
      world.owner = .idle → next.owner = .flagged → next.thread = world.thread →
      next.started = world.started → next.channel = world.channel →
        Transition world next [.flagged]
  | ask :
      world.owner = .flagged → next.owner = .asked → next.thread = world.thread →
      next.started = world.started → next.channel = (world.channel.send .shutdown).1 →
        Transition world next [.asked]
  | finish {ending : Ending} :
      world.owner = .asked → next.owner = .idle → world.thread = some (.finished ending) →
      next.thread = none → next.started = world.started → next.channel = world.channel →
        Transition world next [.returned]

theorem transition_of_step {world next : World} {move : Move} {happenings : List Happening}
    (hstep : world.step move = some (next, happenings)) : Transition world next happenings := by
  cases made_of_step hstep with
  | queued _ hopen _ => exact .accept rfl rfl rfl hopen rfl
  | advanced hthread hsite hafter =>
      obtain ⟨reached, hreached, hkept, hadvance⟩ := advance_of_stepFrom hsite
      obtain rfl := Option.some.inj (hafter.symm.trans hreached)
      exact .advance hthread hafter hkept.started rfl hadvance
  | started _ hthread hstarted => exact .start hthread hstarted rfl rfl rfl rfl
  | flagged howner _ => exact .flag howner rfl rfl rfl rfl
  | asked howner => exact .ask howner rfl rfl rfl rfl
  | joined howner hthread => exact .finish howner rfl hthread rfl rfl rfl
  | full | unheard | changed | startRefused | marked | released =>
      exact .quiet rfl rfl rfl rfl (by simp)

theorem nameOf_modifyMonitor {site : Site} {key : String} {monitor : Monitor}
    (hname : (site.monitor? key).map Monitor.name = some monitor.name) (other : String) :
    ((site.modifyMonitor key fun _ => monitor).monitor? other).map Monitor.name =
      (site.monitor? other).map Monitor.name := by
  simp only [Site.monitor?, Site.modifyMonitor, List.find?_map, Option.map_map] at hname ⊢
  have hkeys : ((fun entry : String × Monitor => decide (entry.1 = other)) ∘ fun entry =>
      if entry.1 = key then (entry.1, monitor) else entry) =
      fun entry : String × Monitor => decide (entry.1 = other) := by
    funext entry
    simp only [Function.comp_apply]
    split <;> rfl
  rw [hkeys]
  cases hfound : site.monitors.find? fun entry => entry.1 = other with
  | none => rfl
  | some entry =>
      have hentry : entry.1 = other := by simpa using List.find?_some hfound
      simp only [Option.map_some, Function.comp_apply, Option.some.injEq]
      split
      · rename_i hkey
        rw [← hkey, hentry, hfound, Option.map_some, Option.some.injEq] at hname
        exact hname.symm
      · rfl

theorem nameOf_step {world next : World} {move : Move} {happenings : List Happening}
    (hstep : world.step move = some (next, happenings)) : next.nameOf = world.nameOf := by
  funext other
  cases made_of_step hstep with
  | changed hname => exact nameOf_modifyMonitor hname other
  | advanced _ hsite _ =>
      obtain ⟨_, _, hkept, _⟩ := advance_of_stepFrom hsite
      simp only [World.nameOf, Site.monitor?, hkept.monitors]
  | _ => rfl

theorem nameOf_run {first world : World} {log : List Happening} (hrun : Run first log world) :
    world.nameOf = first.nameOf := by
  induction hrun with
  | refl => rfl
  | step move _ hstep ih => exact (nameOf_step hstep).trans ih

theorem Run.trans {first middle last : World} {log later : List Happening}
    (hfirst : Run first log middle) (hlast : Run middle later last) :
    Run first (log ++ later) last := by
  induction hlast with
  | refl => rwa [List.append_nil]
  | step move _ hstep ih =>
      rw [← List.append_assoc]
      exact .step move ih hstep

theorem exists_of_steps_cons {world last : World} {move : Move} {moves : List Move}
    {log : List Happening} (hsteps : world.steps (move :: moves) = some (last, log)) :
    ∃ next happenings later, world.step move = some (next, happenings) ∧
      next.steps moves = some (last, later) ∧ log = happenings ++ later := by
  simp only [World.steps] at hsteps
  split at hsteps
  · cases hsteps
  · rename_i next happenings hstep
    obtain ⟨⟨final, later⟩, hlater, hlast⟩ := Option.map_eq_some_iff.mp hsteps
    cases hlast
    exact ⟨next, happenings, later, hstep, hlater, rfl⟩

theorem steps_cons {world next last : World} {move : Move} {moves : List Move}
    {happenings later : List Happening} (hstep : world.step move = some (next, happenings))
    (hlast : next.steps moves = some (last, later)) :
    world.steps (move :: moves) = some (last, happenings ++ later) := by
  simp only [World.steps, hstep, hlast, Option.map_some]

theorem run_of_steps {world last : World} {moves : List Move} {log : List Happening}
    (hsteps : world.steps moves = some (last, log)) : Run world log last := by
  induction moves generalizing world log with
  | nil =>
      cases hsteps
      exact .refl
  | cons move moves ih =>
      obtain ⟨next, happenings, later, hstep, hlater, rfl⟩ := exists_of_steps_cons hsteps
      exact Run.trans (.step move .refl hstep) (ih hlater)

end MappedMetrics.Proofs.BridgeInterleaving
