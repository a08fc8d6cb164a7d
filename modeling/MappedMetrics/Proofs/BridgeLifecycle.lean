import MappedMetrics.Proofs.StopWaking

/-!
The life of a bridge. Its owner starts and stops it, in any order and with any writers; any thread
signals changes; the thread of the bridge goes from stage to stage until it ends, in whichever way.
Meanwhile the rest of the program does as it likes with the writer, the files and the sources. What
a call answers depends on the calls before it and on what ended the thread, and on nothing else.
-/

namespace MappedMetrics.Proofs.BridgeLifecycle

open MappedMetrics
open MappedMetrics.Proofs.BridgeInterleaving
open MappedMetrics.Proofs.BridgeEffects
open MappedMetrics.Proofs.BridgeStopping
open MappedMetrics.Proofs.StopWaking

/-- What a thread can come to grief by. -/
inductive Grief where
  /-- An update was refused, other than by a writer that was stopped. -/
  | refused (error : Error)
  /-- A source gave up, or an update could not go on. -/
  | panicked (failure : ProbeFailure)
deriving DecidableEq

def Grief.reason : Grief → String
  | .refused error => error.message
  | .panicked failure => s!"writer thread panicked: {failure.message}"

instance : DecidableEq (Outcome Unit)
  | .ok (), .ok () => isTrue rfl
  | .error _, .error _ => decidable_of_iff _ ⟨congrArg Except.error, Except.error.inj⟩
  | .ok (), .error _ | .error _, .ok () => isFalse fun heq => nomatch heq

inductive Note where
  | saw (happening : Happening)
  | stopped (outcome : Outcome Unit)
  | died (grief : Grief)
deriving DecidableEq

inductive Act where
  | start (writer : Writer)
  /-- A stop begins; without a thread it returns at once. -/
  | stop
  | askToEnd
  | join
  | notify (key : String) (microseconds : Nat)
  | thread
  /-- The rest of the program does something to the writer, the files and the sources. -/
  | elsewhere (writer : Writer) (volume : Volume) (monitors : List (String × Monitor))

/-- What the thread comes to grief by in its next step from a stage. -/
def grief? (site : Site) : Stage → Option Grief
  | .writing _ _ _ name value =>
      match site.writer.updated site.volume name value with
      | .ok _ => none
      | .error (.refused error) =>
          if error = .lifecycle .stopped then none else some (.refused error)
      | .error (.halted _) => some (.panicked none)
  | .applying _ (key :: _) seen =>
      match site.monitor? key with
      | none => none
      | some monitor =>
          if seen.contains monitor.name then none
          else
            match monitor.current with
            | .ok _ => none
            | .error failure => some (.panicked failure)
  | _ => none

def noted (moved : World × List Happening) : World × List Note :=
  (moved.1, moved.2.map .saw)

/-- The world after an act, with what there is to note; absent where the act cannot be made. The
owner makes one call at a time. -/
def act? (world : World) : Act → Option (World × List Note)
  | .start writer =>
      if world.owner = .idle then
        match ({ world.site with writer := writer } : Site).start with
        | (site, _, .ok ()) => some ({ world with site := site }, [.saw .started])
        | (site, _, .error fault) =>
            some ({ world with site := { site with writer := world.site.writer } },
              [.saw (.startRefused fault)])
      else none
  | .stop =>
      if world.thread.isSome then (world.step .raiseFlag).map noted
      else if world.owner = .idle then
        match world.site.stop with
        | (site, _, _, outcome) => some ({ world with site := site }, [.stopped outcome])
      else none
  | .askToEnd => (world.step .askToEnd).map noted
  | .join => (world.step .join).map fun (next, happenings) =>
      (next, happenings.map .saw ++ [.stopped world.site.join.2.2])
  | .notify key microseconds => (world.step (.notify key microseconds)).map noted
  | .thread => (world.step .thread).map fun (next, happenings) =>
      (next, happenings.map .saw ++ (world.thread.bind (grief? world.site)).toList.map .died)
  | .elsewhere writer volume monitors =>
      some (⟨⟨world.site.bridge, writer, volume, monitors⟩, world.owner⟩, [])

/-- The worlds that acts lead to, with what was noted on the way. -/
inductive History (first : World) : List Note → World → Prop where
  | refl : History first [] first
  | step {log notes : List Note} {world next : World} (act : Act) :
      History first log world → act? world act = some (next, notes) →
        History first (log ++ notes) next

def acts (world : World) : List Act → Option (World × List Note)
  | [] => some (world, [])
  | act :: rest =>
      match act? world act with
      | none => none
      | some (next, notes) => (acts next rest).map fun (last, later) => (last, notes ++ later)

theorem History.trans {first middle last : World} {log later : List Note}
    (hfirst : History first log middle) (hlast : History middle later last) :
    History first (log ++ later) last := by
  induction hlast with
  | refl => rwa [List.append_nil]
  | step act _ hact ih =>
      rw [← List.append_assoc]
      exact .step act ih hact

theorem history_of_acts {world last : World} {list : List Act} {log : List Note}
    (hacts : acts world list = some (last, log)) : History world log last := by
  induction list generalizing world log with
  | nil =>
      cases hacts
      exact .refl
  | cons act rest ih =>
      simp only [acts] at hacts
      split at hacts
      · cases hacts
      · rename_i next notes hact
        obtain ⟨⟨final, later⟩, hlater, hlast⟩ := Option.map_eq_some_iff.mp hacts
        cases hlast
        exact History.trans (.step act .refl hact) (ih hlater)

section Logs

/-- Whether a thread is held after a note. -/
def holds : Bool → Note → Bool
  | _, .saw .started => true
  | _, .stopped _ => false
  | held, _ => held

/-- Whether the bridge was started and no stop has returned since. -/
def held (log : List Note) : Bool :=
  log.foldl holds false

def Note.heard? : Note → Option Happening
  | .saw happening => some happening
  | _ => none

def Note.grief? : Note → Option Grief
  | .died grief => some grief
  | _ => none

def heard (log : List Note) : List Happening :=
  log.filterMap Note.heard?

/-- What the thread came to grief by. -/
def griefOf (log : List Note) : Option Grief :=
  log.findSome? Note.grief?

/-- Whether a note is neither of a start nor of a stop that returned. -/
def Quiet : Note → Prop
  | .saw .started | .stopped _ => False
  | _ => True

/-- Whether a note is neither of a signal that was queued or dropped nor of an update. -/
def Silent : Note → Prop
  | .saw (.accepted _) | .saw (.dropped _) | .saw (.wrote _ _) => False
  | _ => True

variable {log notes : List Note}

theorem held_append_of_quiet (hquiet : ∀ note ∈ notes, Quiet note) :
    held (log ++ notes) = held log := by
  simp only [held, List.foldl_append]
  generalize log.foldl holds false = before
  induction notes with
  | nil => rfl
  | cons note notes ih =>
      obtain ⟨hnote, hnotes⟩ := List.forall_mem_cons.mp hquiet
      have hlog : holds before note = before := by
        unfold holds
        split
        · exact hnote.elim
        · exact hnote.elim
        · rfl
      rw [List.foldl_cons, hlog, ih hnotes]

theorem count_append_of_quiet (hquiet : ∀ note ∈ notes, Quiet note) :
    (log ++ notes).count (.saw .started) = log.count (.saw .started) := by
  have hnone : notes.count (.saw .started) = 0 :=
    List.count_eq_zero.mpr fun hmem => hquiet _ hmem
  rw [List.count_append, hnone, Nat.add_zero]

theorem heard_append : heard (log ++ notes) = heard log ++ heard notes :=
  List.filterMap_append

theorem heard_map_saw (happenings : List Happening) :
    heard (happenings.map .saw) = happenings := by
  simp only [heard, List.filterMap_map]
  exact List.filterMap_some

theorem heard_map_died (griefs : List Grief) : heard (griefs.map .died) = [] := by
  simp [heard, Note.heard?]

theorem griefOf_map_saw (happenings : List Happening) :
    griefOf (happenings.map .saw) = none := by
  simp [griefOf, Note.grief?]

theorem griefOf_map_died (grief : Option Grief) : griefOf (grief.toList.map .died) = grief := by
  cases grief <;> rfl

theorem griefOf_append : griefOf (log ++ notes) = (griefOf log).or (griefOf notes) :=
  List.findSome?_append

end Logs

section Answers

/-- What a start with a writer answers after what was noted. -/
def startAnswer (writer : Writer) (log : List Note) : Outcome Unit :=
  if writer.phase ≠ .started then LifecycleError.notStarted.refuse
  else if held log then LifecycleError.bridgeRunning.refuse
  else if .saw .started ∈ log then LifecycleError.stopped.refuse
  else .ok ()

def startNote : Outcome Unit → Note
  | .ok () => .saw .started
  | .error fault => .saw (.startRefused fault)

/-- What the stop of a thread answers that came to grief, or did not. -/
def blame : Option Grief → Outcome Unit
  | none => .ok ()
  | some grief => (UpdateError.bridgeFailed grief.reason).refuse

/-- What the stop of a thread answers, once it is on its way out. -/
def verdictAt : Stage → Outcome Unit
  | .leaving ending | .released ending | .finished ending => Site.verdict ending
  | _ => .ok ()

def alive : Option Stage → Bool
  | none | some (.finished _) => false
  | some _ => true

theorem blame_eq_ok {grief : Option Grief} : blame grief = .ok () ↔ grief = none := by
  cases grief with
  | none => simp [blame]
  | some grief => simp [blame, UpdateError.refuse]

end Answers

section Verdicts

variable {site next : Site} {stage after : Stage} {events : List Event}

theorem verdictAt_of_stepApplying {shutdown : Bool} {batch seen : List String}
    (hstep : site.stepApplying shutdown batch seen = (next, events))
    (hafter : next.bridge.thread = some after) :
    verdictAt after = blame (grief? site (.applying shutdown batch seen)) := by
  cases batch with
  | nil =>
      cases hstep
      cases hafter
      rfl
  | cons key batch =>
      simp only [Site.stepApplying] at hstep
      split at hstep
      · rename_i hmonitor
        cases hstep
        cases hafter
        simp only [grief?, hmonitor]
        rfl
      · rename_i monitor hmonitor
        split at hstep
        · rename_i hseen
          cases hstep
          cases hafter
          simp only [grief?, hmonitor, if_pos hseen]
          rfl
        · rename_i hseen
          split at hstep
          all_goals
            rename_i hcurrent
            cases hstep
            cases hafter
            simp only [grief?, hmonitor, if_neg hseen, hcurrent]
            rfl

theorem verdictAt_of_stepWriting {shutdown : Bool} {batch seen : List String} {name : String}
    {value : MetricValue}
    (hstep : site.stepWriting shutdown batch seen name value = (next, events))
    (hafter : next.bridge.thread = some after) :
    verdictAt after = blame (grief? site (.writing shutdown batch seen name value)) := by
  simp only [Site.stepWriting] at hstep
  simp only [grief?]
  split at hstep
  · rename_i hupdated
    cases hstep
    cases hafter
    rw [hupdated]
    rfl
  · rename_i hupdated
    cases hstep
    cases hafter
    rw [hupdated]
    rfl
  · rename_i error hother hupdated
    cases hstep
    cases hafter
    rw [hupdated]
    simp only [if_neg hother]
    rfl
  · rename_i hupdated
    cases hstep
    cases hafter
    rw [hupdated]
    rfl

theorem verdictAt_of_stepFrom (hstep : site.stepFrom stage = some (next, events))
    (hafter : next.bridge.thread = some after) :
    verdictAt after = match grief? site stage with
      | some grief => blame (some grief)
      | none => verdictAt stage := by
  cases stage with
  | applying shutdown batch seen =>
      rw [verdictAt_of_stepApplying (Option.some.inj hstep) hafter]
      cases grief? site (.applying shutdown batch seen) <;> rfl
  | writing shutdown batch seen name value =>
      rw [verdictAt_of_stepWriting (Option.some.inj hstep) hafter]
      cases grief? site (.writing shutdown batch seen name value) <;> rfl
  | receiving | draining batch | checking shutdown =>
      simp only [Site.stepFrom] at hstep
      split at hstep
      all_goals
        cases hstep
        try
          cases hafter
          rfl
  | leaving ending =>
      cases hstep
      cases hafter
      rfl
  | released ending =>
      cases hstep
      cases hafter
      rfl
  | finished ending => cases hstep

end Verdicts

theorem verdictAt_of_grief {site : Site} {stage : Stage} {grief : Grief}
    (hgrief : grief? site stage = some grief) : verdictAt stage = .ok () := by
  cases stage with
  | leaving | released | finished => cases hgrief
  | _ => rfl

theorem running_of_stepFrom {site next : Site} {stage : Stage} {events : List Event}
    (hstep : site.stepFrom stage = some (next, events)) (hrunning : site.bridge.running = true) :
    next.bridge.running = alive next.bridge.thread := by
  cases stage with
  | applying shutdown batch seen =>
      simp only [Site.stepFrom, Site.stepApplying, Option.some.injEq] at hstep
      split at hstep
      · cases hstep
        exact hrunning
      · split at hstep
        · cases hstep
          exact hrunning
        · split at hstep
          · cases hstep
            exact hrunning
          · split at hstep
            all_goals
              cases hstep
              exact hrunning
  | writing shutdown batch seen name value =>
      simp only [Site.stepFrom, Site.stepWriting, Option.some.injEq] at hstep
      split at hstep
      all_goals
        cases hstep
        exact hrunning
  | receiving | draining batch | checking shutdown =>
      simp only [Site.stepFrom] at hstep
      split at hstep
      all_goals
        cases hstep
        try exact hrunning
  | leaving ending =>
      cases hstep
      exact hrunning
  | released ending =>
      cases hstep
      rfl
  | finished ending => cases hstep

/-- Two worlds with the same bridge and the same call of the owner under way. -/
structure Same (world other : World) : Prop where
  bridge : other.site.bridge = world.site.bridge
  owner : other.owner = world.owner

/-- What leaves the receiving end and the counts as they are. -/
structure Untouched (world next : World) : Prop where
  isOpen : next.channel.isOpen = world.channel.isOpen
  applied : next.site.bridge.applied = world.site.bridge.applied
  dropped : next.site.bridge.overflow.dropped = world.site.bridge.overflow.dropped

/-- What leaves the thread as it is. -/
structure Steady (world next : World) (notes : List Note) : Prop where
  thread : next.thread = world.thread
  started : next.started = world.started
  running : next.site.bridge.running = world.site.bridge.running
  quiet : ∀ note ∈ notes, Quiet note ∧ note.grief? = none
  owner : next.owner ≠ .idle → world.owner ≠ .idle ∨ world.thread.isSome = true
  asked : next.owner = .asked → world.owner = .asked ∨ .asked ∈ heard notes
  isOpen : next.channel.isOpen = world.channel.isOpen
  silent : world.channel.isOpen = false → Untouched world next ∧ ∀ note ∈ notes, Silent note

/-- What an act does to the thread. -/
inductive Turn (world next : World) : List Note → Prop where
  | started :
      world.owner = .idle → world.thread = none → world.started = false →
      next.owner = .idle → next.thread = some .receiving → next.started = true →
      next.site.bridge.running = true → Turn world next [.saw .started]
  | steady {notes : List Note} : Steady world next notes → Turn world next notes
  | returned :
      world.owner = .idle → world.thread = none → next = world → Turn world next [.stopped (.ok ())]
  | joined {ending : Ending} :
      world.owner = .asked → world.thread = some (.finished ending) →
      next.owner = .idle → next.thread = none → next.started = world.started →
      next.site.bridge.running = world.site.bridge.running → Untouched world next →
        Turn world next [.saw .returned, .stopped (Site.verdict ending)]
  | advanced {stage after : Stage} {events : List Event} :
      world.site.stepFrom stage = some (next.site, events) → Advanced world next stage after →
      next.owner = world.owner →
        Turn world next
          ((report stage after).map .saw ++ (grief? world.site stage).toList.map .died)

section Act

variable {world next : World} {act : Act} {log notes : List Note}

theorem steady_of_notify {key : String} {microseconds : Nat} {happenings : List Happening}
    (hstep : world.step (.notify key microseconds) = some (next, happenings)) :
    Steady world next (happenings.map .saw) := by
  cases made_of_step hstep with
  | queued _ hopen _ | full _ hopen _ =>
      refine ⟨rfl, rfl, rfl, by simp [Quiet, Note.grief?], .inl, .inl, rfl, fun hclosed => ?_⟩
      exact absurd (hopen.symm.trans hclosed) Bool.noConfusion
  | unheard =>
      exact ⟨rfl, rfl, rfl, by simp [Quiet, Note.grief?], .inl, .inl, rfl,
        fun _ => ⟨⟨rfl, rfl, rfl⟩, by simp [Silent]⟩⟩

theorem advanced_of_act (hact : act? world .thread = some (next, notes)) :
    ∃ stage after events, world.site.stepFrom stage = some (next.site, events) ∧
      Advanced world next stage after ∧ next.owner = world.owner ∧
      notes = (report stage after).map .saw ++ (grief? world.site stage).toList.map .died := by
  obtain ⟨⟨reached, happenings⟩, hstep, hnoted⟩ := Option.map_eq_some_iff.mp hact
  cases hnoted
  obtain ⟨stage, after, hadvanced, hreport⟩ := advanced_of_step hstep
  cases made_of_step hstep with
  | advanced hthread hsite _ =>
      obtain rfl := Option.some.inj (hadvanced.left.symm.trans hthread)
      rw [hreport, hthread]
      exact ⟨stage, after, _, hsite, hadvanced, rfl, rfl⟩

theorem turn_of_start {writer : Writer} (hact : act? world (.start writer) = some (next, notes)) :
    Turn world next notes := by
  simp only [act?] at hact
  split at hact
  · rename_i howner
    split at hact
    · rename_i site events hstart
      obtain ⟨hthread, hstarted, rfl⟩ := start_ok hstart
      cases hact
      exact .started howner hthread hstarted howner rfl rfl rfl
    · rename_i site events fault hstart
      obtain ⟨rfl, rfl⟩ := start_error hstart
      cases hact
      refine .steady ⟨rfl, rfl, rfl, ?_, .inl, .inl, rfl, fun _ => ⟨⟨rfl, rfl, rfl⟩, ?_⟩⟩
      · simp [Quiet, Note.grief?]
      · simp [Silent]
  · cases hact

theorem stop_of_idle {site : Site} (hthread : ¬ site.bridge.thread.isSome = true) :
    site.stop = (site, [], [], .ok ()) :=
  if_neg hthread

theorem turn_of_stop (hact : act? world .stop = some (next, notes)) : Turn world next notes := by
  simp only [act?] at hact
  split at hact
  · obtain ⟨⟨reached, happenings⟩, hstep, hnoted⟩ := Option.map_eq_some_iff.mp hact
    cases hnoted
    cases made_of_step hstep with
    | flagged _ hthread =>
        refine .steady ⟨rfl, rfl, rfl, ?_, fun _ => .inr hthread, fun hasked => ?_, rfl,
          fun _ => ⟨⟨rfl, rfl, rfl⟩, ?_⟩⟩
        · simp [Quiet, Note.grief?]
        · cases hasked
        · simp [Silent]
  · rename_i hthread
    have hnone : world.thread = none := by simpa using hthread
    split at hact
    · rename_i howner
      rw [stop_of_idle hthread] at hact
      cases hact
      exact .returned howner hnone rfl
    · cases hact

theorem join_of_finished {ending : Ending} (hthread : world.thread = some (.finished ending)) :
    world.site.join.2.2 = Site.verdict ending := by
  have hsame : world.site.bridge.thread = some (.finished ending) := hthread
  simp only [Site.join, hsame]

theorem turn_of_act (hact : act? world act = some (next, notes)) : Turn world next notes := by
  cases act with
  | start writer => exact turn_of_start hact
  | stop => exact turn_of_stop hact
  | askToEnd =>
      obtain ⟨⟨after, happenings⟩, hstep, hnoted⟩ := Option.map_eq_some_iff.mp hact
      cases hnoted
      cases made_of_step hstep with
      | asked howner =>
          have hopen := Channel.isOpen_send world.site.bridge.channel .shutdown
          refine .steady ⟨rfl, rfl, rfl, ?_, fun _ => .inl (by simp [howner]), fun _ => .inr ?_,
            hopen, fun _ => ⟨⟨hopen, rfl, rfl⟩, ?_⟩⟩
          · simp [Quiet, Note.grief?]
          · simp [heard, Note.heard?]
          · simp [Silent]
  | join =>
      obtain ⟨⟨after, happenings⟩, hstep, hnoted⟩ := Option.map_eq_some_iff.mp hact
      cases hnoted
      cases made_of_step hstep with
      | joined howner hthread =>
          rw [join_of_finished hthread]
          exact .joined howner hthread rfl rfl rfl rfl ⟨rfl, rfl, rfl⟩
  | notify key microseconds =>
      obtain ⟨⟨after, happenings⟩, hstep, hnoted⟩ := Option.map_eq_some_iff.mp hact
      cases hnoted
      exact .steady (steady_of_notify hstep)
  | thread =>
      obtain ⟨stage, after, events, hstep, hadvanced, howner, rfl⟩ := advanced_of_act hact
      exact .advanced hstep hadvanced howner
  | elsewhere writer volume monitors =>
      cases hact
      exact .steady ⟨rfl, rfl, rfl, by simp, .inl, .inl, rfl, fun _ => ⟨⟨rfl, rfl, rfl⟩, by simp⟩⟩

theorem move_of_start {writer : Writer} (hact : act? world (.start writer) = some (next, notes)) :
    ∃ before move after, Same world before ∧ before.step move = some (after, heard notes) ∧
      Same after next := by
  simp only [act?] at hact
  split at hact
  · rename_i howner
    refine ⟨⟨{ world.site with writer := writer }, .idle⟩, .start, ?_⟩
    split at hact
    · rename_i site events hstart
      cases hact
      refine ⟨⟨site, .idle⟩, ⟨rfl, howner.symm⟩, ?_, ⟨rfl, howner⟩⟩
      simp only [World.step, if_true, hstart]
      rfl
    · rename_i site events fault hstart
      cases hact
      refine ⟨⟨site, .idle⟩, ⟨rfl, howner.symm⟩, ?_, ⟨rfl, howner⟩⟩
      simp only [World.step, if_true, hstart]
      rfl
  · cases hact

theorem move_of_act (hact : act? world act = some (next, notes)) :
    (Same world next ∧ heard notes = []) ∨
      ∃ before move after, Same world before ∧ before.step move = some (after, heard notes) ∧
        Same after next := by
  have hmoved : ∀ {move after happenings}, world.step move = some (after, happenings) →
      (after, happenings.map .saw) = (next, notes) →
        ∃ before move after, Same world before ∧ before.step move = some (after, heard notes) ∧
          Same after next := by
    intro move after happenings hstep hnoted
    cases hnoted
    exact ⟨world, move, _, ⟨rfl, rfl⟩, by rw [heard_map_saw, hstep], ⟨rfl, rfl⟩⟩
  cases act with
  | start writer => exact .inr (move_of_start hact)
  | stop =>
      simp only [act?] at hact
      split at hact
      · obtain ⟨_, hstep, hnoted⟩ := Option.map_eq_some_iff.mp hact
        exact .inr (hmoved hstep hnoted)
      · rename_i hthread
        split at hact
        · -- Without a thread a stop changes nothing.
          rw [stop_of_idle hthread] at hact
          cases hact
          exact .inl ⟨⟨rfl, rfl⟩, rfl⟩
        · cases hact
  | askToEnd =>
      obtain ⟨_, hstep, hnoted⟩ := Option.map_eq_some_iff.mp hact
      exact .inr (hmoved hstep hnoted)
  | join =>
      obtain ⟨⟨after, happenings⟩, hstep, hnoted⟩ := Option.map_eq_some_iff.mp hact
      cases hnoted
      refine .inr ⟨world, .join, _, ⟨rfl, rfl⟩, ?_, ⟨rfl, rfl⟩⟩
      rw [heard_append, heard_map_saw, hstep]
      simp [heard, Note.heard?]
  | notify key microseconds =>
      obtain ⟨_, hstep, hnoted⟩ := Option.map_eq_some_iff.mp hact
      exact .inr (hmoved hstep hnoted)
  | thread =>
      obtain ⟨⟨after, happenings⟩, hstep, hnoted⟩ := Option.map_eq_some_iff.mp hact
      cases hnoted
      refine .inr ⟨world, .thread, _, ⟨rfl, rfl⟩, ?_, ⟨rfl, rfl⟩⟩
      rw [heard_append, heard_map_saw, heard_map_died, List.append_nil, hstep]
  | elsewhere writer volume monitors =>
      cases hact
      exact .inl ⟨⟨rfl, rfl⟩, rfl⟩

end Act

/-- The queue, the flag and the thread, seen without the notes of the owner. -/
structure Grounded (world : World) (log : List Happening) : Prop where
  sound : Sound world log
  waking : Waking world log

theorem grounded_of_same {world other : World} {log : List Happening} (hsame : Same world other)
    (hgrounded : Grounded world log) : Grounded other log := by
  obtain ⟨⟨bridge, _, _, _⟩, owner⟩ := world
  obtain ⟨⟨_, _, _, _⟩, _⟩ := other
  obtain ⟨hbridge, howner⟩ := hsame
  cases hbridge
  cases howner
  obtain ⟨⟨hstarted, hclosed, hgone, hunflagged⟩, ⟨hroomy, hraised, hasked⟩⟩ := hgrounded
  exact ⟨⟨hstarted, hclosed, hgone, hunflagged⟩, ⟨hroomy, hraised, hasked⟩⟩

theorem grounded_of_act {world next : World} {act : Act} {log notes : List Note}
    (hact : act? world act = some (next, notes)) (hgrounded : Grounded world (heard log)) :
    Grounded next (heard (log ++ notes)) := by
  rw [heard_append]
  rcases move_of_act hact with ⟨hsame, hnothing⟩ | ⟨before, move, after, hbefore, hstep, hafter⟩
  · rw [hnothing, List.append_nil]
    exact grounded_of_same hsame hgrounded
  · obtain ⟨hsound, hwaking⟩ := grounded_of_same hbefore hgrounded
    exact grounded_of_same hafter
      ⟨sound_transition (transition_of_step hstep) hsound, waking_of_step hsound hwaking hstep⟩

/-- What the owner's notes say about the thread. -/
structure Recorded (world : World) (log : List Note) : Prop where
  once : log.count (.saw .started) = if world.started then 1 else 0
  held : held log = world.thread.isSome
  busy : world.owner ≠ .idle → world.thread.isSome = true
  asked : world.owner = .asked → .asked ∈ heard log
  running : world.site.bridge.running = alive world.thread
  shut : world.started = true → world.thread = none → world.channel.isOpen = false
  unhurt : world.started = false → griefOf log = none
  blamed : ∀ stage, world.thread = some stage → blame (griefOf log) = verdictAt stage

section Records

variable {world next : World} {log notes : List Note}

theorem recorded_of_started (hstarted : world.started = false) (hidle : next.owner = .idle)
    (hreceiving : next.thread = some .receiving) (hnow : next.started = true)
    (hrunning : next.site.bridge.running = true) (hrecorded : Recorded world log) :
    Recorded next (log ++ [.saw .started]) := by
  have hunhurt : griefOf (log ++ [.saw .started]) = none := by
    rw [griefOf_append, hrecorded.unhurt hstarted]
    rfl
  refine ⟨?_, ?_, ?_, ?_, ?_, ?_, fun _ => hunhurt, ?_⟩
  · rw [List.count_append, hrecorded.once, hstarted, hnow]
    simp
  · simp [BridgeLifecycle.held, holds, hreceiving]
  · exact fun hbusy => absurd hidle hbusy
  · intro hasked
    rw [hidle] at hasked
    cases hasked
  · rw [hrunning, hreceiving]
    rfl
  · intro _ hnone
    rw [hreceiving] at hnone
    cases hnone
  · intro stage hstage
    rw [hreceiving] at hstage
    cases hstage
    rw [hunhurt]
    rfl

theorem Steady.recorded (hsteady : Steady world next notes) (hrecorded : Recorded world log) :
    Recorded next (log ++ notes) := by
  obtain ⟨hthread, hstarted, hrunning, hquiet, howner, hasked, hopen, _⟩ := hsteady
  have hnone : griefOf notes = none := List.findSome?_eq_none_iff.mpr fun note hmem =>
    (hquiet note hmem).2
  have hgrief : griefOf (log ++ notes) = griefOf log := by
    rw [griefOf_append, hnone, Option.or_none]
  refine ⟨?_, ?_, ?_, ?_, ?_, ?_, ?_, ?_⟩
  · rw [count_append_of_quiet fun note hmem => (hquiet note hmem).1, hstarted, hrecorded.once]
  · rw [held_append_of_quiet fun note hmem => (hquiet note hmem).1, hthread, hrecorded.held]
  · intro hbusy
    rw [hthread]
    exact (howner hbusy).elim hrecorded.busy id
  · intro hnow
    rw [heard_append]
    exact (hasked hnow).elim (fun hbefore => List.mem_append_left _ (hrecorded.asked hbefore))
      (List.mem_append_right _)
  · rw [hrunning, hthread, hrecorded.running]
  · rw [hstarted, hthread, hopen]
    exact hrecorded.shut
  · rw [hstarted, hgrief]
    exact hrecorded.unhurt
  · rw [hthread, hgrief]
    exact hrecorded.blamed

theorem recorded_of_returned (howner : world.owner = .idle) (hthread : world.thread = none)
    (hrecorded : Recorded world log) : Recorded world (log ++ [.stopped (.ok ())]) := by
  have hgrief : griefOf (log ++ [.stopped (.ok ())]) = griefOf log := by
    rw [griefOf_append]
    exact Option.or_none
  refine ⟨?_, ?_, hrecorded.busy, ?_, hrecorded.running, hrecorded.shut, ?_, ?_⟩
  · rw [List.count_append, hrecorded.once]
    simp
  · simp [BridgeLifecycle.held, holds, hthread]
  · intro hnow
    rw [howner] at hnow
    cases hnow
  · rw [hgrief]
    exact hrecorded.unhurt
  · intro stage hstage
    rw [hthread] at hstage
    cases hstage

theorem recorded_of_joined {ending : Ending} (hthread : world.thread = some (.finished ending))
    (hidle : next.owner = .idle) (hnone : next.thread = none)
    (hstarted : next.started = world.started)
    (hrunning : next.site.bridge.running = world.site.bridge.running)
    (huntouched : Untouched world next) (hgrounded : Grounded world (heard log))
    (hrecorded : Recorded world log) :
    Recorded next (log ++ [.saw .returned, .stopped (Site.verdict ending)]) := by
  have hgiven : world.started = true := hgrounded.sound.started (by rw [hthread]; rfl)
  refine ⟨?_, ?_, ?_, ?_, ?_, ?_, ?_, ?_⟩
  · rw [List.count_append, hrecorded.once, hstarted]
    simp
  · simp [BridgeLifecycle.held, holds, hnone]
  · exact fun hbusy => absurd hidle hbusy
  · intro hnow
    rw [hidle] at hnow
    cases hnow
  · rw [hrunning, hrecorded.running, hthread, hnone]
    rfl
  · intro _ _
    rw [huntouched.isOpen]
    exact hgrounded.sound.closed (by rw [hthread]; trivial)
  · intro hnot
    rw [hstarted, hgiven] at hnot
    cases hnot
  · intro stage hstage
    rw [hnone] at hstage
    cases hstage

theorem quiet_of_advance {stage after : Stage} {griefs : List Grief} :
    ∀ note ∈ (report stage after).map Note.saw ++ griefs.map .died, Quiet note := by
  intro note hmem
  rcases List.mem_append.mp hmem with hsaw | hdied
  · obtain ⟨happening, hreport, rfl⟩ := List.mem_map.mp hsaw
    have hforeign := (report_cases hreport).1
    unfold Quiet
    split
    · rename_i heq
      cases heq
      exact hforeign trivial
    · rename_i heq
      cases heq
    · trivial
  · obtain ⟨grief, _, rfl⟩ := List.mem_map.mp hdied
    trivial

theorem griefOf_append_advance (happenings : List Happening) (grief : Option Grief) :
    griefOf (log ++ (happenings.map .saw ++ grief.toList.map .died)) = (griefOf log).or grief := by
  rw [griefOf_append, griefOf_append, griefOf_map_saw, griefOf_map_died, Option.none_or]

theorem recorded_of_advanced {stage after : Stage} {events : List Event}
    (hstep : world.site.stepFrom stage = some (next.site, events))
    (hadvanced : Advanced world next stage after) (howner : next.owner = world.owner)
    (hgrounded : Grounded world (heard log)) (hrecorded : Recorded world log) :
    Recorded next (log ++ ((report stage after).map .saw ++
      (grief? world.site stage).toList.map .died)) := by
  have hleft := hadvanced.left
  have hsome : world.thread.isSome = true := by rw [hleft]; rfl
  have hgiven := hgrounded.sound.started hsome
  refine ⟨?_, ?_, ?_, ?_, ?_, ?_, ?_, ?_⟩
  · rw [count_append_of_quiet quiet_of_advance, hrecorded.once, hadvanced.started]
  · rw [held_append_of_quiet quiet_of_advance, hrecorded.held, hsome, hadvanced.reached]
    rfl
  · rw [hadvanced.reached]
    exact fun _ => rfl
  · intro hnow
    rw [heard_append]
    exact List.mem_append_left _ (hrecorded.asked (howner ▸ hnow))
  · refine running_of_stepFrom hstep ?_
    rw [hrecorded.running, hleft]
    cases stage with
    | finished ending => cases hstep
    | _ => rfl
  · intro _ hnone
    rw [hadvanced.reached] at hnone
    cases hnone
  · intro hnot
    rw [hadvanced.started, hgiven] at hnot
    cases hnot
  · intro other hother
    rw [hadvanced.reached] at hother
    cases hother
    rw [griefOf_append_advance, verdictAt_of_stepFrom hstep hadvanced.reached]
    have hbefore := hrecorded.blamed stage hleft
    -- A thread comes to grief at most once: before that step nothing is noted against it.
    cases hnow : grief? world.site stage with
    | none => rw [Option.or_none, hbefore]
    | some grief =>
        rw [verdictAt_of_grief hnow, blame_eq_ok] at hbefore
        rw [hbefore, Option.none_or]

theorem recorded_of_turn (hturn : Turn world next notes) (hgrounded : Grounded world (heard log))
    (hrecorded : Recorded world log) : Recorded next (log ++ notes) := by
  cases hturn with
  | started _ _ hstarted hidle hreceiving hnow hrunning =>
      exact recorded_of_started hstarted hidle hreceiving hnow hrunning hrecorded
  | steady hsteady => exact hsteady.recorded hrecorded
  | returned howner hthread hnext =>
      subst hnext
      exact recorded_of_returned howner hthread hrecorded
  | joined _ hthread hidle hnone hstarted hrunning huntouched =>
      exact recorded_of_joined hthread hidle hnone hstarted hrunning huntouched hgrounded hrecorded
  | advanced hstep hadvanced howner =>
      exact recorded_of_advanced hstep hadvanced howner hgrounded hrecorded

end Records

/-- What holds at every moment of the life of a bridge. -/
structure Consistent (world : World) (log : List Note) : Prop where
  grounded : Grounded world (heard log)
  recorded : Recorded world log

theorem consistent_of_fresh {world : World} (hfresh : world.Fresh) : Consistent world [] := by
  obtain ⟨config, _, hbridge⟩ := bridge_of_fresh hfresh
  have hthread : world.thread = none := by rw [World.thread, hbridge]
  have hstarted : world.started = false := by rw [World.started, hbridge]
  refine ⟨⟨sound_of_fresh hfresh, waking_of_fresh hfresh⟩, ?_, ?_, ?_, ?_, ?_, ?_, fun _ => rfl, ?_⟩
  · rw [hstarted]
    rfl
  · rw [hthread]
    rfl
  · exact fun hbusy => absurd hfresh.2 hbusy
  · intro hasked
    rw [hfresh.2] at hasked
    cases hasked
  · rw [hthread, hbridge]
    rfl
  · intro hgiven
    rw [hstarted] at hgiven
    cases hgiven
  · intro stage hstage
    rw [hthread] at hstage
    cases hstage

theorem consistent_of_act {world next : World} {act : Act} {log notes : List Note}
    (hact : act? world act = some (next, notes)) (hlog : Consistent world log) :
    Consistent next (log ++ notes) :=
  ⟨grounded_of_act hact hlog.grounded,
    recorded_of_turn (turn_of_act hact) hlog.grounded hlog.recorded⟩

theorem consistent_of_history {first world : World} {log : List Note} (hfresh : first.Fresh)
    (hhistory : History first log world) : Consistent world log := by
  induction hhistory with
  | refl => exact consistent_of_fresh hfresh
  | step act _ hact ih => exact consistent_of_act hact ih

section Calls

variable {world next : World} {log notes : List Note}

theorem started_mem_iff (hrecorded : Recorded world log) :
    .saw .started ∈ log ↔ world.started = true := by
  have honce := hrecorded.once
  rw [← List.count_pos_iff, honce]
  split <;> simp_all

theorem start_of_consistent (hlog : Consistent world log) (hidle : world.owner = .idle)
    (writer : Writer) :
    ∃ next, act? world (.start writer) = some (next, [startNote (startAnswer writer log)]) ∧
      (startAnswer writer log ≠ .ok () → next = world) := by
  have hmem := started_mem_iff hlog.recorded
  have hheld : held log = world.site.bridge.thread.isSome := hlog.recorded.held
  have hstarted : world.started = world.site.bridge.started := rfl
  simp only [act?, hidle, if_true, Site.start, startAnswer, hheld, hmem, hstarted,
    LifecycleError.refuse]
  by_cases hphase : writer.phase = .started
  · simp only [hphase, ne_eq, not_true_eq_false, if_false]
    by_cases hthread : world.site.bridge.thread.isSome = true
    · simp only [hthread, if_true]
      exact ⟨world, by rw [← hidle]; rfl, fun _ => rfl⟩
    · simp only [hthread]
      by_cases hgiven : world.site.bridge.started = true
      · simp only [hgiven, if_true]
        exact ⟨world, by rw [← hidle]; rfl, fun _ => rfl⟩
      · simp only [hgiven]
        exact ⟨_, rfl, fun hrefused => absurd rfl hrefused⟩
  · simp only [hphase, ne_eq, not_false_eq_true, if_true]
    exact ⟨world, by rw [← hidle]; rfl, fun _ => rfl⟩

theorem stop_of_consistent (hlog : Consistent world log) (hidle : world.owner = .idle) :
    (held log = false → act? world .stop = some (world, [.stopped (.ok ())])) ∧
      (held log = true → ∃ next, act? world .stop = some (next, [.saw .flagged])) := by
  rw [hlog.recorded.held]
  constructor
  · intro hnone
    have hthread : ¬ world.thread.isSome = true := by rw [hnone]; exact Bool.false_ne_true
    simp only [act?, if_neg hthread, hidle, if_true, stop_of_idle hthread]
    rw [← hidle]
  · intro hthread
    simp only [act?, World.step, hthread, hidle, true_and, if_true]
    exact ⟨_, rfl⟩

theorem join_of_consistent (hlog : Consistent world log)
    (hact : act? world .join = some (next, notes)) :
    notes = [.saw .returned, .stopped (blame (griefOf log))] := by
  obtain ⟨⟨after, happenings⟩, hstep, hnoted⟩ := Option.map_eq_some_iff.mp hact
  cases hnoted
  cases made_of_step hstep with
  | joined _ hthread =>
      rw [join_of_finished hthread, hlog.recorded.blamed _ hthread, verdictAt]
      rfl

/-- What is left of a batch, and how far the thread has to go with it, once the flag is raised. -/
def effort (channel : Channel Signal) : Stage → Nat
  | .receiving => 3 * channel.queue.length + 5
  | .draining batch => 3 * channel.queue.length + 2 * batch.length + 5
  | .writing _ batch _ _ _ => 2 * batch.length + 5
  | .applying _ batch _ => 2 * batch.length + 4
  | .checking _ => 3
  | .leaving _ => 2
  | .released _ => 1
  | .finished _ => 0

theorem effort_of_advance {nameOf : String → Option String} {channel rest : Channel Signal}
    {stage after : Stage} {happenings : List Happening}
    (hadvance : Advance nameOf true channel stage happenings rest after) :
    effort rest after < effort channel stage := by
  cases hadvance with
  | takeFirst hqueue | take hqueue | takeEnd hqueue =>
      simp only [effort, hqueue, List.length_cons, List.length_append, List.length_nil]
      omega
  | again hgo => simp at hgo
  | _ =>
      simp only [effort, List.length_cons, List.length_nil]
      omega

theorem exists_thread_act (hlog : Consistent world log) (howner : world.owner = .asked)
    {stage : Stage} (hthread : world.thread = some stage)
    (hunfinished : ∀ ending, stage ≠ .finished ending) :
    ∃ after next notes, act? world .thread = some (next, notes) ∧ next.owner = .asked ∧
      next.thread = some after ∧ effort next.channel after < effort world.channel stage := by
  obtain ⟨hflagged, hwaits⟩ := hlog.grounded.waking.asked (hlog.recorded.asked howner)
  obtain ⟨hstop, _⟩ := hlog.grounded.waking.raised hflagged
  have hable := isSome_step_thread hthread hunfinished fun hreceiving =>
    hwaits (hreceiving ▸ hthread)
  obtain ⟨⟨next, happenings⟩, hstep⟩ := Option.isSome_iff_exists.mp hable
  have hact : act? world .thread = some (next, happenings.map .saw ++
      (world.thread.bind (grief? world.site)).toList.map .died) := by
    simp only [act?, hstep, Option.map_some]
  obtain ⟨other, after, _, _, hadvanced, hkeeps, _⟩ := advanced_of_act hact
  obtain rfl : stage = other := Option.some.inj (hthread.symm.trans hadvanced.left)
  have hadvance := hadvanced.advance
  rw [hstop] at hadvance
  exact ⟨after, next, _, hact, hkeeps.trans howner, hadvanced.reached, effort_of_advance hadvance⟩

/-- A stop returns if only the thread goes on. -/
theorem exists_join (hlog : Consistent world log) (howner : world.owner = .asked) :
    ∃ count last later, acts world (List.replicate count .thread) = some (last, later) ∧
      (act? last .join).isSome = true := by
  have hbusy := hlog.recorded.busy (by rw [howner]; exact Owner.noConfusion)
  obtain ⟨stage, hthread⟩ := Option.isSome_iff_exists.mp hbusy
  induction heffort : effort world.channel stage using Nat.strongRecOn
    generalizing world log stage with
  | ind effort ih =>
      subst heffort
      by_cases hfinished : ∃ ending, stage = .finished ending
      · obtain ⟨ending, rfl⟩ := hfinished
        refine ⟨0, world, [], rfl, ?_⟩
        simp only [act?, World.step, howner, hthread, Option.map_some, Option.isSome_some]
      · obtain ⟨after, next, notes, hact, hasked, hafter, hless⟩ :=
          exists_thread_act hlog howner hthread fun ending heq => hfinished ⟨ending, heq⟩
        obtain ⟨count, last, later, hacts, hjoin⟩ := ih _ hless (consistent_of_act hact hlog) hasked
          (by rw [hafter]; rfl) after hafter rfl
        refine ⟨count + 1, last, notes ++ later, ?_, hjoin⟩
        simp only [List.replicate_succ, acts, hact, hacts, Option.map_some]

end Calls

section After

/-- The bridge was started, and it no longer runs or was stopped since. -/
structure Over (world : World) (log : List Note) : Prop where
  started : .saw .started ∈ log
  gone : world.site.bridge.running = false ∨ held log = false

/-- Signals are of no use any more, and no update was made since. -/
structure Spent (world last : World) (later : List Note) : Prop where
  notify : ∀ key microseconds,
    last.site.bridge.notify key microseconds = (last.site.bridge, false, [])
  dropped : last.site.bridge.overflow.dropped = world.site.bridge.overflow.dropped
  applied : last.site.bridge.applied = world.site.bridge.applied
  silent : ∀ note ∈ later, Silent note

variable {world next last : World} {log notes later : List Note}

theorem closed_of_over (hlog : Consistent world log) (hover : Over world log) :
    world.channel.isOpen = false := by
  have hstarted := (started_mem_iff hlog.recorded).mp hover.started
  cases hthread : world.thread with
  | none => exact hlog.recorded.shut hstarted hthread
  | some stage =>
      have hheld : held log = true := by rw [hlog.recorded.held, hthread]; rfl
      have hdead : alive (some stage) = false := by
        rw [← hthread, ← hlog.recorded.running]
        exact hover.gone.resolve_right (by rw [hheld]; exact Bool.noConfusion)
      refine hlog.grounded.sound.closed ?_
      rw [hthread]
      cases stage with
      | finished ending => trivial
      | _ => cases hdead

theorem silent_of_act {act : Act} (hlog : Consistent world log)
    (hclosed : world.channel.isOpen = false) (hact : act? world act = some (next, notes)) :
    Untouched world next ∧ ∀ note ∈ notes, Silent note := by
  obtain ⟨_, hstarted, hthread⟩ := hlog.grounded.sound.gone hclosed
  cases turn_of_act hact with
  | started _ _ hnot =>
      rw [hstarted] at hnot
      cases hnot
  | steady hsteady => exact hsteady.silent hclosed
  | returned _ _ hnext =>
      subst hnext
      exact ⟨⟨rfl, rfl, rfl⟩, by simp [Silent]⟩
  | joined _ _ _ _ _ _ huntouched => exact ⟨huntouched, by simp [Silent]⟩
  | @advanced stage after events hstep hadvanced =>
      have hended : Ended (some stage) := by
        rw [← hadvanced.left]
        refine hthread.resolve_left ?_
        rw [hadvanced.left]
        exact Option.some_ne_none stage
      cases stage with
      | released ending =>
          have hreached := hadvanced.reached
          obtain ⟨site, owner⟩ := next
          cases hstep
          cases hreached
          exact ⟨⟨rfl, rfl, rfl⟩, by simp [report, grief?]⟩
      | finished ending => cases hstep
      | _ => exact hended.elim

theorem notify_of_closed {bridge : Bridge} (hclosed : bridge.channel.isOpen = false) (key : String)
    (microseconds : Nat) : bridge.notify key microseconds = (bridge, false, []) := by
  rw [Bridge.notify, Channel.send_of_closed hclosed]

theorem spent_of_history (hlog : Consistent world log) (hclosed : world.channel.isOpen = false)
    (hhistory : History world later last) :
    last.channel.isOpen = false ∧ Spent world last later := by
  suffices hall : Consistent last (log ++ later) ∧ last.channel.isOpen = false ∧
      Spent world last later from hall.2
  induction hhistory with
  | refl =>
      rw [List.append_nil]
      exact ⟨hlog, hclosed, notify_of_closed hclosed, rfl, rfl, by simp⟩
  | step act _ hact ih =>
      obtain ⟨hreached, hstill, hspent⟩ := ih
      obtain ⟨huntouched, hsilent⟩ := silent_of_act hreached hstill hact
      have hshut := huntouched.isOpen.trans hstill
      rw [← List.append_assoc]
      exact ⟨consistent_of_act hact hreached, hshut, notify_of_closed hshut,
        huntouched.dropped.trans hspent.dropped, huntouched.applied.trans hspent.applied,
        List.forall_mem_append.mpr ⟨hspent.silent, hsilent⟩⟩

end After

/-- What the owner and the other threads can rely on at a moment of the life of a bridge, after what
was noted. -/
structure Lifecycle (world : World) (log : List Note) : Prop where
  once : log.count (.saw .started) ≤ 1
  start : world.owner = .idle → ∀ writer, ∃ next,
    act? world (.start writer) = some (next, [startNote (startAnswer writer log)]) ∧
      (startAnswer writer log ≠ .ok () → next = world)
  /-- Without a thread a stop returns at once and does nothing. -/
  stopIdle : world.owner = .idle → held log = false →
    act? world .stop = some (world, [.stopped (.ok ())])
  stopHeld : world.owner = .idle → held log = true →
    ∃ next, act? world .stop = some (next, [.saw .flagged])
  /-- A stop that waits for the thread returns if only the thread goes on. -/
  returns : world.owner = .asked → ∃ count last later,
    acts world (List.replicate count .thread) = some (last, later) ∧ (act? last .join).isSome = true
  /-- A stop that returns tells what the thread came to grief by. -/
  join : ∀ next notes, act? world .join = some (next, notes) →
    notes = [.saw .returned, .stopped (blame (griefOf log))]
  spent : Over world log → ∀ last later, History world later last → Spent world last later

/-- Whatever happens to a fresh bridge, its writer and its sources: the thread is spawned at most
once, and what a start or a stop answers follows from the calls before it and from what the thread
came to grief by. -/
theorem lifecycle_of_history {first world : World} {log : List Note} (hfresh : first.Fresh)
    (hhistory : History first log world) : Lifecycle world log := by
  have hlog := consistent_of_history hfresh hhistory
  constructor
  · rw [hlog.recorded.once]
    split <;> omega
  · exact start_of_consistent hlog
  · exact fun hidle => (stop_of_consistent hlog hidle).1
  · exact fun hidle => (stop_of_consistent hlog hidle).2
  · exact exists_join hlog
  · exact fun _ _ => join_of_consistent hlog
  · exact fun hover _ _ hlater => (spent_of_history hlog (closed_of_over hlog hover) hlater).2

/-- A stop before there is a thread, a start with an unstarted writer and one with a started writer;
then the source `first` becomes one of another kind, which the thread does not survive. -/
def unluckyActs : List Act :=
  [.stop, .start (Writer.ofPath "file" .legacy), .start twoCounters.site.writer,
    .elsewhere twoCounters.site.writer twoCounters.site.volume
      [("first", .constant "first" .item (.str "none"))],
    .notify "first" 0] ++
  List.replicate 6 .thread ++
  [.notify "first" 0, .start twoCounters.site.writer, .stop, .askToEnd, .join,
    .start twoCounters.site.writer, .stop]

theorem lifecycle_unluckyActs : ∃ world log,
    acts twoCounters unluckyActs = some (world, log) ∧
      log.filter (fun note => note.heard? = none) =
        [.stopped (.ok ()), .died (.refused (.configuration (.typeMismatch .i64 .str))),
          .stopped (UpdateError.bridgeFailed
            "configuration error: type mismatch: handler encodes I64, got Str").refuse,
          .stopped (.ok ())] ∧
      Over world log ∧ Lifecycle world log := by
  have hlog : (acts twoCounters unluckyActs).map (fun reached =>
      (reached.2, reached.1.site.bridge.running)) =
      some
        ([.stopped (.ok ()), .saw (.startRefused (.refused (.lifecycle .notStarted))),
          .saw .started, .saw (.accepted "first"), .saw (.took "first"), .saw .drained,
          .saw (.read "first" "first" (.str "none")), .saw .abandoned,
          .died (.refused (.configuration (.typeMismatch .i64 .str))), .saw .closed,
          .saw (.unheard "first"), .saw (.startRefused (.refused (.lifecycle .bridgeRunning))),
          .saw .flagged, .saw .asked, .saw .returned,
          .stopped (UpdateError.bridgeFailed
            "configuration error: type mismatch: handler encodes I64, got Str").refuse,
          .saw (.startRefused (.refused (.lifecycle .stopped))), .stopped (.ok ())], false) := by
    decide +kernel
  obtain ⟨⟨world, log⟩, hacts, hreached⟩ := Option.map_eq_some_iff.mp hlog
  simp only [Prod.mk.injEq] at hreached
  obtain ⟨rfl, hrunning⟩ := hreached
  exact ⟨world, _, hacts, by decide, ⟨by decide, .inl hrunning⟩,
    lifecycle_of_history fresh_twoCounters (history_of_acts hacts)⟩

end MappedMetrics.Proofs.BridgeLifecycle
