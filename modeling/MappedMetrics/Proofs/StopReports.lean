import MappedMetrics.Proofs.BridgeEffects
import MappedMetrics.Proofs.StopVisibility

namespace MappedMetrics.Proofs.StopReports

open MappedMetrics
open MappedMetrics.Proofs.HandlerEncodings
open MappedMetrics.Proofs.UpdateFrames
open MappedMetrics.Proofs.ValuesAtRest
open MappedMetrics.Proofs.BridgeInterleaving
open MappedMetrics.Proofs.BridgeEffects
open MappedMetrics.Proofs.WriterInterleaving
open MappedMetrics.Proofs.StopVisibility

/-- What is asked of a handler: to refuse only values that it cannot encode, and to say so. -/
def KeepsContract (handler : Handler) : Prop :=
  ∀ value width held error, handler.encode value width held = .error (.refused error) →
    ∃ expected actual, error = .configuration (.typeMismatch expected actual)

theorem keepsContract_of_builtIn {handler : Handler} (hbuiltIn : BuiltIn handler) :
    KeepsContract handler := by
  intro value width held error hencode
  cases hbuiltIn with
  | numeric =>
      change Handler.encodeNumeric _ value width = _ at hencode
      rw [Handler.encodeNumeric] at hencode
      split at hencode
      · split at hencode <;> cases hencode
      · cases hencode
        exact ⟨_, _, rfl⟩
  | text room =>
      rw [encode_text] at hencode
      cases value with
      | str text =>
          simp only [Handler.encodeText] at hencode
          split at hencode <;> cases hencode
      | _ =>
          cases hencode
          exact ⟨_, _, rfl⟩

/-- A metric of the name is registered, and its handler encodes the value. -/
def Takes (writer : Writer) (name : String) (value : MetricValue) : Prop :=
  ∃ metric ∈ writer.metrics, metric.name = name ∧ ∃ laid, zeroed metric value = .ok laid

theorem takes_of_kind {writer : Writer} {metric : Metric} {value : MetricValue}
    (hmem : metric ∈ writer.metrics) (hbuiltIn : BuiltIn metric.handler)
    (hkind : metric.handler.kind = value.kind) : Takes writer metric.name value := by
  obtain ⟨laid, hput, _⟩ := putBytes_builtIn hbuiltIn hkind fun _ => 0
  exact ⟨metric, hmem, rfl, laid, hput⟩

/-- A source can be read, and its metric is registered and of the kind of what it reads. -/
def Fits (writer : Writer) (monitor : Monitor) : Prop :=
  ∃ value, monitor.current = .ok value ∧ Takes writer monitor.name value

/-- The thread of a bridge after its update has answered. -/
def resume (site : Site) (shutdown : Bool) (batch seen : List String) :
    Outcome Unit → Site × List Event
  | .ok () =>
      let bridge := { site.bridge with applied := site.bridge.applied + 1 }
      (Site.enter { site with bridge := bridge } (.applying shutdown batch seen), [])
  | .error (.refused (.lifecycle .stopped)) => (site.enter (.leaving .done), [.leftStoppedWriter])
  | .error (.refused error) =>
      (site.enter (.leaving (.failed error)), [.failedUpdate error.message])
  | .error (.halted _) =>
      (site.enter (.leaving (.gaveUp none)), [.abandonedUpdate (ProbeFailure.message none)])

/-- An update of the thread that nothing else overlaps is the one step that it is for the bridge
alone. -/
theorem resume_updateMetric (site : Site) (shutdown : Bool) (batch seen : List String)
    (name : String) (value : MetricValue) :
    site.stepWriting shutdown batch seen name value =
      resume { site with volume := (site.writer.updateMetric site.volume name value).volume }
        shutdown batch seen (site.writer.updateMetric site.volume name value).result := by
  cases hupdated : site.writer.updated site.volume name value with
  | ok volume => simp only [Site.stepWriting, Writer.updateMetric, hupdated, resume]
  | error fault =>
      simp only [Site.stepWriting, Writer.updateMetric, hupdated]
      rcases fault with (_ | cause | _ | _ | _) | _
      case refused.lifecycle => cases cause <;> rfl
      all_goals rfl

theorem resume_same (site : Site) (shutdown : Bool) (batch seen : List String)
    (outcome : Outcome Unit) :
    (resume site shutdown batch seen outcome).1.writer = site.writer ∧
      (resume site shutdown batch seen outcome).1.volume = site.volume ∧
      (resume site shutdown batch seen outcome).1.monitors = site.monitors := by
  unfold resume
  split <;> exact ⟨rfl, rfl, rfl⟩

/-- A bridge and the calls of its writer. The updates of its thread are calls among others. -/
structure Scene where
  world : World
  calls : List (Request × Progress)
  /-- The update that the thread is waiting for. -/
  pending : Option Nat

namespace Scene

def arena (scene : Scene) : Arena :=
  ⟨scene.world.site.writer, scene.world.site.volume, scene.calls⟩

def withWorld (scene : Scene) (world : World) : Scene :=
  { scene with world := world }

def withSite (scene : Scene) (site : Site) : Scene :=
  { scene with world := { scene.world with site := site } }

def withArena (scene : Scene) (arena : Arena) : Scene :=
  { scene.withSite { scene.world.site with writer := arena.writer, volume := arena.volume } with
    calls := arena.calls }

def call (scene : Scene) (act : Act) : Option (Scene × List Arrival) :=
  (scene.arena.step act).map fun (arena, arrival) => (scene.withArena arena, [arrival])

/-- The next step of the thread of the bridge. -/
def threadStep (scene : Scene) (host : Host) : Option (Scene × List Arrival) :=
  match scene.world.thread with
  | some (.writing shutdown batch seen name value) =>
      match scene.pending with
      | none =>
          (scene.call (.begin (.update name value))).map fun (next, log) =>
            ({ next with pending := some scene.calls.length }, log)
      | some caller =>
          match scene.calls[caller]? with
          | some (_, .returned outcome) =>
              let site := (resume scene.world.site shutdown batch seen outcome).1
              some ({ scene.withSite site with pending := none }, [])
          | _ => scene.call (.advance caller host)
  | _ => (scene.world.step .thread).map fun (world, _) => (scene.withWorld world, [])

end Scene

/-- The thread comes to an end without a fault if it goes on alone. -/
inductive EndsDone (host : Host) : Scene → Prop where
  | ended {scene : Scene} :
      scene.world.thread = some (.finished .done) → EndsDone host scene
  | step {scene next : Scene} {log : List Arrival} :
      scene.threadStep host = some (next, log) → EndsDone host next → EndsDone host scene

inductive Motion where
  | thread (host : Host)
  /-- A move of another thread that is no call of the writer. -/
  | other (move : Move)
  | call (act : Act)

def Scene.step (scene : Scene) : Motion → Option (Scene × List Arrival)
  | .thread host => scene.threadStep host
  | .other .thread | .other .markWriter | .other .releaseWriter => none
  | .other move => (scene.world.step move).map fun (world, _) => (scene.withWorld world, [])
  | .call act => scene.call act

/-- The scenes that motions lead to, in which every source goes on to fit its metric. -/
inductive Passes (first : Scene) : List Arrival → Scene → Prop where
  | refl : Passes first [] first
  | step {log arrivals : List Arrival} {scene next : Scene} (motion : Motion) :
      Passes first log scene →
      (∀ key monitor, motion = .other (.change key monitor) →
        Fits first.world.site.writer monitor) →
      scene.step motion = some (next, arrivals) → Passes first (log ++ arrivals) next

/-- A writer was just started, its bridge has no thread yet, and the sources fit their metrics. -/
structure Ready (scene : Scene) : Prop where
  started : JustStarted scene.arena
  idle : scene.world.thread = none
  pending : scene.pending = none
  fits : ∀ entry ∈ scene.world.site.monitors, Fits scene.world.site.writer entry.2

/-- Everything that one motion can do. -/
inductive Moved (scene : Scene) : Motion → List Arrival → Scene → Prop where
  | other {move : Move} {world : World} {happenings : List Happening} :
      move ≠ .thread → move ≠ .markWriter → move ≠ .releaseWriter →
      scene.world.step move = some (world, happenings) →
        Moved scene (.other move) [] (scene.withWorld world)
  | call {act : Act} {arena : Arena} {arrival : Arrival} :
      scene.arena.step act = some (arena, arrival) →
        Moved scene (.call act) [arrival] (scene.withArena arena)
  | thread {host : Host} {world : World} {happenings : List Happening} :
      (∀ shutdown batch seen name value,
        scene.world.thread ≠ some (.writing shutdown batch seen name value)) →
      scene.world.step .thread = some (world, happenings) →
        Moved scene (.thread host) [] (scene.withWorld world)
  | enter {host : Host} {shutdown : Bool} {batch seen : List String} {name : String}
      {value : MetricValue} {arena : Arena} {arrival : Arrival} :
      scene.world.thread = some (.writing shutdown batch seen name value) →
      scene.pending = none →
      scene.arena.step (.begin (.update name value)) = some (arena, arrival) →
        Moved scene (.thread host) [arrival]
          { scene.withArena arena with pending := some scene.calls.length }
  | advance {host : Host} {caller : Nat} {arena : Arena} {arrival : Arrival} :
      scene.arena.step (.advance caller host) = some (arena, arrival) →
        Moved scene (.thread host) [arrival] (scene.withArena arena)
  | leave {host : Host} {shutdown : Bool} {batch seen : List String} {name : String}
      {value : MetricValue} {caller : Nat} {request : Request} {outcome : Outcome Unit} :
      scene.world.thread = some (.writing shutdown batch seen name value) →
      scene.pending = some caller → scene.calls[caller]? = some (request, .returned outcome) →
        Moved scene (.thread host) []
          { scene.withSite (resume scene.world.site shutdown batch seen outcome).1 with
            pending := none }

section Steps

variable {first scene next : Scene} {log arrivals : List Arrival} {motion : Motion}

theorem moved_of_call {act : Act} (hcall : scene.call act = some (next, arrivals)) :
    ∃ arena arrival, scene.arena.step act = some (arena, arrival) ∧
      next = scene.withArena arena ∧ arrivals = [arrival] := by
  obtain ⟨⟨arena, arrival⟩, hstep, hnext⟩ := Option.map_eq_some_iff.mp hcall
  cases hnext
  exact ⟨arena, arrival, hstep, rfl, rfl⟩

theorem moved_of_threadStep {host : Host}
    (hstep : scene.threadStep host = some (next, arrivals)) :
    Moved scene (.thread host) arrivals next := by
  simp only [Scene.threadStep] at hstep
  split at hstep
  · rename_i shutdown batch seen name value hthread
    split at hstep
    · rename_i hpending
      obtain ⟨⟨made, log⟩, hcall, hnext⟩ := Option.map_eq_some_iff.mp hstep
      obtain ⟨arena, arrival, hmade, rfl, rfl⟩ := moved_of_call hcall
      cases hnext
      exact .enter hthread hpending hmade
    · rename_i caller hpending
      split at hstep
      · rename_i request outcome hcall
        cases hstep
        exact .leave hthread hpending hcall
      · obtain ⟨arena, arrival, hmade, rfl, rfl⟩ := moved_of_call hstep
        exact .advance hmade
  · rename_i hthread
    obtain ⟨⟨world, happenings⟩, hworld, hnext⟩ := Option.map_eq_some_iff.mp hstep
    cases hnext
    exact .thread (fun _ _ _ _ _ hwriting => hthread _ _ _ _ _ hwriting) hworld

theorem moved_of_step (hstep : scene.step motion = some (next, arrivals)) :
    Moved scene motion arrivals next := by
  cases motion with
  | thread host => exact moved_of_threadStep hstep
  | call act =>
      obtain ⟨arena, arrival, hmade, rfl, rfl⟩ := moved_of_call hstep
      exact .call hmade
  | other move =>
      cases move
      case thread | markWriter | releaseWriter => cases hstep
      all_goals
        obtain ⟨⟨world, happenings⟩, hworld, hnext⟩ := Option.map_eq_some_iff.mp hstep
        cases hnext
        refine .other ?_ ?_ ?_ hworld <;> exact fun hmove => Move.noConfusion hmove

theorem volume_of_step {world next : World} {move : Move} {happenings : List Happening}
    (hquiet : move = .thread → ∀ shutdown batch seen name value,
      world.thread ≠ some (.writing shutdown batch seen name value))
    (hstep : world.step move = some (next, happenings)) :
    next.site.volume = world.site.volume := by
  by_cases hmove : move = .thread
  · subst hmove
    obtain ⟨stage, after, hadvanced, -⟩ := advanced_of_step hstep
    cases hadvanced.effect with
    | read _ _ hvolume _ => exact hvolume
    | write => exact absurd hadvanced.left (hquiet rfl _ _ _ _ _)
    | neither hvolume => exact hvolume
  · exact (outside_of_step hmove hstep).volume

/-- To the calls of the writer, all other motions are nothing. -/
theorem course_of_moved {start : Arena} (hmoved : Moved scene motion arrivals next)
    (hcourse : Course start log scene.arena) : Course start (log ++ arrivals) next.arena := by
  cases hmoved with
  | other hthread hmark hrelease hworld =>
      rw [List.append_nil]
      have hvolume := volume_of_step (fun hmove => absurd hmove hthread) hworld
      have hwriter := writer_of_step hmark hrelease hworld
      rwa [Scene.arena, Scene.withWorld, hwriter, hvolume]
  | call hstep | enter _ _ hstep | advance hstep => exact .step _ hcourse hstep
  | thread hquiet hworld =>
      rw [List.append_nil]
      have hvolume := volume_of_step (fun _ => hquiet) hworld
      have hwriter := writer_of_step (by simp) (by simp) hworld
      rwa [Scene.arena, Scene.withWorld, hwriter, hvolume]
  | leave =>
      rw [List.append_nil, Scene.arena, Scene.withSite]
      obtain ⟨hwriter, hvolume, _⟩ := resume_same scene.world.site _ _ _ _
      rw [hwriter, hvolume]
      exact hcourse

theorem course_of_passes (hpasses : Passes first log scene) :
    Course first.arena log scene.arena := by
  induction hpasses with
  | refl => exact .refl
  | step motion _ _ hstep ih => exact course_of_moved (moved_of_step hstep) ih

/-- A stage at which nothing has gone wrong. -/
def Calm (writer : Writer) : Stage → Prop
  | .writing _ _ _ name value => Takes writer name value
  | .leaving ending | .released ending | .finished ending => ending = .done
  | _ => True

/-- What is true of the thread while the sources fit. -/
structure Tidy (writer : Writer) (scene : Scene) : Prop where
  calm : ∀ stage, scene.world.thread = some stage → Calm writer stage
  fits : ∀ entry ∈ scene.world.site.monitors, Fits writer entry.2
  pending : ∀ caller, scene.pending = some caller → ∃ shutdown batch seen name value point,
    scene.world.thread = some (.writing shutdown batch seen name value) ∧
      scene.calls[caller]? = some (.update name value, point)

variable {writer : Writer}

theorem fits_of_monitor? {site : Site} {key : String} {monitor : Monitor}
    (hfits : ∀ entry ∈ site.monitors, Fits writer entry.2)
    (hmonitor : site.monitor? key = some monitor) : Fits writer monitor := by
  obtain ⟨entry, hfound, rfl⟩ := Option.map_eq_some_iff.mp hmonitor
  exact hfits entry (List.mem_of_find?_eq_some hfound)

theorem calm_of_stepFrom {site after : Site} {stage : Stage} {events : List Event}
    (hquiet : ∀ shutdown batch seen name value, stage ≠ .writing shutdown batch seen name value)
    (hcalm : Calm writer stage) (hfits : ∀ entry ∈ site.monitors, Fits writer entry.2)
    (hstep : site.stepFrom stage = some (after, events)) :
    ∃ reached, after.bridge.thread = some reached ∧ Calm writer reached := by
  cases stage with
  | receiving =>
      simp only [Site.stepFrom] at hstep
      split at hstep <;> cases hstep <;> exact ⟨_, rfl, trivial⟩
  | draining batch =>
      simp only [Site.stepFrom] at hstep
      split at hstep <;> cases hstep <;> exact ⟨_, rfl, trivial⟩
  | applying shutdown batch seen =>
      cases batch with
      | nil =>
          cases hstep
          exact ⟨_, rfl, trivial⟩
      | cons key batch =>
          simp only [Site.stepFrom, Site.stepApplying, Option.some.injEq] at hstep
          split at hstep
          · cases hstep
            exact ⟨_, rfl, trivial⟩
          · rename_i monitor hmonitor
            obtain ⟨value, hcurrent, htakes⟩ := fits_of_monitor? hfits hmonitor
            rw [hcurrent] at hstep
            split at hstep <;> cases hstep
            · exact ⟨_, rfl, trivial⟩
            · exact ⟨_, rfl, htakes⟩
  | writing shutdown batch seen name value => exact absurd rfl (hquiet _ _ _ _ _)
  | checking shutdown =>
      simp only [Site.stepFrom] at hstep
      split at hstep <;> cases hstep
      · exact ⟨_, rfl, rfl⟩
      · exact ⟨_, rfl, trivial⟩
  | leaving ending | released ending =>
      cases hstep
      exact ⟨_, rfl, hcalm⟩
  | finished ending => cases hstep

theorem request_of_step {arena after : Arena} {act : Act} {arrival : Arrival} {caller : Nat}
    {request : Request} {point : Progress} (hstep : arena.step act = some (after, arrival))
    (hcall : arena.calls[caller]? = some (request, point)) :
    ∃ later, after.calls[caller]? = some (request, later) := by
  have hstepped := stepped_of_step hstep
  by_cases hcaller : caller = arrival.caller
  · rcases hstepped.passed with ⟨hnew, _, _⟩ | ⟨_, hat, _⟩
    · have hless := (List.getElem?_eq_some_iff.mp hcall).1
      omega
    · rw [hcaller, hat] at hcall
      cases hcall
      exact ⟨_, hcaller ▸ hstepped.arrived⟩
  · exact ⟨point, by rw [hstepped.others caller hcaller, hcall]⟩

theorem tidy_withArena {arena : Arena} {act : Act} {arrival : Arrival} (htidy : Tidy writer scene)
    (hstep : scene.arena.step act = some (arena, arrival)) :
    Tidy writer (scene.withArena arena) := by
  refine ⟨htidy.calm, htidy.fits, fun caller hpending => ?_⟩
  obtain ⟨shutdown, batch, seen, name, value, point, hthread, hcall⟩ :=
    htidy.pending caller hpending
  obtain ⟨later, hlater⟩ := request_of_step hstep hcall
  exact ⟨shutdown, batch, seen, name, value, later, hthread, hlater⟩

theorem outcome_of_takes {layout : Layout} {file : MappedFile} {caller : Nat} {name : String}
    {value : MetricValue} {outcome : Outcome Unit} (hrunning : Running writer layout file)
    (htakes : Takes writer name value)
    (hexplained : Explained writer log caller (.update name value) (.returned outcome)) :
    outcome = .ok () ∨ outcome = LifecycleError.stopped.refuse := by
  cases hexplained with
  | answered _ _ hanswers =>
      obtain ⟨metric, hmem, rfl, laid, hput⟩ := htakes
      obtain ⟨offsets, hentry⟩ := exists_entry hrunning hmem
      have hencoded := encoded_of_entry hrunning hentry value
      rcases zeroed_cases metric offsets value with ⟨_, _, hslot⟩ | ⟨fault, hfault, _⟩
      · refine .inl (hanswers.trans ?_)
        rw [hencoded, hslot]
        rfl
      · rw [hput] at hfault
        cases hfault
  | turnedAway => exact .inr rfl

theorem tidy_of_other {move : Move} {world : World} {happenings : List Happening}
    (htidy : Tidy writer scene) (hmove : move ≠ .thread)
    (hchange : ∀ key monitor, move = .change key monitor → Fits writer monitor)
    (hworld : scene.world.step move = some (world, happenings)) :
    Tidy writer (scene.withWorld world) := by
  have hthread := (outside_of_step hmove hworld).thread
  refine ⟨?_, ?_, ?_⟩
  · intro stage hstage
    change world.thread = some stage at hstage
    rcases hthread with hsame | ⟨_, _, _, hreceiving⟩ | ⟨_, _, hnone⟩
    · exact htidy.calm stage (hsame ▸ hstage)
    · obtain rfl := Option.some.inj (hreceiving.symm.trans hstage)
      trivial
    · rw [hnone] at hstage
      cases hstage
  · intro entry hmem
    rcases monitors_of_step hworld entry hmem with hold | ⟨key, hchanged⟩
    · exact htidy.fits entry hold
    · exact hchange key entry.2 hchanged
  · intro caller hpending
    obtain ⟨shutdown, batch, seen, name, value, point, hwriting, hcall⟩ :=
      htidy.pending caller hpending
    refine ⟨shutdown, batch, seen, name, value, point, ?_, hcall⟩
    change world.thread = _
    rcases hthread with hsame | ⟨hnone, _⟩ | ⟨ending, hfinished, _⟩
    · rw [hsame, hwriting]
    · rw [hwriting] at hnone
      cases hnone
    · rw [hwriting] at hfinished
      cases hfinished

theorem tidy_of_thread {world : World} {happenings : List Happening}
    (htidy : Tidy writer scene) (hquiet : ∀ shutdown batch seen name value,
      scene.world.thread ≠ some (.writing shutdown batch seen name value))
    (hworld : scene.world.step .thread = some (world, happenings)) :
    Tidy writer (scene.withWorld world) := by
  obtain ⟨_, _, hadvanced, -⟩ := advanced_of_step hworld
  cases made_of_step hworld with
  | advanced hthread hsite hafter =>
      have hcalm := htidy.calm _ hthread
      obtain ⟨reached, hreached, hstill⟩ := calm_of_stepFrom
        (fun _ _ _ _ _ hwriting => hquiet _ _ _ _ _ (hwriting ▸ hthread)) hcalm htidy.fits hsite
      refine ⟨?_, ?_, ?_⟩
      · intro other hother
        obtain rfl := Option.some.inj (hreached.symm.trans hother)
        exact hstill
      · intro entry hmem
        exact htidy.fits entry (hadvanced.spared.monitors ▸ hmem)
      · intro caller hpending
        obtain ⟨_, _, _, _, _, _, hwriting, _⟩ := htidy.pending caller hpending
        exact absurd hwriting (hquiet _ _ _ _ _)

theorem tidy_of_moved {layout : Layout} {file : MappedFile} (hrunning : Running writer layout file)
    (hsound : Sound writer log scene.arena) (htidy : Tidy writer scene)
    (hchange : ∀ key monitor, motion = .other (.change key monitor) → Fits writer monitor)
    (hmoved : Moved scene motion arrivals next) : Tidy writer next := by
  cases hmoved with
  | other hthread _ _ hworld =>
      refine tidy_of_other htidy hthread (fun key monitor hmove => ?_) hworld
      exact hchange key monitor (congrArg Motion.other hmove)
  | call hstep | advance hstep => exact tidy_withArena htidy hstep
  | thread hquiet hworld => exact tidy_of_thread htidy hquiet hworld
  | @enter _ shutdown batch seen name value arena arrival hthread hpending hstep =>
      obtain ⟨hcalm, hfits, _⟩ := tidy_withArena htidy hstep
      refine ⟨hcalm, hfits, fun caller hcaller => ?_⟩
      cases hcaller
      cases hstep
      refine ⟨shutdown, batch, seen, name, value, .begun, hthread, ?_⟩
      simp [Scene.withArena, Scene.arena]
  | @leave _ shutdown batch seen name value caller request outcome hthread hpending hcall =>
      obtain ⟨_, _, _, _, _, _, hwriting, hupdate⟩ := htidy.pending caller hpending
      rw [hthread] at hwriting
      cases hwriting
      rw [hcall] at hupdate
      cases hupdate
      obtain ⟨_, _, hmonitors⟩ := resume_same scene.world.site shutdown batch seen outcome
      refine ⟨?_, ?_, fun caller hnone => by cases hnone⟩
      · intro stage hstage
        rcases outcome_of_takes hrunning (htidy.calm _ hthread) (hsound.calls _ _ _ hcall) with
          rfl | rfl
        · cases hstage
          trivial
        · cases hstage
          rfl
      · intro entry hmem
        exact htidy.fits entry (hmonitors ▸ hmem)

theorem tidy_of_passes (hready : Ready first) (hpasses : Passes first log scene) :
    Tidy first.world.site.writer scene := by
  obtain ⟨_, layout, file, hrunning⟩ := running_of_justStarted hready.started
  induction hpasses with
  | refl =>
      refine ⟨?_, hready.fits, ?_⟩
      · intro stage hstage
        rw [hready.idle] at hstage
        cases hstage
      · intro caller hcaller
        rw [hready.pending] at hcaller
        cases hcaller
  | step motion hpasses hchange hstep ih =>
      have hsound := sound_of_course hready.started (course_of_passes hpasses)
      exact tidy_of_moved hrunning hsound ih hchange (moved_of_step hstep)

end Steps

section Ends

variable {scene : Scene} {host : Host}

theorem endsDone_of_released (hthread : scene.world.thread = some (.released .done)) :
    EndsDone host scene := by
  have hbridge : scene.world.site.bridge.thread = some (.released .done) := hthread
  have hstep : ∃ next, scene.threadStep host = some (next, []) ∧
      next.world.thread = some (.finished .done) := by
    simp only [Scene.threadStep, hthread, World.step, hbridge, Site.step, Site.stepFrom,
      Option.map_some]
    exact ⟨_, rfl, rfl⟩
  obtain ⟨next, hnext, hfinished⟩ := hstep
  exact .step hnext (.ended hfinished)

theorem endsDone_of_leaving (hthread : scene.world.thread = some (.leaving .done)) :
    EndsDone host scene := by
  have hbridge : scene.world.site.bridge.thread = some (.leaving .done) := hthread
  have hstep : ∃ next, scene.threadStep host = some (next, []) ∧
      next.world.thread = some (.released .done) := by
    simp only [Scene.threadStep, hthread, World.step, hbridge, Site.step, Site.stepFrom,
      Option.map_some]
    exact ⟨_, rfl, rfl⟩
  obtain ⟨next, hnext, hreleased⟩ := hstep
  exact .step hnext (endsDone_of_released hreleased)

variable {shutdown : Bool} {batch seen : List String} {name : String} {value : MetricValue}
  {caller : Nat} {request : Request} {point : Progress}

theorem endsDone_of_stopped
    (hthread : scene.world.thread = some (.writing shutdown batch seen name value))
    (hpending : scene.pending = some caller)
    (hcall : scene.calls[caller]? = some (request, .returned LifecycleError.stopped.refuse)) :
    EndsDone host scene := by
  have hstep : scene.threadStep host =
      some ({ scene.withSite (scene.world.site.enter (.leaving .done)) with pending := none },
        []) := by
    simp only [Scene.threadStep, hthread, hpending, hcall]
    rfl
  exact .step hstep (endsDone_of_leaving rfl)

theorem threadStep_of_pending {made : Advance}
    (hthread : scene.world.thread = some (.writing shutdown batch seen name value))
    (hpending : scene.pending = some caller) (hcall : scene.calls[caller]? = some (request, point))
    (hmade : WriterInterleaving.advance host scene.world.site.writer scene.world.site.volume
      request point = some made) :
    scene.threadStep host = some (scene.withArena ⟨made.writer, made.volume,
      scene.calls.set caller (request, made.point)⟩, [⟨caller, request, made.point⟩]) := by
  have hgoing : ∀ outcome, point ≠ .returned outcome := by
    rintro outcome rfl
    cases hmade
  simp only [Scene.threadStep, hthread, hpending, hcall, Scene.call, Arena.step, Scene.arena,
    hmade, Option.map_some]
  split
  · rename_i outcome hreturned
    cases hreturned
    exact absurd rfl (hgoing outcome)
  · rfl

theorem calls_set {calls : List (Request × Progress)} {made : Progress}
    (hcall : calls[caller]? = some (request, point)) :
    (calls.set caller (request, made))[caller]? = some (request, made) :=
  List.getElem?_set_self (List.getElem?_eq_some_iff.mp hcall).1

theorem endsDone_of_missing (hphase : scene.world.site.writer.phase = .stopped)
    (hthread : scene.world.thread = some (.writing shutdown batch seen name value))
    (hpending : scene.pending = some caller)
    (hcall : scene.calls[caller]? = some (request, .missing)) : EndsDone host scene := by
  have hrefused : scene.world.site.writer.inactiveError = .stopped := by
    rw [Writer.inactiveError, if_pos hphase]
  refine .step (threadStep_of_pending hthread hpending hcall rfl) ?_
  rw [hrefused]
  apply endsDone_of_stopped
  · exact hthread
  · exact hpending
  · exact calls_set hcall

theorem endsDone_of_begun (hphase : scene.world.site.writer.phase = .stopped)
    (hfile : scene.world.site.writer.file = none)
    (hthread : scene.world.thread = some (.writing shutdown batch seen name value))
    (hpending : scene.pending = some caller)
    (hcall : scene.calls[caller]? = some (.update name value, .begun)) :
    EndsDone host scene := by
  have hmade : WriterInterleaving.advance host scene.world.site.writer scene.world.site.volume
      (.update name value) .begun =
        some ⟨scene.world.site.writer, scene.world.site.volume, .missing⟩ := by
    simp only [WriterInterleaving.advance, hfile]
  refine .step (threadStep_of_pending hthread hpending hcall hmade) ?_
  apply endsDone_of_missing
  · exact hphase
  · exact hthread
  · exact hpending
  · exact calls_set hcall

theorem endsDone_of_writing (hphase : scene.world.site.writer.phase = .stopped)
    (hfile : scene.world.site.writer.file = none)
    (hthread : scene.world.thread = some (.writing shutdown batch seen name value))
    (hpending : scene.pending = none) : EndsDone host scene := by
  have hstep : scene.threadStep host =
      some ({ scene with
        calls := scene.calls ++ [(.update name value, .begun)]
        pending := some scene.calls.length },
        [⟨scene.calls.length, .update name value, .begun⟩]) := by
    simp only [Scene.threadStep, hthread, hpending]
    rfl
  refine .step hstep ?_
  apply endsDone_of_begun
  · exact hphase
  · exact hfile
  · exact hthread
  · rfl
  · simp

end Ends

theorem flush_ne_notStarted (file : MappedFile) (host : Host) :
    file.flush host ≠ LifecycleError.notStarted.refuse := by
  rw [MappedFile.flush]
  split <;> exact fun hrefused => by cases hrefused

theorem encoded_ne_notStarted {writer : Writer} {layout : Layout} {file : MappedFile}
    (hrunning : Running writer layout file)
    (hcontract : ∀ metric ∈ writer.metrics, KeepsContract metric.handler) (name : String)
    (value : MetricValue) :
    ((writer.encoded name value).map fun _ => ()) ≠ LifecycleError.notStarted.refuse := by
  intro hanswer
  cases hencoded : writer.encoded name value with
  | ok =>
      rw [hencoded] at hanswer
      cases hanswer
  | error fault =>
      rw [hencoded] at hanswer
      cases hanswer
      rcases refusal_of_encoded hrunning hencoded with hunknown | ⟨metric, hmem, _, hput⟩
      · cases hunknown
      · rcases refusal_of_zeroed hput with hkind | hencode
        · cases hkind
        · obtain ⟨_, _, hkind⟩ := hcontract metric hmem _ _ _ _ hencode
          cases hkind

theorem ne_notStarted_of_explained {writer : Writer} {layout : Layout} {file : MappedFile}
    {log : List Arrival} {caller : Nat} {request : Request} {outcome : Outcome Unit}
    (hrunning : Running writer layout file)
    (hcontract : ∀ metric ∈ writer.metrics, KeepsContract metric.handler)
    (hexplained : Explained writer log caller request (.returned outcome)) :
    outcome ≠ LifecycleError.notStarted.refuse := by
  cases hexplained with
  | answered _ _ hanswers =>
      cases request with
      | update name value =>
          rw [show outcome = (writer.encoded name value).map fun _ => () from hanswers]
          exact encoded_ne_notStarted hrunning hcontract name value
      | flush =>
          obtain ⟨host, rfl⟩ := hanswers
          exact flush_ne_notStarted _ host
      | stop => exact hanswers.elim
  | turnedAway => exact fun hrefused => by cases hrefused
  | again => exact fun hrefused => by cases hrefused
  | @stopped taken host _ =>
      cases taken with
      | none => exact fun hrefused => by cases hrefused
      | some taken => exact flush_ne_notStarted taken host

/-- What a stop makes of the other calls of its writer and of the thread of its bridge. -/
structure Reported (writer : Writer) (log : List Arrival) (scene : Scene) : Prop where
  /-- An update or a flush says that the writer is stopped, or answers as if there were no stop. -/
  answered : ∀ caller request outcome, ⟨caller, request, .returned outcome⟩ ∈ log →
    request ≠ .stop → outcome = LifecycleError.stopped.refuse ∨
      ∃ file, writer.file = some file ∧ Answers writer file outcome request
  never : (∀ metric ∈ writer.metrics, KeepsContract metric.handler) →
    ∀ caller request outcome, ⟨caller, request, .returned outcome⟩ ∈ log →
      outcome ≠ LifecycleError.notStarted.refuse
  /-- Where no file was found, the phase that is read next says that the writer is stopped. -/
  missed : ∀ (caller : Nat) (request : Request),
    scene.calls[caller]? = some (request, .missing) →
    scene.world.site.writer.phase = .stopped
  ending : ∀ ending, scene.world.thread = some (.leaving ending) ∨
      scene.world.thread = some (.released ending) ∨
      scene.world.thread = some (.finished ending) → ending = .done
  joined : scene.world.site.join.2.2 = .ok ()
  /-- Once the file is taken, the next update of the thread is its last. -/
  ends : scene.world.site.writer.file = none → ∀ shutdown batch seen name value,
    scene.world.thread = some (.writing shutdown batch seen name value) →
    (∀ caller, scene.pending = some caller → ∃ request : Request,
      scene.calls[caller]? = some (request, .begun) ∨
        scene.calls[caller]? = some (request, .missing)) →
      ∀ host, EndsDone host scene

theorem done_of_tidy {writer : Writer} {scene : Scene} {ending : Ending}
    (htidy : Tidy writer scene) (hthread : scene.world.thread = some (.leaving ending) ∨
      scene.world.thread = some (.released ending) ∨
      scene.world.thread = some (.finished ending)) : ending = .done := by
  rcases hthread with hthread | hthread | hthread <;> exact htidy.calm _ hthread

theorem phase_of_file_eq_none {writer now : Writer} {layout : Layout} {file : MappedFile}
    {log : List Arrival} (hrunning : Running writer layout file) (hagreed : Agreed writer log now)
    (hfile : now.file = none) : now.phase = .stopped := by
  rcases hagreed.file with ⟨hsame, _⟩ | ⟨_, hreleased⟩
  · rw [hfile, hrunning.mapped] at hsame
    cases hsame
  · exact hagreed.stopped_iff.mpr (hagreed.marked hreleased)

theorem endsDone_of_unserved {writer : Writer} {scene : Scene} {shutdown : Bool}
    {batch seen : List String} {name : String} {value : MetricValue} (htidy : Tidy writer scene)
    (hphase : scene.world.site.writer.phase = .stopped)
    (hfile : scene.world.site.writer.file = none)
    (hthread : scene.world.thread = some (.writing shutdown batch seen name value))
    (hunserved : ∀ caller, scene.pending = some caller → ∃ request : Request,
      scene.calls[caller]? = some (request, .begun) ∨
        scene.calls[caller]? = some (request, .missing)) (host : Host) : EndsDone host scene := by
  -- The thread has yet to begin its update, or the update has begun and found no file.
  cases hpending : scene.pending with
  | none => exact endsDone_of_writing hphase hfile hthread hpending
  | some caller =>
      obtain ⟨_, _, _, updated, next, point, hwriting, hupdate⟩ := htidy.pending caller hpending
      rw [hthread] at hwriting
      cases hwriting
      obtain ⟨request, hcall | hcall⟩ := hunserved caller hpending
      · rw [hupdate] at hcall
        cases hcall
        exact endsDone_of_begun hphase hfile hthread hpending hupdate
      · exact endsDone_of_missing hphase hthread hpending hcall

/-- A stop that overtakes updates, flushes and the thread of a bridge, at whatever point of theirs,
is always reported as a stop. -/
theorem reported_of_passes {first scene : Scene} {log : List Arrival} (hready : Ready first)
    (hpasses : Passes first log scene) : Reported first.world.site.writer log scene := by
  obtain ⟨_, layout, file, hrunning⟩ := running_of_justStarted hready.started
  have hcourse := course_of_passes hpasses
  have hsound := sound_of_course hready.started hcourse
  have htidy := tidy_of_passes hready hpasses
  refine ⟨?_, ?_, ?_, fun ending => done_of_tidy htidy, ?_, ?_⟩
  · intro caller request outcome hmem hrequest
    obtain ⟨before, later, rfl⟩ := List.append_of_mem hmem
    cases explained_of_course hready.started hcourse with
    | answered hfile _ hanswers => exact .inr ⟨_, hfile, hanswers⟩
    | turnedAway => exact .inl rfl
    | again | stopped => exact absurd rfl hrequest
  · intro hcontract caller request outcome hmem
    obtain ⟨before, later, rfl⟩ := List.append_of_mem hmem
    exact ne_notStarted_of_explained hrunning hcontract
      (explained_of_course hready.started hcourse)
  · intro caller request hcall
    cases hsound.calls _ _ _ hcall with
    | missing _ hlooked =>
        exact hsound.agreed.stopped_iff.mpr (hsound.agreed.marked hlooked.released)
  · rw [Site.join]
    split
    · rename_i ending hfinished
      rw [done_of_tidy htidy (.inr (.inr hfinished))]
      rfl
    · rfl
  · intro hfile shutdown batch seen name value hthread hunserved host
    have hphase := phase_of_file_eq_none hrunning hsound.agreed hfile
    exact endsDone_of_unserved htidy hphase hfile hthread hunserved host

def Scene.steps (scene : Scene) : List Motion → Option Scene
  | [] => some scene
  | motion :: motions => (scene.step motion).bind fun (next, _) => next.steps motions

theorem passes_of_steps {first scene last : Scene} {log : List Arrival} {motions : List Motion}
    (hpasses : Passes first log scene)
    (hchange : ∀ key monitor, .other (.change key monitor) ∉ motions)
    (hsteps : scene.steps motions = some last) : ∃ later, Passes first later last := by
  induction motions generalizing scene log with
  | nil =>
      cases hsteps
      exact ⟨log, hpasses⟩
  | cons motion motions ih =>
      obtain ⟨⟨next, arrivals⟩, hstep, hrest⟩ := Option.bind_eq_some_iff.mp hsteps
      refine ih (.step motion hpasses ?_ hstep) ?_ hrest
      · rintro key monitor rfl
        exact absurd List.mem_cons_self (hchange key monitor)
      · exact fun key monitor hmem => hchange key monitor (List.mem_cons_of_mem _ hmem)

/-- The bridge of a count and a state, whose writer was just started. -/
def countAndStateScene : Scene :=
  ⟨countAndStateSources, [], none⟩

/-- The writer is stopped after the thread of the bridge began its update. -/
def overtaken : List Motion :=
  [.other .start, .other (.notify "count" 0)] ++ List.replicate 4 (.thread .willing) ++
    [.call (.begin .stop)] ++ List.replicate 2 (.call (.advance 1 .willing)) ++
    List.replicate 5 (.thread .willing)

theorem ready_countAndState : Ready countAndStateScene := by
  refine ⟨justStarted_countAndState, rfl, rfl, ?_⟩
  have hbuiltIn : ∀ metric ∈ countAndStateStarted.metrics, BuiltIn metric.handler := by
    intro metric hmem
    rcases List.mem_cons.mp hmem with rfl | hmem
    · exact .numeric (by decide)
    · rw [List.mem_singleton.mp hmem]
      exact .text 10
  obtain ⟨count, state, hmetrics, hcount, hstate⟩ : ∃ count state,
      countAndStateStarted.metrics = [count, state] ∧
        (count.name = "count" ∧ count.handler.kind = .i32) ∧
        state.name = "state" ∧ state.handler.kind = .str :=
    ⟨_, _, rfl, ⟨rfl, rfl⟩, rfl, rfl⟩
  have hcountMem : count ∈ countAndStateStarted.metrics := by simp [hmetrics]
  have hstateMem : state ∈ countAndStateStarted.metrics := by simp [hmetrics]
  intro entry hmem
  rcases List.mem_cons.mp hmem with rfl | hmem
  · refine ⟨.i32 4, rfl, ?_⟩
    change Takes countAndStateStarted "count" (.i32 4)
    rw [← hcount.1]
    exact takes_of_kind hcountMem (hbuiltIn count hcountMem) hcount.2
  · obtain rfl := List.mem_singleton.mp hmem
    refine ⟨.str "busy", rfl, ?_⟩
    change Takes countAndStateStarted "state" (.str "busy")
    rw [← hstate.1]
    exact takes_of_kind hstateMem (hbuiltIn state hstateMem) hstate.2

theorem reported_overtaken : Ready countAndStateScene ∧ ∃ log last,
    Passes countAndStateScene log last ∧ last.world.thread = some (.finished .done) ∧
      Reported countAndStateStarted log last := by
  have hsteps : (countAndStateScene.steps overtaken).map (fun scene => scene.world.thread) =
      some (some (.finished .done)) := by
    decide +kernel
  obtain ⟨last, hlast, hfinished⟩ := Option.map_eq_some_iff.mp hsteps
  obtain ⟨log, hpasses⟩ := passes_of_steps .refl (by simp [overtaken]) hlast
  exact ⟨ready_countAndState, log, last, hpasses, hfinished,
    reported_of_passes ready_countAndState hpasses⟩

end MappedMetrics.Proofs.StopReports
