import MappedMetrics.Proofs.FailedCalls

/-!
Calls of a started writer among threads. An update and a flush first look for the mapped file and,
where it is gone, then at the phase; a stop first sets the phase and then takes the mapped file.
Any number of such calls may be under way at once, each in its own thread, and a course is any order
of their steps.
-/

namespace MappedMetrics.Proofs.WriterInterleaving

open MappedMetrics
open MappedMetrics.Proofs.StartedFiles
open MappedMetrics.Proofs.ValueSlots
open MappedMetrics.Proofs.WriterCalls
open MappedMetrics.Proofs.UpdateFrames
open MappedMetrics.Proofs.WriterStates
open MappedMetrics.Proofs.FailedCalls

inductive Request where
  | update (name : String) (value : MetricValue)
  | flush
  | stop
deriving DecidableEq

/-- How far a call has come. -/
inductive Progress where
  | begun
  /-- An update or a flush has found the mapped file. -/
  | holding (file : MappedFile)
  /-- An update or a flush has found no mapped file. -/
  | missing
  /-- A stop has set the phase. -/
  | marked
  /-- A stop has taken what there was for a mapped file. -/
  | released (file : Option MappedFile)
  | returned (outcome : Outcome Unit)

/-- A call came to a point. -/
structure Arrival where
  caller : Nat
  request : Request
  point : Progress

/-- What a step of a call leaves. -/
structure Advance where
  writer : Writer
  volume : Volume
  point : Progress

/-- One step of a call on a host, absent once it has returned. -/
def advance (host : Host) (writer : Writer) (volume : Volume) (request : Request) :
    Progress → Option Advance
  | .begun =>
      match request with
      | .stop =>
          match writer.phase with
          | .unstarted => some ⟨writer, volume, .returned LifecycleError.notStarted.refuse⟩
          | .stopped => some ⟨writer, volume, .returned (.ok ())⟩
          | .started => some ⟨writer.markStopped, volume, .marked⟩
      | .update .. | .flush =>
          match writer.file with
          | some file => some ⟨writer, volume, .holding file⟩
          | none => some ⟨writer, volume, .missing⟩
  | .holding file =>
      match request with
      | .update name value =>
          match writer.storedIn file volume name value with
          | .ok volume => some ⟨writer, volume, .returned (.ok ())⟩
          | .error fault => some ⟨writer, volume, .returned (.error fault)⟩
      | .flush | .stop => some ⟨writer, volume, .returned (file.flush host)⟩
  | .missing => some ⟨writer, volume, .returned writer.inactiveError.refuse⟩
  | .marked => some ⟨writer.release, volume, .released writer.file⟩
  | .released file =>
      some ⟨writer, volume, .returned ((file.map (MappedFile.flush host)).getD (.ok ()))⟩
  | .returned _ => none

/-- A writer with its files and all calls that were made, each with the point that it has come
to. -/
structure Arena where
  writer : Writer
  volume : Volume
  calls : List (Request × Progress)

inductive Act where
  | begin (request : Request)
  | advance (caller : Nat) (host : Host)

namespace Arena

def step (arena : Arena) : Act → Option (Arena × Arrival)
  | .begin request =>
      some ({ arena with calls := arena.calls ++ [(request, .begun)] },
        ⟨arena.calls.length, request, .begun⟩)
  | .advance caller host =>
      match arena.calls[caller]? with
      | none => none
      | some (request, point) =>
          (advance host arena.writer arena.volume request point).map fun made =>
            (⟨made.writer, made.volume, arena.calls.set caller (request, made.point)⟩,
              ⟨caller, request, made.point⟩)

def steps (arena : Arena) : List Act → Option (Arena × List Arrival)
  | [] => some (arena, [])
  | act :: acts =>
      match arena.step act with
      | none => none
      | some (next, arrival) =>
          (next.steps acts).map fun (last, later) => (last, arrival :: later)

/-- The call of the writer that a request asks for, made while no other call is under way. -/
def reply (arena : Arena) (host : Host) : Request → Writer.Reply
  | .update name value => arena.writer.updateMetric arena.volume name value
  | .flush => arena.writer.flushOn host arena.volume
  | .stop => arena.writer.stopOn host arena.volume

end Arena

/-- The arenas that acts lead to, with what calls came to on the way. -/
inductive Course (first : Arena) : List Arrival → Arena → Prop where
  | refl : Course first [] first
  | step {log : List Arrival} {arena next : Arena} {arrival : Arrival} (act : Act) :
      Course first log arena → arena.step act = some (next, arrival) →
        Course first (log ++ [arrival]) next

theorem Course.trans {first middle last : Arena} {log later : List Arrival}
    (hfirst : Course first log middle) (hlast : Course middle later last) :
    Course first (log ++ later) last := by
  induction hlast with
  | refl => rwa [List.append_nil]
  | step act _ hstep ih =>
      rw [← List.append_assoc]
      exact .step act ih hstep

theorem course_of_steps {arena last : Arena} {acts : List Act} {log : List Arrival}
    (hsteps : arena.steps acts = some (last, log)) : Course arena log last := by
  induction acts generalizing arena log with
  | nil =>
      cases hsteps
      exact .refl
  | cons act acts ih =>
      simp only [Arena.steps] at hsteps
      split at hsteps
      · cases hsteps
      · rename_i next arrival hstep
        obtain ⟨⟨final, later⟩, hlater, hlast⟩ := Option.map_eq_some_iff.mp hsteps
        cases hlast
        exact Course.trans (.step act .refl hstep) (ih hlater)

theorem cut_course {first last : Arena} {before later : List Arrival} {arrival : Arrival}
    (hcourse : Course first (before ++ arrival :: later) last) :
    ∃ middle act next, Course first before middle ∧ middle.step act = some (next, arrival) ∧
      Course next later last := by
  generalize hlog : before ++ arrival :: later = log at hcourse
  induction hcourse generalizing later with
  | refl => simp at hlog
  | @step log arena next arrived act hcourse hstep ih =>
      rcases List.eq_nil_or_concat' later with rfl | ⟨earlier, final, rfl⟩
      · obtain ⟨rfl, harrived⟩ := List.append_inj' hlog rfl
        cases harrived
        exact ⟨arena, act, next, hcourse, hstep, .refl⟩
      · rw [← List.cons_append, ← List.append_assoc] at hlog
        obtain ⟨hfront, harrived⟩ := List.append_inj' hlog rfl
        cases harrived
        obtain ⟨middle, made, after, hbefore, hmade, hlater⟩ := ih hfront
        exact ⟨middle, made, after, hbefore, hmade, .step act hlater hstep⟩

theorem step_begin (arena : Arena) (request : Request) :
    arena.step (.begin request) =
      some ({ arena with calls := arena.calls ++ [(request, .begun)] },
        ⟨arena.calls.length, request, .begun⟩) :=
  rfl

theorem step_last (writer : Writer) (volume : Volume) (calls : List (Request × Progress))
    (request : Request) (point : Progress) (host : Host) :
    (Arena.mk writer volume (calls ++ [(request, point)])).step (.advance calls.length host) =
      (advance host writer volume request point).map fun made =>
        (⟨made.writer, made.volume, calls ++ [(request, made.point)]⟩,
          ⟨calls.length, request, made.point⟩) := by
  have hlast : (calls ++ [(request, point)])[calls.length]? = some (request, point) := by simp
  have hset : ∀ made : Progress, (calls ++ [(request, point)]).set calls.length (request, made) =
      calls ++ [(request, made)] := by simp
  simp only [Arena.step, hlast, hset]

/-- A call that is alone answers and leaves what the call of the writer does. -/
theorem steps_alone (arena : Arena) (host : Host) (request : Request) :
    ∃ acts log, arena.steps (.begin request :: acts) =
      some (⟨(arena.reply host request).writer, (arena.reply host request).volume,
        arena.calls ++ [(request, .returned (arena.reply host request).result)]⟩, log) := by
  let next : Act := .advance arena.calls.length host
  cases request with
  | update name value =>
      refine ⟨[next, next], ?_⟩
      cases hfile : arena.writer.file with
      | none =>
          simp only [Arena.steps, step_begin, step_last, advance, hfile, Arena.reply, next,
            Writer.updateMetric, Writer.updated, Option.map_some]
          exact ⟨_, rfl⟩
      | some file =>
          cases hstored : arena.writer.storedIn file arena.volume name value <;>
          · simp only [Arena.steps, step_begin, step_last, advance, hfile, hstored,
              Arena.reply, next, Writer.updateMetric, Writer.updated, Option.map_some]
            exact ⟨_, rfl⟩
  | flush =>
      refine ⟨[next, next], ?_⟩
      cases hfile : arena.writer.file <;>
      · simp only [Arena.steps, step_begin, step_last, advance, hfile, Arena.reply, next,
          Writer.flushOn, Option.map_some]
        exact ⟨_, rfl⟩
  | stop =>
      cases hphase : arena.writer.phase with
      | started =>
          refine ⟨[next, next, next], ?_⟩
          simp only [Arena.steps, step_begin, step_last, advance, hphase, Arena.reply, next,
            Writer.stopOn, Option.map_some]
          exact ⟨_, rfl⟩
      | _ =>
          refine ⟨[next], ?_⟩
          simp only [Arena.steps, step_begin, step_last, advance, hphase, Arena.reply, next,
            Writer.stopOn, Option.map_some]
          exact ⟨_, rfl⟩

/-- Everything that one step of a call can do, and what it depends on. -/
inductive Passage (writer : Writer) : Request → Progress → Writer → Progress → Prop where
  | refuse :
      writer.phase = .unstarted →
        Passage writer .stop .begun writer (.returned LifecycleError.notStarted.refuse)
  | again :
      writer.phase = .stopped → Passage writer .stop .begun writer (.returned (.ok ()))
  | mark :
      writer.phase = .started → Passage writer .stop .begun writer.markStopped .marked
  | release {request : Request} :
      Passage writer request .marked writer.release (.released writer.file)
  | close {request : Request} {file : Option MappedFile} {host : Host} :
      Passage writer request (.released file) writer
        (.returned ((file.map (MappedFile.flush host)).getD (.ok ())))
  | find {request : Request} {file : MappedFile} :
      request ≠ .stop → writer.file = some file →
        Passage writer request .begun writer (.holding file)
  | miss {request : Request} :
      request ≠ .stop → writer.file = none → Passage writer request .begun writer .missing
  | store {name : String} {value : MetricValue} {file : MappedFile} {volume : Volume}
      {outcome : Outcome Unit} :
      (writer.storedIn file volume name value).map (fun _ => ()) = outcome →
        Passage writer (.update name value) (.holding file) writer (.returned outcome)
  | sync {request : Request} {file : MappedFile} {host : Host} :
      (∀ name value, request ≠ .update name value) →
        Passage writer request (.holding file) writer (.returned (file.flush host))
  | turnAway {request : Request} :
      Passage writer request .missing writer (.returned writer.inactiveError.refuse)

theorem passage_of_advance {host : Host} {writer : Writer} {volume : Volume} {request : Request}
    {point : Progress} {made : Advance}
    (hmade : advance host writer volume request point = some made) :
    Passage writer request point made.writer made.point := by
  cases point with
  | begun =>
      cases request with
      | stop =>
          cases hphase : writer.phase <;> simp only [advance, hphase] at hmade <;> cases hmade
          · exact .refuse hphase
          · exact .mark hphase
          · exact .again hphase
      | update name value =>
          cases hfile : writer.file <;> simp only [advance, hfile] at hmade <;> cases hmade
          · exact .miss (fun hstop => Request.noConfusion hstop) hfile
          · exact .find (fun hstop => Request.noConfusion hstop) hfile
      | flush =>
          cases hfile : writer.file <;> simp only [advance, hfile] at hmade <;> cases hmade
          · exact .miss (fun hstop => Request.noConfusion hstop) hfile
          · exact .find (fun hstop => Request.noConfusion hstop) hfile
  | holding file =>
      cases request with
      | update name value =>
          cases hstored : writer.storedIn file volume name value <;>
            simp only [advance, hstored] at hmade <;> cases hmade
          · exact .store (by rw [hstored]; rfl)
          · exact .store (by rw [hstored]; rfl)
      | _ =>
          cases hmade
          exact .sync (fun _ _ hupdate => Request.noConfusion hupdate)
  | missing =>
      cases hmade
      exact .turnAway
  | marked =>
      cases hmade
      exact .release
  | released file =>
      cases hmade
      exact .close
  | returned outcome => cases hmade

namespace Passage

variable {writer next : Writer} {request : Request} {point : Progress}

theorem phase_of_marked (hpassage : Passage writer request point next .marked) :
    writer.phase = .started := by
  cases hpassage with
  | mark hphase => exact hphase

theorem released_of_marked (hpassage : Passage writer request .marked next point) :
    point = .released writer.file := by
  cases hpassage with
  | release => rfl

theorem not_begun : ¬ Passage writer request point next .begun := by
  intro hpassage
  cases hpassage

end Passage

/-- What a step leaves, and the point that one call came to by it. -/
structure Stepped (arena next : Arena) (arrival : Arrival) : Prop where
  length : arena.calls.length ≤ next.calls.length
  arrived : next.calls[arrival.caller]? = some (arrival.request, arrival.point)
  others : ∀ caller, caller ≠ arrival.caller → next.calls[caller]? = arena.calls[caller]?
  /-- The call is a new one, or it went on from the point where it was. -/
  passed : arrival.caller = arena.calls.length ∧ arrival.point = .begun ∧
      next.writer = arena.writer ∨
    ∃ point, arena.calls[arrival.caller]? = some (arrival.request, point) ∧
      Passage arena.writer arrival.request point next.writer arrival.point

theorem stepped_of_step {arena next : Arena} {act : Act} {arrival : Arrival}
    (hstep : arena.step act = some (next, arrival)) : Stepped arena next arrival := by
  cases act with
  | begin request =>
      cases hstep
      refine ⟨by simp, by simp, ?_, .inl ⟨rfl, rfl, rfl⟩⟩
      intro caller hne
      change caller ≠ arena.calls.length at hne
      rw [List.getElem?_append]
      split
      · rfl
      · rename_i hmore
        rw [List.getElem?_eq_none (l := arena.calls) (by omega), List.getElem?_singleton,
          if_neg (by omega)]
  | advance caller host =>
      simp only [Arena.step] at hstep
      split at hstep
      · cases hstep
      · rename_i request point hcall
        obtain ⟨made, hmade, hnext⟩ := Option.map_eq_some_iff.mp hstep
        cases hnext
        have hless : caller < arena.calls.length := (List.getElem?_eq_some_iff.mp hcall).1
        refine ⟨by simp, by simp [hless], ?_, .inr ⟨point, hcall, passage_of_advance hmade⟩⟩
        intro other hne
        exact List.getElem?_set_ne hne.symm

def Marked (log : List Arrival) : Prop :=
  ∃ arrival ∈ log, arrival.point = .marked

def Released (log : List Arrival) : Prop :=
  ∃ arrival ∈ log, ∃ file, arrival.point = .released file

theorem marked_append {log : List Arrival} {arrival : Arrival} :
    Marked (log ++ [arrival]) ↔ Marked log ∨ arrival.point = .marked := by
  simp only [Marked, List.mem_append, List.mem_singleton, or_and_right, exists_or, exists_eq_left]

theorem released_append {log : List Arrival} {arrival : Arrival} :
    Released (log ++ [arrival]) ↔ Released log ∨ ∃ file, arrival.point = .released file := by
  simp only [Released, List.mem_append, List.mem_singleton, or_and_right, exists_or,
    exists_eq_left]

/-- How the writer has changed since a course began, and what that says about the course. -/
structure Agreed (first : Writer) (log : List Arrival) (writer : Writer) : Prop where
  same : writer = { first with phase := writer.phase, file := writer.file }
  phase : writer.phase = .started ∧ ¬ Marked log ∨ writer.phase = .stopped ∧ Marked log
  file : writer.file = first.file ∧ ¬ Released log ∨ writer.file = none ∧ Released log
  marked : Released log → Marked log

/-- A call came to a point. An update or a flush misses the file if and only if it was released
before. -/
def Looked (log : List Arrival) (caller : Nat) (request : Request) (point : Progress) : Prop :=
  ∃ before later, log = before ++ ⟨caller, request, point⟩ :: later ∧
    (Released before ↔ point = .missing)

/-- What a call answers that found a mapped file. -/
def Answers (first : Writer) (file : MappedFile) (outcome : Outcome Unit) : Request → Prop
  | .update name value => outcome = (first.encoded name value).map fun _ => ()
  | .flush => ∃ host, outcome = file.flush host
  | .stop => False

/-- How a call has come to a point. -/
inductive Explained (first : Writer) (log : List Arrival) (caller : Nat) :
    Request → Progress → Prop where
  | begun {request : Request} : Explained first log caller request .begun
  | holding {request : Request} {file : MappedFile} :
      request ≠ .stop → first.file = some file → Looked log caller request (.holding file) →
        Explained first log caller request (.holding file)
  | missing {request : Request} :
      request ≠ .stop → Looked log caller request .missing →
        Explained first log caller request .missing
  | marked : ⟨caller, .stop, .marked⟩ ∈ log → Explained first log caller .stop .marked
  | released {file : Option MappedFile} :
      ⟨caller, .stop, .released file⟩ ∈ log →
        Explained first log caller .stop (.released file)
  | answered {request : Request} {file : MappedFile} {outcome : Outcome Unit} :
      first.file = some file → Looked log caller request (.holding file) →
      Answers first file outcome request →
        Explained first log caller request (.returned outcome)
  | turnedAway {request : Request} :
      request ≠ .stop → Looked log caller request .missing →
        Explained first log caller request (.returned LifecycleError.stopped.refuse)
  | again :
      Marked log → Explained first log caller .stop (.returned (.ok ()))
  | stopped {file : Option MappedFile} {host : Host} :
      ⟨caller, .stop, .released file⟩ ∈ log →
        Explained first log caller .stop
          (.returned ((file.map (MappedFile.flush host)).getD (.ok ())))

/-- What is true of the calls that are under way. -/
structure Sound (first : Writer) (log : List Arrival) (arena : Arena) : Prop where
  agreed : Agreed first log arena.writer
  callers : ∀ arrival ∈ log, arrival.caller < arena.calls.length
  calls : ∀ caller request point, arena.calls[caller]? = some (request, point) →
    Explained first log caller request point
  once : ∀ one ∈ log, ∀ other ∈ log, one.point = .marked → other.point = .marked →
    one.caller = other.caller
  /-- A stop that has set the phase takes the file as its next step. -/
  next : ∀ one ∈ log, one.point = .marked →
    arena.calls[one.caller]? = some (one.request, .marked) ∨
      ∃ file, ⟨one.caller, one.request, .released file⟩ ∈ log

section Steps

variable {first : Writer} {log : List Arrival} {arena next : Arena} {arrival : Arrival}

theorem Looked.append {caller : Nat} {request : Request} {point : Progress}
    (hlooked : Looked log caller request point) (later : List Arrival) :
    Looked (log ++ later) caller request point := by
  obtain ⟨before, rest, rfl, hreleased⟩ := hlooked
  exact ⟨before, rest ++ later, by simp, hreleased⟩

theorem Explained.append {caller : Nat} {request : Request} {point : Progress}
    (hexplained : Explained first log caller request point) (arrival : Arrival) :
    Explained first (log ++ [arrival]) caller request point := by
  cases hexplained with
  | begun => exact .begun
  | holding hrequest hfile hlooked => exact .holding hrequest hfile (hlooked.append [arrival])
  | missing hrequest hlooked => exact .missing hrequest (hlooked.append [arrival])
  | marked hmem => exact .marked (List.mem_append_left _ hmem)
  | released hmem => exact .released (List.mem_append_left _ hmem)
  | answered hfile hlooked hanswers => exact .answered hfile (hlooked.append [arrival]) hanswers
  | turnedAway hrequest hlooked => exact .turnedAway hrequest (hlooked.append [arrival])
  | again hmarked => exact .again (marked_append.mpr (.inl hmarked))
  | stopped hmem => exact .stopped (List.mem_append_left _ hmem)

theorem Agreed.keep {writer : Writer} (hagreed : Agreed first log writer)
    (hmarked : arrival.point ≠ .marked) (hreleased : ∀ file, arrival.point ≠ .released file) :
    Agreed first (log ++ [arrival]) writer := by
  obtain ⟨hsame, hphase, hfile, htold⟩ := hagreed
  refine ⟨hsame, ?_, ?_, ?_⟩ <;>
    simpa only [marked_append, released_append, hmarked, hreleased, exists_false, or_false]

theorem Looked.released {caller : Nat} {request : Request}
    (hlooked : Looked log caller request .missing) : Released log := by
  obtain ⟨before, later, rfl, hreleased⟩ := hlooked
  obtain ⟨arrival, hmem, hpoint⟩ := hreleased.mpr rfl
  exact ⟨arrival, List.mem_append_left _ hmem, hpoint⟩

theorem Agreed.not_marked {writer : Writer} (hagreed : Agreed first log writer)
    (hphase : writer.phase = .started) : ¬ Marked log := by
  rcases hagreed.phase with ⟨_, hnot⟩ | ⟨hstopped, _⟩
  · exact hnot
  · exact absurd (hphase.symm.trans hstopped) (by decide)

theorem Agreed.stopped_iff {writer : Writer} (hagreed : Agreed first log writer) :
    writer.phase = .stopped ↔ Marked log := by
  rcases hagreed.phase with ⟨hstarted, hnot⟩ | hboth
  · exact iff_of_false (fun hstopped => by rw [hstarted] at hstopped; cases hstopped) hnot
  · exact iff_of_true hboth.1 hboth.2

theorem Agreed.phase_ne_unstarted {writer : Writer} (hagreed : Agreed first log writer) :
    writer.phase ≠ .unstarted := by
  rcases hagreed.phase with ⟨hphase, _⟩ | ⟨hphase, _⟩ <;> rw [hphase] <;> decide

theorem inactiveError_of_released {writer : Writer} (hagreed : Agreed first log writer)
    (hreleased : Released log) : writer.inactiveError = .stopped := by
  rw [Writer.inactiveError, if_pos (hagreed.stopped_iff.mpr (hagreed.marked hreleased))]

theorem agreed_of_passage {request : Request} {point made : Progress} {writer next : Writer}
    {caller : Nat} (hagreed : Agreed first log writer)
    (hexplained : Explained first log caller request point)
    (hpassage : Passage writer request point next made) :
    Agreed first (log ++ [⟨caller, request, made⟩]) next := by
  cases hpassage with
  | mark =>
      refine ⟨?_, .inr ⟨rfl, ?_⟩, ?_, fun _ => ?_⟩
      · rw [hagreed.same]
        rfl
      · exact marked_append.mpr (.inr rfl)
      · have hfile := hagreed.file
        simpa only [Writer.markStopped, released_append, reduceCtorEq, exists_false, or_false]
      · exact marked_append.mpr (.inr rfl)
  | release =>
      have hmarked : Marked log := by
        cases hexplained with
        | marked hmem => exact ⟨_, hmem, rfl⟩
      have hstopped : writer.phase = .stopped := hagreed.stopped_iff.mpr hmarked
      refine ⟨?_, .inr ⟨hstopped, ?_⟩, .inr ⟨rfl, ?_⟩, fun _ => ?_⟩
      · rw [hagreed.same]
        rfl
      · exact marked_append.mpr (.inl hmarked)
      · exact released_append.mpr (.inr ⟨_, rfl⟩)
      · exact marked_append.mpr (.inl hmarked)
  | _ =>
      exact hagreed.keep (fun hmarked => Progress.noConfusion hmarked)
        fun _ hreleased => Progress.noConfusion hreleased

theorem result_storedIn {layout : Layout} {file : MappedFile} {writer : Writer}
    (hrunning : Running first layout file) (hsame : Agreed first log writer) (volume : Volume)
    (name : String) (value : MetricValue) :
    (writer.storedIn file volume name value).map (fun _ => ()) =
      (first.encoded name value).map fun _ => () := by
  have hencoded : writer.storedIn file volume name value =
      first.storedIn file volume name value := by
    rw [hsame.same]
    rfl
  rw [hencoded, ← result_updateMetric hrunning volume]
  cases hstored : first.storedIn file volume name value <;>
  · simp only [Writer.updateMetric, Writer.updated, hrunning.mapped, hstored]
    rfl

theorem explained_of_passage {layout : Layout} {file : MappedFile} {request : Request}
    {point made : Progress} {writer next : Writer} {caller : Nat}
    (hrunning : Running first layout file) (hagreed : Agreed first log writer)
    (hexplained : Explained first log caller request point)
    (hpassage : Passage writer request point next made) :
    Explained first (log ++ [⟨caller, request, made⟩]) caller request made := by
  have hlast : (⟨caller, request, made⟩ : Arrival) ∈ log ++ [⟨caller, request, made⟩] :=
    List.mem_append_right _ (List.mem_singleton.mpr rfl)
  cases hpassage with
  | refuse hphase => exact absurd hphase hagreed.phase_ne_unstarted
  | again hphase => exact .again (marked_append.mpr (.inl (hagreed.stopped_iff.mp hphase)))
  | mark => exact .marked hlast
  | release =>
      cases hexplained with
      | marked => exact .released hlast
  | close =>
      cases hexplained with
      | released hmem => exact .stopped (List.mem_append_left _ hmem)
  | find hrequest hfound =>
      -- Whether the file is found depends on whether a stop took it before, and the log tells that.
      rcases hagreed.file with ⟨hfile, hkept⟩ | ⟨hnone, _⟩
      · refine .holding hrequest (hfile ▸ hfound) ⟨log, [], rfl, ?_⟩
        exact iff_of_false hkept fun hmissing => Progress.noConfusion hmissing
      · rw [hfound] at hnone
        cases hnone
  | miss hrequest hnone =>
      rcases hagreed.file with ⟨hfile, _⟩ | ⟨_, hreleased⟩
      · rw [hnone, hrunning.mapped] at hfile
        cases hfile
      · exact .missing hrequest ⟨log, [], rfl, iff_of_true hreleased rfl⟩
  | store houtcome =>
      cases hexplained with
      | holding _ hfile hlooked =>
          obtain rfl := Option.some.inj (hrunning.mapped.symm.trans hfile)
          refine .answered hfile (hlooked.append _) ?_
          exact houtcome.symm.trans (result_storedIn hrunning hagreed _ _ _)
  | sync hrequest =>
      cases hexplained with
      | holding hstop hfile hlooked =>
          refine .answered hfile (hlooked.append _) ?_
          cases request with
          | update name value => exact absurd rfl (hrequest name value)
          | flush => exact ⟨_, rfl⟩
          | stop => exact absurd rfl hstop
  | turnAway =>
      cases hexplained with
      | missing hrequest hlooked =>
          rw [inactiveError_of_released hagreed hlooked.released]
          exact .turnedAway hrequest (hlooked.append _)

theorem callers_of_step (hsound : Sound first log arena) (hstepped : Stepped arena next arrival) :
    ∀ one ∈ log ++ [arrival], one.caller < next.calls.length := by
  intro one hmem
  rcases List.mem_append.mp hmem with hmem | hmem
  · exact Nat.lt_of_lt_of_le (hsound.callers one hmem) hstepped.length
  · rw [List.mem_singleton.mp hmem]
    exact (List.getElem?_eq_some_iff.mp hstepped.arrived).1

theorem once_of_step (hsound : Sound first log arena) (hstepped : Stepped arena next arrival) :
    ∀ one ∈ log ++ [arrival], ∀ other ∈ log ++ [arrival], one.point = .marked →
      other.point = .marked → one.caller = other.caller := by
  -- The phase is set only where no call has set it yet.
  have hfirst : arrival.point = .marked → ¬ Marked log := by
    intro hpoint
    rcases hstepped.passed with ⟨_, hbegun, _⟩ | ⟨point, _, hpassage⟩
    · rw [hpoint] at hbegun
      cases hbegun
    · rw [hpoint] at hpassage
      exact hsound.agreed.not_marked hpassage.phase_of_marked
  intro one hone other hother honePoint hotherPoint
  rcases List.mem_append.mp hone with honeMem | honeLast <;>
    rcases List.mem_append.mp hother with hotherMem | hotherLast
  · exact hsound.once one honeMem other hotherMem honePoint hotherPoint
  · rw [List.mem_singleton.mp hotherLast] at hotherPoint
    exact absurd ⟨one, honeMem, honePoint⟩ (hfirst hotherPoint)
  · rw [List.mem_singleton.mp honeLast] at honePoint
    exact absurd ⟨other, hotherMem, hotherPoint⟩ (hfirst honePoint)
  · rw [List.mem_singleton.mp honeLast, List.mem_singleton.mp hotherLast]

theorem next_of_step (hsound : Sound first log arena) (hstepped : Stepped arena next arrival) :
    ∀ one ∈ log ++ [arrival], one.point = .marked →
      next.calls[one.caller]? = some (one.request, .marked) ∨
        ∃ file, ⟨one.caller, one.request, .released file⟩ ∈ log ++ [arrival] := by
  obtain ⟨caller, request, made⟩ := arrival
  intro one hone hpoint
  rcases List.mem_append.mp hone with hone | hone
  · rcases hsound.next one hone hpoint with hcall | ⟨file, hreleased⟩
    · by_cases hcaller : one.caller = caller
      · rcases hstepped.passed with ⟨hnew, _, _⟩ | ⟨point, hat, hpassage⟩
        · have hless := hsound.callers one hone
          exact absurd (hcaller.trans hnew) (Nat.ne_of_lt hless)
        · rw [hcaller, hat] at hcall
          obtain ⟨rfl, rfl⟩ := Prod.mk.inj (Option.some.inj hcall)
          obtain rfl : made = .released arena.writer.file := hpassage.released_of_marked
          refine .inr ⟨arena.writer.file, List.mem_append_right _ ?_⟩
          rw [hcaller]
          exact List.mem_singleton.mpr rfl
      · rw [hstepped.others _ hcaller]
        exact .inl hcall
    · exact .inr ⟨file, List.mem_append_left _ hreleased⟩
  · obtain rfl := List.mem_singleton.mp hone
    rw [← hpoint]
    exact .inl hstepped.arrived

theorem sound_of_step {layout : Layout} {file : MappedFile} {act : Act}
    (hrunning : Running first layout file) (hsound : Sound first log arena)
    (hstep : arena.step act = some (next, arrival)) : Sound first (log ++ [arrival]) next := by
  have hstepped := stepped_of_step hstep
  refine ⟨?_, callers_of_step hsound hstepped, ?_, once_of_step hsound hstepped,
    next_of_step hsound hstepped⟩
  · rcases hstepped.passed with ⟨_, hbegun, hwriter⟩ | ⟨point, hat, hpassage⟩
    · rw [hwriter]
      refine hsound.agreed.keep ?_ fun file => ?_ <;>
      · rw [hbegun]
        exact fun hpoint => Progress.noConfusion hpoint
    · exact agreed_of_passage hsound.agreed (hsound.calls _ _ _ hat) hpassage
  · intro caller request point hcall
    -- The call that moved is explained anew, and the others by a longer log.
    by_cases hcaller : caller = arrival.caller
    · rw [hcaller, hstepped.arrived] at hcall
      cases hcall
      rw [hcaller]
      rcases hstepped.passed with ⟨_, hbegun, _⟩ | ⟨point, hat, hpassage⟩
      · rw [hbegun]
        exact .begun
      · exact explained_of_passage hrunning hsound.agreed (hsound.calls _ _ _ hat) hpassage
    · rw [hstepped.others _ hcaller] at hcall
      exact (hsound.calls _ _ _ hcall).append arrival

end Steps

/-- A writer right after a successful start, on which no call is under way. -/
structure JustStarted (arena : Arena) : Prop where
  started : ∃ path format turns host volume generation,
    let reply := (after (.ofPath path format) turns).startOn host volume generation
    reply.result = .ok () ∧ arena.writer = reply.writer ∧ arena.volume = reply.volume
  calls : arena.calls = []

theorem running_of_justStarted {arena : Arena} (hstarted : JustStarted arena) :
    arena.writer.phase = .started ∧ ∃ layout file, Running arena.writer layout file := by
  obtain ⟨⟨path, format, turns, host, volume, generation, hok, hwriter, _⟩, _⟩ := hstarted
  have hphase := phase_of_startOn hok
  have hsame := start_of_startOn hok
  rw [hsame] at hok hwriter hphase
  have hagrees := agrees_after (agrees_ofPath path format) turns
  obtain ⟨layout, file, hstarted⟩ := started_of_start hok
  rw [hwriter]
  exact ⟨hphase, layout, file, running_of_started hagrees.indexed hstarted⟩

theorem sound_of_course {first arena : Arena} {log : List Arrival} (hstarted : JustStarted first)
    (hcourse : Course first log arena) : Sound first.writer log arena := by
  obtain ⟨hphase, layout, file, hrunning⟩ := running_of_justStarted hstarted
  induction hcourse with
  | refl =>
      refine ⟨⟨rfl, .inl ⟨hphase, ?_⟩, .inl ⟨rfl, ?_⟩, ?_⟩, ?_, ?_, ?_, ?_⟩ <;>
        simp [Marked, Released, hstarted.calls]
  | step act _ hstep ih => exact sound_of_step hrunning ih hstep

/-- The course up to the point that a call came to explains how it came there. -/
theorem explained_of_course {first last : Arena} {before later : List Arrival} {caller : Nat}
    {request : Request} {point : Progress} (hstarted : JustStarted first)
    (hcourse : Course first (before ++ ⟨caller, request, point⟩ :: later) last) :
    Explained first.writer (before ++ [⟨caller, request, point⟩]) caller request point := by
  obtain ⟨middle, act, next, hbefore, hstep, _⟩ := cut_course hcourse
  have hsound := sound_of_course hstarted (.step act hbefore hstep)
  exact hsound.calls _ _ _ (stepped_of_step hstep).arrived

end MappedMetrics.Proofs.WriterInterleaving
