import MappedMetrics.Proofs.ValuesAtRest
import MappedMetrics.Proofs.WriterInterleaving

namespace MappedMetrics.Proofs.StopVisibility

open MappedMetrics
open MappedMetrics.Proofs.WriterCalls
open MappedMetrics.Proofs.WriterStates
open MappedMetrics.Proofs.UpdateFrames
open MappedMetrics.Proofs.ValuesAtRest
open MappedMetrics.Proofs.WriterInterleaving

/-- What the stops of a writer say to its updates. -/
structure Visible (first : Writer) (log : List Arrival) : Prop where
  /-- At most one stop sets the phase. -/
  once : ∀ one ∈ log, ∀ other ∈ log, one.point = .marked → other.point = .marked →
    one.caller = other.caller
  /-- A stop returns when it has taken the file, or else because it found the phase set. -/
  returned : ∀ before later caller outcome,
    log = before ++ ⟨caller, .stop, .returned outcome⟩ :: later →
      (∃ file, ⟨caller, .stop, .released file⟩ ∈ before) ∨
        ⟨caller, .stop, .marked⟩ ∉ before ∧ Marked before ∧ outcome = .ok ()
  /-- An update is refused if the file was taken before it looked, and else it answers as if there
  were no stop. -/
  updated : ∀ caller name value outcome,
    ⟨caller, .update name value, .returned outcome⟩ ∈ log →
      Looked log caller (.update name value) .missing ∧
          outcome = LifecycleError.stopped.refuse ∨
        ∃ file, Looked log caller (.update name value) (.holding file) ∧
          outcome = (first.encoded name value).map fun _ => ()
  /-- Once the stop that sets the phase has returned, every update that begins is refused. -/
  afterwards : ∀ before later stop done caller name value outcome,
    log = before ++ ⟨stop, .stop, .returned done⟩ :: later → ⟨stop, .stop, .marked⟩ ∈ before →
      ⟨caller, .update name value, .begun⟩ ∈ later →
      ⟨caller, .update name value, .returned outcome⟩ ∈ later →
        outcome = LifecycleError.stopped.refuse

variable {first last : Arena} {log before later : List Arrival}

theorem returned_of_course {caller : Nat} {outcome : Outcome Unit} (hstarted : JustStarted first)
    (hcourse : Course first (before ++ ⟨caller, .stop, .returned outcome⟩ :: later) last) :
    (∃ file, ⟨caller, .stop, .released file⟩ ∈ before) ∨
      ⟨caller, .stop, .marked⟩ ∉ before ∧ Marked before ∧ outcome = .ok () := by
  obtain ⟨middle, act, next, hbefore, hstep, _⟩ := cut_course hcourse
  have hsound := sound_of_course hstarted hbefore
  have hwhole := sound_of_course hstarted (.step act hbefore hstep)
  have hearlier : ∀ {point : Progress}, point ≠ .returned outcome →
      (⟨caller, .stop, point⟩ : Arrival) ∈ before ++ [⟨caller, .stop, .returned outcome⟩] →
        ⟨caller, .stop, point⟩ ∈ before := by
    intro point hpoint hmem
    rcases List.mem_append.mp hmem with hmem | hlast
    · exact hmem
    · obtain rfl : point = .returned outcome := by simpa using hlast
      exact absurd rfl hpoint
  by_cases hmarked : ⟨caller, .stop, .marked⟩ ∈ before
  · -- The call is not at the point any more where it has just set the phase.
    have hmem := List.mem_append_left [⟨caller, .stop, .returned outcome⟩] hmarked
    rcases hwhole.next _ hmem rfl with hcall | ⟨file, hreleased⟩
    · rw [(stepped_of_step hstep).arrived] at hcall
      cases hcall
    · exact .inl ⟨file, hearlier (fun hpoint => Progress.noConfusion hpoint) hreleased⟩
  · cases hwhole.calls _ _ _ (stepped_of_step hstep).arrived with
    | answered _ _ hanswers => exact hanswers.elim
    | turnedAway hrequest => exact absurd rfl hrequest
    | again hset =>
        rcases marked_append.mp hset with hset | hset
        · exact .inr ⟨hmarked, hset, rfl⟩
        · cases hset
    | stopped hreleased =>
        exact .inl ⟨_, hearlier (fun hpoint => Progress.noConfusion hpoint) hreleased⟩

theorem updated_of_course {caller : Nat} {name : String} {value : MetricValue}
    {outcome : Outcome Unit} (hstarted : JustStarted first) (hcourse : Course first log last)
    (hmem : ⟨caller, .update name value, .returned outcome⟩ ∈ log) :
    Looked log caller (.update name value) .missing ∧ outcome = LifecycleError.stopped.refuse ∨
      ∃ file, Looked log caller (.update name value) (.holding file) ∧
        outcome = (first.writer.encoded name value).map fun _ => () := by
  obtain ⟨before, later, rfl⟩ := List.append_of_mem hmem
  have hexplained := explained_of_course hstarted hcourse
  rw [List.append_cons]
  cases hexplained with
  | answered _ hlooked hanswers => exact .inr ⟨_, hlooked.append later, hanswers⟩
  | turnedAway _ hlooked => exact .inl ⟨hlooked.append later, rfl⟩

theorem released_append_left (hreleased : Released before) : Released (before ++ later) := by
  obtain ⟨arrival, hmem, hpoint⟩ := hreleased
  exact ⟨arrival, List.mem_append_left _ hmem, hpoint⟩

theorem caller_ne_of_begun {caller : Nat} {request : Request} (hstarted : JustStarted first)
    (hcourse : Course first (before ++ ⟨caller, request, .begun⟩ :: later) last) :
    ∀ arrival ∈ before, arrival.caller ≠ caller := by
  obtain ⟨middle, act, next, hbefore, hstep, _⟩ := cut_course hcourse
  intro arrival hmem
  have hless := (sound_of_course hstarted hbefore).callers arrival hmem
  rcases (stepped_of_step hstep).passed with ⟨hnew, _, _⟩ | ⟨_, _, hpassage⟩
  · exact fun hsame => Nat.ne_of_lt hless (hsame.trans hnew)
  · exact absurd hpassage Passage.not_begun

theorem missing_of_begun {caller : Nat} {request : Request} {point : Progress}
    (hstarted : JustStarted first) (hcourse : Course first (before ++ later) last)
    (hreleased : Released before) (hbegun : ⟨caller, request, .begun⟩ ∈ later)
    (hlooked : Looked (before ++ later) caller request point) : point = .missing := by
  obtain ⟨between, rest, rfl⟩ := List.append_of_mem hbegun
  obtain ⟨earlier, after, hlog, hmissing⟩ := hlooked
  refine hmissing.mp ?_
  rw [← List.append_assoc] at hcourse hlog
  rcases List.append_eq_append_iff.mp hlog with ⟨more, rfl, _⟩ | ⟨more, hbefore, htail⟩
  · exact released_append_left (released_append_left hreleased)
  · cases more with
    | nil =>
        rw [List.append_nil] at hbefore
        rw [← hbefore]
        exact released_append_left hreleased
    | cons look more =>
        obtain rfl : ⟨caller, request, point⟩ = look := (List.cons.inj htail).1
        have hmem : (⟨caller, request, point⟩ : Arrival) ∈ before ++ between := by
          rw [hbefore]
          exact List.mem_append_right _ List.mem_cons_self
        exact absurd rfl (caller_ne_of_begun hstarted hcourse _ hmem)

/-- The stop that sets the phase takes effect before it returns. Any other stop may return while
updates still find the file. -/
theorem visible_of_course (hstarted : JustStarted first) (hcourse : Course first log last) :
    Visible first.writer log := by
  refine ⟨(sound_of_course hstarted hcourse).once, ?_, ?_, ?_⟩
  · rintro before later caller outcome rfl
    exact returned_of_course hstarted hcourse
  · intro caller name value outcome hmem
    exact updated_of_course hstarted hcourse hmem
  · rintro before later stop done caller name value outcome rfl hmarked hbegun hmem
    have hreleased : Released before := by
      rcases returned_of_course hstarted hcourse with ⟨file, hreleased⟩ | ⟨hnot, _⟩
      · exact ⟨_, hreleased, file, rfl⟩
      · exact absurd hmarked hnot
    have hlater : ∀ {arrival : Arrival}, arrival ∈ later →
        arrival ∈ ⟨stop, .stop, .returned done⟩ :: later := List.mem_cons_of_mem _
    rcases updated_of_course hstarted hcourse (List.mem_append_right _ (hlater hmem)) with
      ⟨_, houtcome⟩ | ⟨file, hlooked, _⟩
    · exact houtcome
    · have hmissing := missing_of_begun hstarted hcourse hreleased (hlater hbegun) hlooked
      cases hmissing

/-- A writer of a count and a state that was just started. -/
def countAndStateArena : Arena :=
  ⟨countAndStateStarted, countAndStateFile, []⟩

theorem justStarted_countAndState : JustStarted countAndStateArena := by
  refine ⟨⟨"m", .mmv, unstarted, .willing, .empty, 7, ?_⟩, rfl⟩
  simp only [after_unstarted, startOn_willing]
  exact ⟨start_countAndState, started_countAndState.1.symm, started_countAndState.2.symm⟩

/-- A second stop returns, and an update begins and succeeds, before the first stop takes the
file; an update that begins once the first stop has returned is refused. -/
def racing : List Act :=
  [.begin .stop, .advance 0 .willing, .begin .stop, .advance 1 .willing,
    .begin (.update "count" (.i32 4)), .advance 2 .willing, .advance 2 .willing,
    .advance 0 .willing, .advance 0 .willing,
    .begin (.update "count" (.i32 5)), .advance 3 .willing, .advance 3 .willing]

def countFile : MappedFile :=
  ⟨"m", ["m"], 290⟩

def raced : List Arrival :=
  [⟨0, .stop, .begun⟩, ⟨0, .stop, .marked⟩, ⟨1, .stop, .begun⟩, ⟨1, .stop, .returned (.ok ())⟩,
    ⟨2, .update "count" (.i32 4), .begun⟩, ⟨2, .update "count" (.i32 4), .holding countFile⟩,
    ⟨2, .update "count" (.i32 4), .returned (.ok ())⟩,
    ⟨0, .stop, .released (some countFile)⟩, ⟨0, .stop, .returned (.ok ())⟩,
    ⟨3, .update "count" (.i32 5), .begun⟩, ⟨3, .update "count" (.i32 5), .missing⟩,
    ⟨3, .update "count" (.i32 5), .returned LifecycleError.stopped.refuse⟩]

theorem course_raced : ∃ last, Course countAndStateArena raced last := by
  have hlog : (countAndStateArena.steps racing).map Prod.snd = some raced := rfl
  obtain ⟨⟨last, log⟩, hsteps, rfl⟩ := Option.map_eq_some_iff.mp hlog
  exact ⟨last, course_of_steps hsteps⟩

theorem visible_raced : JustStarted countAndStateArena ∧
    ∃ last, Course countAndStateArena raced last ∧ Visible countAndStateStarted raced := by
  obtain ⟨last, hcourse⟩ := course_raced
  exact ⟨justStarted_countAndState, last, hcourse,
    visible_of_course justStarted_countAndState hcourse⟩

/-- A stop that returned does not always stop the updates that begin after it: one that finds the
phase set returns before another stop has taken the mapped file, and an update then succeeds. -/
theorem not_refused_after_return : ¬ ∀ first log last, JustStarted first → Course first log last →
    ∀ before later stop caller name value outcome,
      log = before ++ ⟨stop, .stop, .returned (.ok ())⟩ :: later →
      ⟨caller, .update name value, .begun⟩ ∈ later →
      ⟨caller, .update name value, .returned outcome⟩ ∈ later →
        outcome = LifecycleError.stopped.refuse := by
  intro hall
  obtain ⟨last, hcourse⟩ := course_raced
  have hrefused := hall _ _ _ justStarted_countAndState hcourse (raced.take 3) (raced.drop 4) 1 2
    "count" (.i32 4) (.ok ()) rfl (by simp [raced]) (by simp [raced])
  cases hrefused

end MappedMetrics.Proofs.StopVisibility
