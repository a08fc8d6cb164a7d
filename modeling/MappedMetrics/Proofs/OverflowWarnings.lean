import Mathlib.Data.List.Chain
import MappedMetrics.Bridge.Overflow

/-!
Warnings of dropped signals among threads. Any number of drops may be recorded at once, each in its
own thread; a course is any order of their steps, with the clock going on between them. A warning
is the exchange that moved the last warning to the time of the drop.
-/

namespace MappedMetrics.Proofs.OverflowWarnings

open MappedMetrics
open MappedMetrics.Overflow (neverWarned isDue)

/-- How far the record of a drop has come. -/
inductive Point where
  | begun
  | counted (number : UInt64)
  | timed (number now : UInt64)
  /-- The record has seen a last warning by which one is due. -/
  | looked (number now seen : UInt64)
  | warned (number now : UInt64)
  /-- No warning was due, or another one came in between. -/
  | quiet (number : UInt64)
deriving DecidableEq

namespace Point

/-- The steps that are left at most. -/
def left : Point → Nat
  | begun => 4
  | counted _ => 3
  | timed .. => 2
  | looked .. => 1
  | warned .. | quiet _ => 0

/-- Whether the last warning was not yet looked at. -/
def isEarly (point : Point) : Bool :=
  1 < point.left

def isOver (point : Point) : Bool :=
  point.left = 0

/-- The number of the drop, once it has been counted. -/
def number? : Point → Option UInt64
  | counted number => some number
  | _ => none

/-- The stamp of the warning, where there was one. -/
def warning? : Point → Option UInt64
  | warned _ now => some now
  | _ => none

/-- What is logged when the point is reached. -/
def events : Point → List Event
  | warned number _ => [.droppedSignals number]
  | _ => []

end Point

/-- A record came to a point when the clock stood at a number of microseconds. -/
structure Arrival where
  caller : Nat
  thread : Nat
  clock : Nat
  point : Point
deriving DecidableEq

/-- One step of a record, absent once it is over. -/
def advance (interval : Duration) (clock : Nat) (overflow : Overflow) :
    Point → Option (Overflow × Point)
  | .begun => some (overflow.count, .counted overflow.count.dropped)
  | .counted number => some (overflow, .timed number (Overflow.stamp clock))
  | .timed number now =>
      if isDue interval overflow.lastWarning now then
        some (overflow, .looked number now overflow.lastWarning)
      else some (overflow, .quiet number)
  | .looked number now seen =>
      match overflow.exchange seen now with
      | (warned, true) => some (warned, .warned number now)
      | (same, false) => some (same, .quiet number)
  | .warned .. | .quiet _ => none

/-- The overflow of a bridge, the clock, and all records of drops, each with its thread and the
point that it has come to. -/
structure Scene where
  overflow : Overflow
  clock : Nat
  calls : List (Nat × Point)
deriving DecidableEq

inductive Act where
  | tick (microseconds : Nat)
  | begin (thread : Nat)
  | advance (caller : Nat)

namespace Scene

/-- A bridge that has dropped nothing yet. -/
def initial (clock : Nat) : Scene :=
  ⟨.none, clock, []⟩

/-- A step of the scene, with the point that a record came to by it. A thread records one drop
after the other, and the clock stays below the mark of a queue that never warned. -/
def step (interval : Duration) (scene : Scene) : Act → Option (Scene × List Arrival)
  | .tick microseconds =>
      if scene.clock + microseconds < neverWarned.toNat then
        some ({ scene with clock := scene.clock + microseconds }, [])
      else none
  | .begin thread =>
      if ∀ call ∈ scene.calls, call.1 = thread → call.2.isOver then
        some ({ scene with calls := scene.calls ++ [(thread, .begun)] },
          [⟨scene.calls.length, thread, scene.clock, .begun⟩])
      else none
  | .advance caller =>
      match scene.calls[caller]? with
      | none => none
      | some (thread, point) =>
          (advance interval scene.clock scene.overflow point).map fun (overflow, point) =>
            ({ scene with overflow, calls := scene.calls.set caller (thread, point) },
              [⟨caller, thread, scene.clock, point⟩])

def steps (interval : Duration) (scene : Scene) : List Act → Option (Scene × List Arrival)
  | [] => some (scene, [])
  | act :: acts =>
      match scene.step interval act with
      | none => none
      | some (next, made) =>
          (next.steps interval acts).map fun (last, later) => (last, made ++ later)

end Scene

/-- The scenes that acts lead to, with what records came to on the way. -/
inductive Course (interval : Duration) (first : Scene) : List Arrival → Scene → Prop where
  | refl : Course interval first [] first
  | step {log made : List Arrival} {scene next : Scene} (act : Act) :
      Course interval first log scene → scene.step interval act = some (next, made) →
        Course interval first (log ++ made) next

section Courses

variable {interval : Duration} {first middle last scene next : Scene}
  {log later made : List Arrival}

theorem Course.trans (hfirst : Course interval first log middle)
    (hlast : Course interval middle later last) : Course interval first (log ++ later) last := by
  induction hlast with
  | refl => rwa [List.append_nil]
  | step act _ hstep ih =>
      rw [← List.append_assoc]
      exact .step act ih hstep

theorem course_of_steps {acts : List Act} (hsteps : scene.steps interval acts = some (last, log)) :
    Course interval scene log last := by
  induction acts generalizing scene log with
  | nil =>
      cases hsteps
      exact .refl
  | cons act acts ih =>
      simp only [Scene.steps] at hsteps
      split at hsteps
      · cases hsteps
      · rename_i next made hstep
        obtain ⟨⟨final, later⟩, hlater, hlast⟩ := Option.map_eq_some_iff.mp hsteps
        cases hlast
        exact Course.trans (.step act .refl hstep) (ih hlater)

end Courses

section Alone

variable {interval : Duration} {scene : Scene}

theorem step_begin {thread : Nat}
    (hfree : ∀ call ∈ scene.calls, call.1 = thread → call.2.isOver) :
    scene.step interval (.begin thread) =
      some ({ scene with calls := scene.calls ++ [(thread, .begun)] },
        [⟨scene.calls.length, thread, scene.clock, .begun⟩]) :=
  if_pos hfree

theorem step_last (overflow : Overflow) (clock : Nat) (calls : List (Nat × Point)) (thread : Nat)
    (point : Point) :
    (Scene.mk overflow clock (calls ++ [(thread, point)])).step interval (.advance calls.length) =
      (advance interval clock overflow point).map fun (overflow, point) =>
        (⟨overflow, clock, calls ++ [(thread, point)]⟩,
          [⟨calls.length, thread, clock, point⟩]) := by
  have hlast : (calls ++ [(thread, point)])[calls.length]? = some (thread, point) := by simp
  have hset : ∀ made : Point, (calls ++ [(thread, point)]).set calls.length (thread, made) =
      calls ++ [(thread, made)] := by simp
  simp only [Scene.step, hlast, hset]

/-- A record that no other comes between does what the overflow does with a drop. -/
theorem steps_alone (interval : Duration) (scene : Scene) {thread : Nat}
    (hfree : ∀ call ∈ scene.calls, call.1 = thread → call.2.isOver) :
    ∃ acts point, (scene.steps interval acts).map Prod.fst =
      some ⟨(scene.overflow.record interval scene.clock).1, scene.clock,
        scene.calls ++ [(thread, point)]⟩ ∧
      point.isOver ∧ point.events = (scene.overflow.record interval scene.clock).2 := by
  let next : Act := .advance scene.calls.length
  have hseen : scene.overflow.count.lastWarning = scene.overflow.lastWarning := rfl
  cases hdue : isDue interval scene.overflow.lastWarning (Overflow.stamp scene.clock) with
  | true =>
      refine ⟨[.begin thread, next, next, next, next],
        .warned scene.overflow.count.dropped (Overflow.stamp scene.clock), ?_, rfl, ?_⟩
      · simp only [Scene.steps, step_begin hfree, step_last, advance, next, Overflow.record, hseen,
          hdue, if_true, Overflow.exchange, Option.map_some]
      · simp only [Point.events, Overflow.record, hseen, hdue, if_true, Overflow.exchange]
  | false =>
      refine ⟨[.begin thread, next, next, next], .quiet scene.overflow.count.dropped, ?_, rfl, ?_⟩
      · simp only [Scene.steps, step_begin hfree, step_last, advance, next, Overflow.record, hseen,
          hdue, Bool.false_eq_true, if_false, Option.map_some]
      · simp only [Point.events, Overflow.record, hseen, hdue, Bool.false_eq_true, if_false]

end Alone

section Turns

variable {interval : Duration} {scene next : Scene} {act : Act} {made : List Arrival}
  {overflow changed : Overflow} {clock : Nat} {point reached : Point}

/-- Everything that one step of a record can do, and what it depends on. -/
inductive Passage (interval : Duration) (clock : Nat) (overflow : Overflow) :
    Point → Overflow → Point → Prop where
  | count : Passage interval clock overflow .begun overflow.count (.counted (overflow.dropped + 1))
  | read {number : UInt64} : Passage interval clock overflow (.counted number) overflow
      (.timed number (Overflow.stamp clock))
  | look {number now : UInt64} : isDue interval overflow.lastWarning now = true →
      Passage interval clock overflow (.timed number now) overflow
        (.looked number now overflow.lastWarning)
  | pass {number now : UInt64} : isDue interval overflow.lastWarning now = false →
      Passage interval clock overflow (.timed number now) overflow (.quiet number)
  | warn {number now : UInt64} : Passage interval clock overflow
      (.looked number now overflow.lastWarning) { overflow with lastWarning := now }
      (.warned number now)
  | lose {number now seen : UInt64} : overflow.lastWarning ≠ seen →
      Passage interval clock overflow (.looked number now seen) overflow (.quiet number)

theorem passage_of_advance
    (hmade : advance interval clock overflow point = some (changed, reached)) :
    Passage interval clock overflow point changed reached := by
  cases point with
  | begun =>
      cases hmade
      exact .count
  | counted number =>
      cases hmade
      exact .read
  | timed number now =>
      simp only [advance] at hmade
      split at hmade <;> cases hmade
      · exact .look ‹_›
      · exact .pass (Bool.eq_false_iff.mpr ‹_›)
  | looked number now seen =>
      simp only [advance, Overflow.exchange] at hmade
      by_cases hsame : overflow.lastWarning = seen
      · rw [if_pos hsame] at hmade
        cases hmade
        subst hsame
        exact .warn
      · rw [if_neg hsame] at hmade
        cases hmade
        exact .lose hsame
  | _ => cases hmade

/-- Everything that one step of a scene can do. -/
inductive Turn (interval : Duration) (scene : Scene) : List Arrival → Scene → Prop where
  | tick {microseconds : Nat} : scene.clock + microseconds < neverWarned.toNat →
      Turn interval scene [] { scene with clock := scene.clock + microseconds }
  | begin {thread : Nat} : (∀ call ∈ scene.calls, call.1 = thread → call.2.isOver) →
      Turn interval scene [⟨scene.calls.length, thread, scene.clock, .begun⟩]
        { scene with calls := scene.calls ++ [(thread, .begun)] }
  | advance {caller thread : Nat} {overflow : Overflow} {point reached : Point} :
      scene.calls[caller]? = some (thread, point) →
        Passage interval scene.clock scene.overflow point overflow reached →
          Turn interval scene [⟨caller, thread, scene.clock, reached⟩]
            { scene with overflow, calls := scene.calls.set caller (thread, reached) }

theorem turn_of_step (hstep : scene.step interval act = some (next, made)) :
    Turn interval scene made next := by
  cases act with
  | tick microseconds =>
      simp only [Scene.step] at hstep
      split at hstep <;> cases hstep
      exact .tick ‹_›
  | begin thread =>
      simp only [Scene.step] at hstep
      split at hstep <;> cases hstep
      exact .begin ‹_›
  | advance caller =>
      simp only [Scene.step] at hstep
      split at hstep
      · cases hstep
      · rename_i hcall
        obtain ⟨⟨overflow, reached⟩, hmade, hnext⟩ := Option.map_eq_some_iff.mp hstep
        cases hnext
        exact .advance hcall (passage_of_advance hmade)

theorem getElem?_set_cases {calls : List (Nat × Point)} {caller i : Nat} {call made : Nat × Point}
    {thread : Nat} (hget : calls[caller]? = some (thread, point))
    (hcall : (calls.set caller made)[i]? = some call) :
    i ≠ caller ∧ calls[i]? = some call ∨ i = caller ∧ call = made := by
  by_cases hsame : i = caller
  · subst hsame
    rw [List.getElem?_set_self (List.getElem?_eq_some_iff.mp hget).1] at hcall
    exact .inr ⟨rfl, (Option.some_inj.mp hcall).symm⟩
  · rw [List.getElem?_set_ne (Ne.symm hsame)] at hcall
    exact .inl ⟨hsame, hcall⟩

theorem getElem?_concat_cases {calls : List (Nat × Point)} {i : Nat} {call made : Nat × Point}
    (hcall : (calls ++ [made])[i]? = some call) :
    calls[i]? = some call ∨ i = calls.length ∧ call = made := by
  rcases Nat.lt_trichotomy i calls.length with hold | rfl | hbeyond
  · exact .inl (by rwa [List.getElem?_append_left hold] at hcall)
  · rw [List.getElem?_concat_length] at hcall
    exact .inr ⟨rfl, (Option.some_inj.mp hcall).symm⟩
  · rw [List.getElem?_eq_none (by simp; omega)] at hcall
    cases hcall

end Turns

section Stamps

variable {interval : Duration} {scene next : Scene} {log made : List Arrival} {arrival : Arrival}
  {last now : UInt64} {overflow : Overflow} {point : Point}

/-- The stamps of the warnings of a log. -/
def warnings (log : List Arrival) : List UInt64 :=
  log.filterMap fun arrival => arrival.point.warning?

/-- A stamp comes at least an interval after another. Where the interval is less than a microsecond
it may also be the earlier one. -/
def Spaced (interval : Duration) (earlier later : UInt64) : Prop :=
  interval.microseconds ≤ later.toNat - earlier.toNat

theorem stamp_ne (microseconds : Nat) (h : microseconds < neverWarned.toNat) :
    Overflow.stamp microseconds ≠ neverWarned ∧
      (Overflow.stamp microseconds).toNat = microseconds := by
  have hmark : neverWarned.toNat = 2 ^ 64 - 1 := rfl
  have hstamp : (Overflow.stamp microseconds).toNat = microseconds := by
    rw [Overflow.stamp, if_pos (by omega), UInt64.toNat_ofNat', Nat.mod_eq_of_lt (by omega)]
  refine ⟨fun heq => ?_, hstamp⟩
  rw [heq] at hstamp
  omega

theorem toNat_lt_of_ne (hnow : now ≠ neverWarned) : now.toNat < neverWarned.toNat := by
  have hmark : neverWarned.toNat = 2 ^ 64 - 1 := rfl
  have hlt := now.toNat_lt
  have hne : now.toNat ≠ neverWarned.toNat := fun heq => hnow (UInt64.toNat_inj.mp heq)
  omega

theorem isDue_iff (hnow : now ≠ neverWarned) :
    isDue interval last now = true ↔ last = neverWarned ∨ Spaced interval last now := by
  have hmark : neverWarned.toNat = 2 ^ 64 - 1 := rfl
  have hlt := toNat_lt_of_ne hnow
  have hpassed : (if last ≤ now then now - last else 0).toNat = now.toNat - last.toNat := by
    split
    · exact UInt64.toNat_sub_of_le _ _ ‹_›
    · rename_i hgt
      have hgt' := UInt64.lt_iff_toNat_lt.mp (UInt64.not_le.mp hgt)
      rw [UInt64.toNat_zero]
      omega
  rw [isDue, Bool.or_eq_true, beq_iff_eq, decide_eq_true_eq, UInt64.le_iff_toNat_le, hpassed,
    Spaced, Overflow.intervalStamp]
  split
  · rw [UInt64.toNat_ofNat', Nat.mod_eq_of_lt ‹_›]
  · have hlong : ¬ neverWarned.toNat ≤ now.toNat - last.toNat := by omega
    have hlong' : ¬ interval.microseconds ≤ now.toNat - last.toNat := by omega
    simp only [hlong, hlong']

/-- What a record knows at a point, given the stamps of the warnings so far. -/
def Credible (interval : Duration) (stamps : List UInt64) : Point → Prop
  | .begun | .counted _ => True
  | .timed _ now => now ≠ neverWarned
  | .looked _ now seen =>
      now ≠ neverWarned ∧ isDue interval seen now = true ∧ (seen ≠ neverWarned → stamps ≠ [])
  | .warned .. | .quiet _ => stamps ≠ []

theorem Credible.append {stamps : List UInt64} (h : Credible interval stamps point)
    (later : List UInt64) : Credible interval (stamps ++ later) point := by
  cases point with
  | begun | counted => trivial
  | timed => exact h
  | looked number now seen =>
      exact ⟨h.1, h.2.1, fun hseen => List.append_ne_nil_of_left_ne_nil (h.2.2 hseen) _⟩
  | warned | quiet => exact List.append_ne_nil_of_left_ne_nil h _

/-- What every course keeps of the last warning and of the records under way. -/
structure Stamped (interval : Duration) (log : List Arrival) (scene : Scene) : Prop where
  clock_lt : scene.clock < neverWarned.toNat
  last : scene.overflow.lastWarning = (warnings log).getLast?.getD neverWarned
  marked : ∀ stamp ∈ warnings log, stamp ≠ neverWarned
  spaced : (warnings log).IsChain (Spaced interval)
  credible : ∀ call ∈ scene.calls, Credible interval (warnings log) call.2

theorem warnings_of_none (h : arrival.point.warning? = none) :
    warnings (log ++ [arrival]) = warnings log := by
  simp [warnings, h]

theorem warnings_of_some {stamp : UInt64} (h : arrival.point.warning? = some stamp) :
    warnings (log ++ [arrival]) = warnings log ++ [stamp] := by
  simp [warnings, h]

theorem Stamped.ne_nil (hstamped : Stamped interval log scene)
    (hlast : scene.overflow.lastWarning ≠ neverWarned) : warnings log ≠ [] := by
  intro hnil
  refine hlast ?_
  rw [hstamped.last, hnil]
  rfl

theorem Stamped.goOn (hstamped : Stamped interval log scene) {caller thread : Nat}
    (hlast : overflow.lastWarning = scene.overflow.lastWarning) (hnone : point.warning? = none)
    (hcredible : Credible interval (warnings log) point) :
    Stamped interval (log ++ [⟨caller, thread, scene.clock, point⟩])
      { scene with overflow, calls := scene.calls.set caller (thread, point) } := by
  have hwarnings : warnings (log ++ [⟨caller, thread, scene.clock, point⟩]) = warnings log :=
    warnings_of_none hnone
  refine
    { clock_lt := hstamped.clock_lt
      last := by rw [hwarnings]; exact hlast.trans hstamped.last
      marked := by rw [hwarnings]; exact hstamped.marked
      spaced := by rw [hwarnings]; exact hstamped.spaced
      credible := fun call hcall => ?_ }
  rw [hwarnings]
  rcases List.mem_or_eq_of_mem_set hcall with hold | rfl
  · exact hstamped.credible call hold
  · exact hcredible

/-- A warning comes when it is due by the one before it, since no other came after the look. -/
theorem Stamped.warn {caller thread : Nat} {number : UInt64}
    (hstamped : Stamped interval log scene)
    (hcredible : Credible interval (warnings log)
      (.looked number now scene.overflow.lastWarning)) :
    Stamped interval (log ++ [⟨caller, thread, scene.clock, .warned number now⟩])
      { scene with
        overflow := { scene.overflow with lastWarning := now }
        calls := scene.calls.set caller (thread, .warned number now) } := by
  obtain ⟨hnow, hdue, -⟩ := hcredible
  have hwarnings : warnings (log ++ [⟨caller, thread, scene.clock, .warned number now⟩]) =
      warnings log ++ [now] := warnings_of_some rfl
  refine
    { clock_lt := hstamped.clock_lt
      last := by rw [hwarnings, List.getLast?_concat, Option.getD_some]
      marked := fun stamp hmem => ?_
      spaced := ?_
      credible := fun call hcall => ?_ }
  · rw [hwarnings] at hmem
    rcases List.mem_append.mp hmem with hold | hnew
    · exact hstamped.marked stamp hold
    · rwa [List.mem_singleton.mp hnew]
  · rw [hwarnings, List.isChain_append]
    refine ⟨hstamped.spaced, List.isChain_singleton _, fun previous hprevious later hlater => ?_⟩
    obtain rfl : now = later := Option.some_inj.mp hlater
    have hlast : scene.overflow.lastWarning = previous := by
      rw [hstamped.last, hprevious, Option.getD_some]
    rw [hlast] at hdue
    exact ((isDue_iff hnow).mp hdue).resolve_left
      (hstamped.marked previous (List.mem_of_getLast? hprevious))
  · rw [hwarnings]
    rcases List.mem_or_eq_of_mem_set hcall with hold | rfl
    · exact (hstamped.credible call hold).append [now]
    · exact List.append_ne_nil_of_right_ne_nil _ (List.cons_ne_nil _ _)

theorem stamped_of_turn (hstamped : Stamped interval log scene)
    (hturn : Turn interval scene made next) :
    Stamped interval (log ++ made) next := by
  cases hturn with
  | tick hclock =>
      rw [List.append_nil]
      exact { hstamped with clock_lt := hclock }
  | @begin thread hfree =>
      have hwarnings : warnings (log ++ [⟨scene.calls.length, thread, scene.clock, .begun⟩]) =
          warnings log := warnings_of_none rfl
      refine
        { clock_lt := hstamped.clock_lt
          last := by rw [hwarnings]; exact hstamped.last
          marked := by rw [hwarnings]; exact hstamped.marked
          spaced := by rw [hwarnings]; exact hstamped.spaced
          credible := fun call hcall => ?_ }
      rw [hwarnings]
      rcases List.mem_append.mp hcall with hold | hnew
      · exact hstamped.credible call hold
      · rw [List.mem_singleton.mp hnew]
        trivial
  | advance hcall hpassage =>
      have hcredible := hstamped.credible _ (List.mem_of_getElem? hcall)
      cases hpassage with
      | count => exact hstamped.goOn rfl rfl trivial
      | read => exact hstamped.goOn rfl rfl (stamp_ne _ hstamped.clock_lt).1
      | look hdue => exact hstamped.goOn rfl rfl ⟨hcredible, hdue, hstamped.ne_nil⟩
      | pass hearly =>
          -- A record that finds no warning due has seen one.
          refine hstamped.goOn rfl rfl (hstamped.ne_nil fun hnever => ?_)
          rw [(isDue_iff hcredible).mpr (.inl hnever)] at hearly
          cases hearly
      | warn => exact hstamped.warn hcredible
      | @lose _ _ seen hother =>
          -- If it has seen none, then the one that came in between is there.
          refine hstamped.goOn rfl rfl ?_
          by_cases hseen : seen = neverWarned
          · exact hstamped.ne_nil fun hnever => hother (hnever.trans hseen.symm)
          · exact hcredible.2.2 hseen

end Stamps

section Numbers

variable {interval : Duration} {scene next : Scene} {log made : List Arrival}
  {overflow changed : Overflow} {clock : Nat} {point reached : Point}

/-- The numbers that drops were given, in the order in which they were counted. -/
def numbers (log : List Arrival) : List UInt64 :=
  log.filterMap fun arrival => arrival.point.number?

/-- The numbers from one to a count, as words. -/
def wordsTo (count : Nat) : List UInt64 :=
  (List.range' 1 count).map UInt64.ofNat

theorem wordsTo_succ (count : Nat) :
    wordsTo (count + 1) = wordsTo count ++ [UInt64.ofNat count + 1] := by
  rw [wordsTo, List.range'_1_concat, List.map_append, List.map_singleton, Nat.add_comm 1,
    UInt64.ofNat_add]
  rfl

/-- Whether a record was given a number on an arrival. -/
def counts (caller : Nat) (arrival : Arrival) : Bool :=
  arrival.caller = caller ∧ arrival.point.number?.isSome

/-- What every course keeps of the count. -/
structure Numbered (log : List Arrival) (scene : Scene) : Prop where
  dropped : scene.overflow.dropped = UInt64.ofNat (numbers log).length
  numbers : numbers log = wordsTo (numbers log).length
  once : ∀ caller call, scene.calls[caller]? = some call →
    log.countP (counts caller) = if call.2 = .begun then 0 else 1
  known : ∀ arrival ∈ log, arrival.caller < scene.calls.length

theorem Passage.numbered (hpassage : Passage interval clock overflow point changed reached) :
    point = .begun ∧ reached = .counted (overflow.dropped + 1) ∧
        changed.dropped = overflow.dropped + 1 ∨
      point ≠ .begun ∧ reached ≠ .begun ∧ reached.number? = none ∧
        changed.dropped = overflow.dropped := by
  cases hpassage with
  | count => exact .inl ⟨rfl, rfl, rfl⟩
  | _ => exact .inr ⟨Point.noConfusion, Point.noConfusion, rfl, rfl⟩

theorem countP_arrival (log : List Arrival) (caller : Nat) (arrival : Arrival) :
    (log ++ [arrival]).countP (counts caller) =
      log.countP (counts caller) + if counts caller arrival then 1 else 0 := by
  rw [List.countP_append, List.countP_singleton]

theorem numbers_of_none {arrival : Arrival} (h : arrival.point.number? = none) :
    numbers (log ++ [arrival]) = numbers log := by
  simp [numbers, h]

theorem numbers_of_some {arrival : Arrival} {number : UInt64}
    (h : arrival.point.number? = some number) :
    numbers (log ++ [arrival]) = numbers log ++ [number] := by
  simp [numbers, h]

theorem numbered_of_begin (hnumbered : Numbered log scene) (thread : Nat) :
    Numbered (log ++ [⟨scene.calls.length, thread, scene.clock, .begun⟩])
      { scene with calls := scene.calls ++ [(thread, .begun)] } := by
  have hnumbers : numbers (log ++ [⟨scene.calls.length, thread, scene.clock, .begun⟩]) =
      numbers log := numbers_of_none rfl
  refine ⟨?_, ?_, fun caller call hcall => ?_, fun arrival harrival => ?_⟩
  · rw [hnumbers]
    exact hnumbered.dropped
  · rw [hnumbers]
    exact hnumbered.numbers
  · have hnone : counts caller ⟨scene.calls.length, thread, scene.clock, .begun⟩ = false := by
      simp [counts, Point.number?]
    rw [countP_arrival, hnone, if_neg Bool.false_ne_true, Nat.add_zero]
    obtain hold | ⟨rfl, rfl⟩ := getElem?_concat_cases hcall
    · exact hnumbered.once caller call hold
    · refine List.countP_eq_zero.mpr fun arrival harrival hcounts => ?_
      have hknown := hnumbered.known arrival harrival
      simp only [counts, decide_eq_true_eq] at hcounts
      omega
  · rw [List.length_append, List.length_singleton]
    rcases List.mem_append.mp harrival with hold | hnew
    · exact Nat.lt_succ_of_lt (hnumbered.known arrival hold)
    · rw [List.mem_singleton.mp hnew]
      exact Nat.lt_succ_self _

theorem numbers_of_passage (hdropped : overflow.dropped = UInt64.ofNat (numbers log).length)
    (hnumbers : numbers log = wordsTo (numbers log).length) (caller thread : Nat)
    (hpassage : Passage interval clock overflow point changed reached) :
    changed.dropped =
        UInt64.ofNat (numbers (log ++ [⟨caller, thread, clock, reached⟩])).length ∧
      numbers (log ++ [⟨caller, thread, clock, reached⟩]) =
        wordsTo (numbers (log ++ [⟨caller, thread, clock, reached⟩])).length := by
  obtain ⟨-, rfl, hchanged⟩ | ⟨-, -, hnone, hchanged⟩ := hpassage.numbered
  · have happend : numbers (log ++ [⟨caller, thread, clock, .counted (overflow.dropped + 1)⟩]) =
        numbers log ++ [overflow.dropped + 1] := numbers_of_some rfl
    have hsucc : UInt64.ofNat ((numbers log).length + 1) = overflow.dropped + 1 := by
      rw [hdropped, UInt64.ofNat_add]
      rfl
    rw [happend, List.length_append, List.length_singleton, wordsTo_succ, ← hnumbers, ← hdropped]
    exact ⟨hchanged.trans hsucc.symm, rfl⟩
  · rw [numbers_of_none hnone, hchanged]
    exact ⟨hdropped, hnumbers⟩

theorem numbered_of_advance (hnumbered : Numbered log scene) {caller thread : Nat}
    (hcall : scene.calls[caller]? = some (thread, point))
    (hpassage : Passage interval scene.clock scene.overflow point overflow reached) :
    Numbered (log ++ [⟨caller, thread, scene.clock, reached⟩])
      { scene with overflow, calls := scene.calls.set caller (thread, reached) } := by
  have hbound : caller < scene.calls.length := (List.getElem?_eq_some_iff.mp hcall).1
  have honce := hnumbered.once caller _ hcall
  obtain ⟨hdropped, hnumbers⟩ := numbers_of_passage hnumbered.dropped hnumbered.numbers caller
    thread hpassage
  refine ⟨hdropped, hnumbers, fun other call hother => ?_, fun arrival harrival => ?_⟩
  · rw [countP_arrival]
    obtain ⟨hne, hold⟩ | ⟨rfl, rfl⟩ := getElem?_set_cases hcall hother
    · have hnone : counts other ⟨caller, thread, scene.clock, reached⟩ = false := by
        simp [counts, Ne.symm hne]
      rw [hnone, if_neg Bool.false_ne_true, Nat.add_zero]
      exact hnumbered.once other call hold
    · obtain ⟨rfl, rfl, -⟩ | ⟨hpoint, hreached, hnone, -⟩ := hpassage.numbered
      · rw [honce]
        simp [counts, Point.number?]
      · rw [honce, if_neg hpoint, if_neg hreached]
        simp [counts, hnone]
  · rw [List.length_set]
    rcases List.mem_append.mp harrival with hold | hnew
    · exact hnumbered.known arrival hold
    · rw [List.mem_singleton.mp hnew]
      exact hbound

theorem numbered_of_turn (hnumbered : Numbered log scene) (hturn : Turn interval scene made next) :
    Numbered (log ++ made) next := by
  cases hturn with
  | tick =>
      rw [List.append_nil]
      exact ⟨hnumbered.dropped, hnumbered.numbers, hnumbered.once, hnumbered.known⟩
  | begin => exact numbered_of_begin hnumbered _
  | advance hcall hpassage => exact numbered_of_advance hnumbered hcall hpassage

end Numbers

section Threads

variable {interval : Duration} {first scene next last : Scene} {log made later : List Arrival}
  {overflow changed : Overflow} {clock caller thread : Nat} {point reached : Point}

/-- A thread has at most one record under way. -/
def Sequential (scene : Scene) : Prop :=
  ∀ (i j : Nat) (one other : Nat × Point), scene.calls[i]? = some one →
    scene.calls[j]? = some other → one.1 = other.1 → one.2.isOver = false →
      other.2.isOver = false → i = j

theorem Passage.not_over (hpassage : Passage interval clock overflow point changed reached) :
    point.isOver = false := by
  cases hpassage <;> rfl

theorem sequential_of_turn (hsequential : Sequential scene)
    (hturn : Turn interval scene made next) :
    Sequential next := by
  cases hturn with
  | tick => exact hsequential
  | begin hfree =>
      intro i j one other hone hother hthread hunder hunder'
      have hover := fun {k call} (hcall : scene.calls[k]? = some call) =>
        hfree call (List.mem_of_getElem? hcall)
      obtain hold | ⟨rfl, rfl⟩ := getElem?_concat_cases hone <;>
        obtain hold' | ⟨rfl, rfl⟩ := getElem?_concat_cases hother
      · exact hsequential i j one other hold hold' hthread hunder hunder'
      · rw [hover hold hthread] at hunder
        cases hunder
      · rw [hover hold' hthread.symm] at hunder'
        cases hunder'
      · rfl
  | advance hcall hpassage =>
      intro i j one other hone hother hthread hunder hunder'
      have hsource := hpassage.not_over
      obtain ⟨-, hold⟩ | ⟨rfl, rfl⟩ := getElem?_set_cases hcall hone <;>
        obtain ⟨-, hold'⟩ | ⟨rfl, rfl⟩ := getElem?_set_cases hcall hother
      · exact hsequential i j one other hold hold' hthread hunder hunder'
      · exact hsequential i _ one _ hold hcall hthread hunder hsource
      · exact hsequential _ j _ other hcall hold' hthread hsource hunder'
      · rfl

theorem threads_of_turn (hturn : Turn interval scene made next)
    (hthreads : ∀ call ∈ next.calls, call.1 = thread) : ∀ call ∈ scene.calls, call.1 = thread := by
  cases hturn with
  | tick => exact hthreads
  | begin => exact fun call hcall => hthreads call (List.mem_append_left _ hcall)
  | @advance other _ _ point reached hget =>
      intro call hcall
      obtain ⟨i, hi⟩ := List.mem_iff_getElem?.mp hcall
      by_cases hsame : i = other
      · subst hsame
        obtain rfl := Option.some_inj.mp (hi.symm.trans hget)
        exact hthreads (_, reached) (List.mem_set (List.getElem?_eq_some_iff.mp hget).1 _)
      · exact hthreads call (List.mem_of_getElem? (by rwa [List.getElem?_set_ne (Ne.symm hsame)]))

/-- A time at which a warning is due. -/
def Ripe (interval : Duration) (last : UInt64) (clock : Nat) : Prop :=
  last ≠ neverWarned → last.toNat + interval.microseconds ≤ clock

/-- A record that will warn if no other warning comes in between. -/
def Ahead (interval : Duration) (scene : Scene) : Point → Prop
  | .begun | .counted _ => Ripe interval scene.overflow.lastWarning scene.clock
  | .timed _ now => Ripe interval scene.overflow.lastWarning now.toNat
  | .looked _ _ seen => seen = scene.overflow.lastWarning
  | .warned .. => True
  | .quiet _ => False

theorem Ahead.tick {microseconds : Nat} (hahead : Ahead interval scene point) :
    Ahead interval { scene with clock := scene.clock + microseconds } point := by
  cases point with
  | begun | counted => exact fun hlast => Nat.le_add_right_of_le (hahead hlast)
  | _ => exact hahead

theorem Ahead.passage (hahead : Ahead interval scene point) {calls : List (Nat × Point)}
    (hclock : scene.clock < neverWarned.toNat)
    (hmarked : ∀ number now, point = .timed number now → now ≠ neverWarned)
    (hpassage : Passage interval scene.clock scene.overflow point overflow reached) :
    Ahead interval { scene with overflow, calls } reached := by
  cases hpassage with
  | count => exact hahead
  | read =>
      intro hlast
      rw [(stamp_ne _ hclock).2]
      exact hahead hlast
  | look => rfl
  | @pass _ now hearly =>
      have hnow := hmarked _ now rfl
      have hdue : isDue interval scene.overflow.lastWarning now = true := by
        refine (isDue_iff hnow).mpr ?_
        by_cases hlast : scene.overflow.lastWarning = neverWarned
        · exact .inl hlast
        · exact .inr (Nat.le_sub_of_add_le' (hahead hlast))
      rw [hdue] at hearly
      cases hearly
  | warn => trivial
  | lose hother => exact hother hahead.symm

theorem ahead_of_turn (hstamped : Stamped interval log scene) (hsequential : Sequential scene)
    (hturn : Turn interval scene made next) (hthreads : ∀ call ∈ next.calls, call.1 = thread)
    (hcall : scene.calls[caller]? = some (thread, point)) (hahead : Ahead interval scene point) :
    ∃ reached, next.calls[caller]? = some (thread, reached) ∧ Ahead interval next reached := by
  have hsame := threads_of_turn hturn hthreads
  have hbound := (List.getElem?_eq_some_iff.mp hcall).1
  cases hturn with
  | tick => exact ⟨point, hcall, hahead.tick⟩
  | begin =>
      refine ⟨point, by rwa [List.getElem?_append_left hbound], ?_⟩
      cases point <;> exact hahead
  | @advance other _ _ _ reached hget hpassage =>
      by_cases hown : other = caller
      · subst hown
        obtain ⟨rfl, rfl⟩ := Prod.mk.injEq .. ▸ Option.some_inj.mp (hget.symm.trans hcall)
        have hcredible := hstamped.credible _ (List.mem_of_getElem? hcall)
        refine ⟨reached, List.getElem?_set_self hbound,
          hahead.passage hstamped.clock_lt ?_ hpassage⟩
        rintro number now rfl
        exact hcredible
      · refine ⟨point, by rwa [List.getElem?_set_ne hown], ?_⟩
        have hover : point.isOver = true := by
          by_contra hunder
          exact hown (hsequential other caller _ _ hget hcall
            ((hsame _ (List.mem_of_getElem? hget)).trans rfl) hpassage.not_over
            (Bool.eq_false_iff.mpr hunder))
        cases point with
        | warned => trivial
        | quiet => exact hahead
        | _ => cases hover

end Threads

section Courses

variable {interval : Duration} {scene next last : Scene} {log before later made : List Arrival}
  {arrival : Arrival} {clock caller thread : Nat} {point : Point}

/-- What every course keeps. -/
structure Kept (interval : Duration) (log : List Arrival) (scene : Scene) : Prop where
  stamped : Stamped interval log scene
  numbered : Numbered log scene
  sequential : Sequential scene
  /-- Every record came to the point where it is. -/
  logged : ∀ caller thread point, scene.calls[caller]? = some (thread, point) →
    ∃ clock, ⟨caller, thread, clock, point⟩ ∈ log

theorem kept_initial (hclock : clock < neverWarned.toNat) :
    Kept interval [] (.initial clock) where
  stamped :=
    { clock_lt := hclock
      last := rfl
      marked := List.forall_mem_nil _
      spaced := .nil
      credible := List.forall_mem_nil _ }
  numbered := ⟨rfl, rfl, fun _ _ hcall => (by cases hcall), List.forall_mem_nil _⟩
  sequential _ _ _ _ hcall := by cases hcall
  logged _ _ _ hcall := by cases hcall

theorem logged_of_turn (hturn : Turn interval scene made next)
    (hlogged : ∀ caller thread point, scene.calls[caller]? = some (thread, point) →
      ∃ clock, ⟨caller, thread, clock, point⟩ ∈ log)
    (hcall : next.calls[caller]? = some (thread, point)) :
    ∃ clock, ⟨caller, thread, clock, point⟩ ∈ log ++ made := by
  have hold : scene.calls[caller]? = some (thread, point) →
      ∃ clock, ⟨caller, thread, clock, point⟩ ∈ log ++ made := fun hcall =>
    (hlogged caller thread point hcall).imp fun _ => List.mem_append_left made
  cases hturn with
  | tick => exact hold hcall
  | begin =>
      obtain hcall | ⟨rfl, hnew⟩ := getElem?_concat_cases hcall
      · exact hold hcall
      · cases hnew
        exact ⟨_, List.mem_append_right _ (List.mem_singleton_self _)⟩
  | advance hget =>
      obtain ⟨-, hcall⟩ | ⟨rfl, hnew⟩ := getElem?_set_cases hget hcall
      · exact hold hcall
      · cases hnew
        exact ⟨_, List.mem_append_right _ (List.mem_singleton_self _)⟩

theorem kept_of_turn (hkept : Kept interval log scene) (hturn : Turn interval scene made next) :
    Kept interval (log ++ made) next where
  stamped := stamped_of_turn hkept.stamped hturn
  numbered := numbered_of_turn hkept.numbered hturn
  sequential := sequential_of_turn hkept.sequential hturn
  logged _ _ _ := logged_of_turn hturn hkept.logged

theorem kept_of_course (hkept : Kept interval before scene)
    (hcourse : Course interval scene log last) : Kept interval (before ++ log) last := by
  induction hcourse with
  | refl => rwa [List.append_nil]
  | step act _ hstep ih =>
      rw [← List.append_assoc]
      exact kept_of_turn ih (turn_of_step hstep)

theorem cut_course (hcourse : Course interval scene (before ++ arrival :: later) last) :
    ∃ middle next, Course interval scene before middle ∧ Turn interval middle [arrival] next ∧
      Course interval next later last := by
  generalize hlog : before ++ arrival :: later = log at hcourse
  induction hcourse generalizing later with
  | refl => simp at hlog
  | @step log made middle next act hcourse hstep ih =>
      have hmade : made = [] ∨ ∃ arrived, made = [arrived] := by
        cases turn_of_step hstep with
        | tick => exact .inl rfl
        | _ => exact .inr ⟨_, rfl⟩
      rcases hmade with rfl | ⟨arrived, rfl⟩
      · obtain ⟨start, reached, hbefore, hturn, hlater⟩ := ih (by rw [hlog, List.append_nil])
        exact ⟨start, reached, hbefore, hturn, List.append_nil later ▸ .step act hlater hstep⟩
      · -- The course grows at its end: it is cut before its last arrival, or that one continues an
        -- earlier cut.
        rcases List.eq_nil_or_concat' later with rfl | ⟨earlier, final, rfl⟩
        · obtain ⟨rfl, harrived⟩ := List.append_inj' hlog rfl
          cases harrived
          exact ⟨middle, next, hcourse, turn_of_step hstep, .refl⟩
        · rw [← List.cons_append, ← List.append_assoc] at hlog
          obtain ⟨hfront, harrived⟩ := List.append_inj' hlog rfl
          cases harrived
          obtain ⟨start, reached, hbefore, hturn, hlater⟩ := ih hfront
          exact ⟨start, reached, hbefore, hturn, .step act hlater hstep⟩

theorem ahead_of_arrival (hturn : Turn interval scene [arrival] next)
    (hclock : scene.clock < neverWarned.toNat) (hearly : arrival.point.isEarly = true)
    (hripe : Ripe interval next.overflow.lastWarning arrival.clock) :
    next.calls[arrival.caller]? = some (arrival.thread, arrival.point) ∧
      Ahead interval next arrival.point := by
  cases hturn with
  | begin => exact ⟨List.getElem?_concat_length, hripe⟩
  | advance hget hpassage =>
      refine ⟨List.getElem?_set_self (List.getElem?_eq_some_iff.mp hget).1, ?_⟩
      cases hpassage with
      | count => exact hripe
      | read =>
          intro hlast
          rw [(stamp_ne _ hclock).2]
          exact hripe hlast
      | _ => cases hearly

theorem threads_of_course (hcourse : Course interval scene log last)
    (hthreads : ∀ call ∈ last.calls, call.1 = thread) :
    ∀ call ∈ scene.calls, call.1 = thread := by
  induction hcourse with
  | refl => exact hthreads
  | step act _ hstep ih => exact ih (threads_of_turn (turn_of_step hstep) hthreads)

theorem ahead_of_course (hkept : Kept interval before scene)
    (hcourse : Course interval scene log last) (hthreads : ∀ call ∈ last.calls, call.1 = thread)
    (hcall : scene.calls[caller]? = some (thread, point)) (hahead : Ahead interval scene point) :
    ∃ reached, last.calls[caller]? = some (thread, reached) ∧ Ahead interval last reached := by
  induction hcourse with
  | refl => exact ⟨point, hcall, hahead⟩
  | step act hcourse hstep ih =>
      have hturn := turn_of_step hstep
      obtain ⟨middle, hmiddle, hmiddleAhead⟩ := ih (threads_of_turn hturn hthreads)
      have hmiddleKept := kept_of_course hkept hcourse
      exact ahead_of_turn hmiddleKept.stamped hmiddleKept.sequential hturn hthreads hmiddle
        hmiddleAhead

theorem exists_advance (interval : Duration) (clock : Nat) (overflow : Overflow)
    (hunder : point.isOver = false) :
    ∃ changed reached, advance interval clock overflow point = some (changed, reached) ∧
      reached.left < point.left := by
  cases point with
  | begun => exact ⟨_, _, rfl, Nat.lt_succ_self 3⟩
  | counted number => exact ⟨_, _, rfl, Nat.lt_succ_self 2⟩
  | timed number now =>
      simp only [advance]
      split
      · exact ⟨_, _, rfl, Nat.lt_succ_self 1⟩
      · exact ⟨_, _, rfl, Nat.zero_lt_two⟩
  | looked number now seen =>
      simp only [advance]
      split
      · exact ⟨_, _, rfl, Nat.one_pos⟩
      · exact ⟨_, _, rfl, Nat.one_pos⟩
  | _ => cases hunder

theorem step_advance (hcall : scene.calls[caller]? = some (thread, point))
    (hunder : point.isOver = false) :
    ∃ next reached, scene.step interval (.advance caller) =
      some (next, [⟨caller, thread, scene.clock, reached⟩]) ∧ reached.left < point.left := by
  obtain ⟨changed, reached, hadvance, hleft⟩ :=
    exists_advance interval scene.clock scene.overflow hunder
  refine ⟨{ scene with overflow := changed, calls := scene.calls.set caller (thread, reached) },
    reached, ?_, hleft⟩
  simp only [Scene.step, hcall, hadvance, Option.map_some]

/-- Warnings are limited, and none is lost for good. -/
structure Limited (interval : Duration) (log : List Arrival) (scene : Scene) : Prop where
  /-- Once a record is over, there was a warning. -/
  warns : (∃ call ∈ scene.calls, call.2.isOver) → warnings log ≠ []
  spaced : (warnings log).IsChain (Spaced interval)
  /-- The count is the word of the number of drops. -/
  dropped : scene.overflow.dropped = UInt64.ofNat (numbers log).length
  /-- The drops are numbered one after the other, modulo 2⁶⁴. -/
  numbers : numbers log = wordsTo (numbers log).length
  /-- Each drop gets a single number, with the first step of its record. -/
  once : ∀ caller thread point, scene.calls[caller]? = some (thread, point) →
    log.countP (counts caller) = if point = .begun then 0 else 1
  /-- A record that is not over can take one of the few steps that are left to it. -/
  goesOn : ∀ caller thread point, scene.calls[caller]? = some (thread, point) →
    point.isOver = false → ∃ next reached, scene.step interval (.advance caller) =
      some (next, [⟨caller, thread, scene.clock, reached⟩]) ∧ reached.left < point.left
  /-- Where all drops are those of one thread, one that comes an interval after the last warning, or
  reads the clock then, ends with a warning. -/
  alone : ∀ thread before arrival after, (∀ call ∈ scene.calls, call.1 = thread) →
    log = before ++ arrival :: after → arrival.point.isEarly →
      (∀ last ∈ (warnings before).getLast?,
        last.toNat + interval.microseconds ≤ arrival.clock) →
      ∃ point, scene.calls[arrival.caller]? = some (thread, point) ∧
        (point.isOver → ∃ number now clock, point = .warned number now ∧
          ⟨arrival.caller, thread, clock, .warned number now⟩ ∈ log)

theorem warnings_ne_nil_of_over (hstamped : Stamped interval log scene)
    (hover : ∃ call ∈ scene.calls, call.2.isOver) : warnings log ≠ [] := by
  obtain ⟨call, hcall, hover⟩ := hover
  have hcredible := hstamped.credible call hcall
  cases hpoint : call.2 with
  | warned | quiet => rwa [hpoint] at hcredible
  | _ =>
      rw [hpoint] at hover
      cases hover

theorem ripe_of_early (hnext : Stamped interval (before ++ [arrival]) next)
    (hearly : arrival.point.isEarly = true)
    (hlast : ∀ last ∈ (warnings before).getLast?,
      last.toNat + interval.microseconds ≤ arrival.clock) :
    Ripe interval next.overflow.lastWarning arrival.clock := by
  have hnone : arrival.point.warning? = none := by
    cases hpoint : arrival.point with
    | begun | counted | timed => rfl
    | _ =>
        rw [hpoint] at hearly
        cases hearly
  intro hstamp
  rw [hnext.last, warnings_of_none hnone] at hstamp ⊢
  cases hget : (warnings before).getLast? with
  | none =>
      rw [hget] at hstamp
      exact absurd rfl hstamp
  | some last => exact hlast last hget

theorem warned_of_ahead (hkept : Kept interval log scene)
    (hcall : scene.calls[caller]? = some (thread, point)) (hahead : Ahead interval scene point)
    (hover : point.isOver) : ∃ number now clock, point = .warned number now ∧
      ⟨caller, thread, clock, .warned number now⟩ ∈ log := by
  cases point with
  | warned number now =>
      obtain ⟨clock, hlogged⟩ := hkept.logged _ _ _ hcall
      exact ⟨number, now, clock, rfl, hlogged⟩
  | quiet => exact hahead.elim
  | _ => cases hover

theorem alone_of_course (hclock : clock < neverWarned.toNat)
    (hcourse : Course interval (.initial clock) (before ++ arrival :: later) scene)
    (hthreads : ∀ call ∈ scene.calls, call.1 = thread) (hearly : arrival.point.isEarly)
    (hlast : ∀ last ∈ (warnings before).getLast?,
      last.toNat + interval.microseconds ≤ arrival.clock) :
    ∃ point, scene.calls[arrival.caller]? = some (thread, point) ∧ Ahead interval scene point := by
  obtain ⟨middle, next, hbefore, hturn, hafter⟩ := cut_course hcourse
  have hmiddle := kept_of_course (kept_initial hclock) hbefore
  rw [List.nil_append] at hmiddle
  have hnext := kept_of_turn hmiddle hturn
  have hripe := ripe_of_early hnext.stamped hearly hlast
  obtain ⟨hcall, hahead⟩ := ahead_of_arrival hturn hmiddle.stamped.clock_lt hearly hripe
  have hthread : arrival.thread = thread :=
    threads_of_course hafter hthreads _ (List.mem_of_getElem? hcall)
  rw [hthread] at hcall
  exact ahead_of_course hnext hafter hthreads hcall hahead

/-- Any number of drops may be recorded at once, and their steps come in any order: every drop is
counted once, warnings are an interval apart, and none is lost for good. -/
theorem limited_of_course (hclock : clock < neverWarned.toNat)
    (hcourse : Course interval (.initial clock) log scene) : Limited interval log scene := by
  have hkept := kept_of_course (kept_initial hclock) hcourse
  rw [List.nil_append] at hkept
  refine
    { warns := warnings_ne_nil_of_over hkept.stamped
      spaced := hkept.stamped.spaced
      dropped := hkept.numbered.dropped
      numbers := hkept.numbered.numbers
      once := fun caller thread point => hkept.numbered.once caller (thread, point)
      goesOn := fun caller thread point => step_advance
      alone := ?_ }
  rintro thread before arrival after hthreads rfl hearly hlast
  obtain ⟨point, hcall, hahead⟩ := alone_of_course hclock hcourse hthreads hearly hlast
  exact ⟨point, hcall, warned_of_ahead hkept hcall hahead⟩

/-- Two threads drop signals at once, and both see that there was no warning. -/
def twoThreads : List Act :=
  [.begin 0, .begin 1, .advance 0, .advance 1, .advance 0, .tick 3, .advance 1, .advance 0,
    .advance 1, .advance 1, .advance 0, .tick 12, .begin 1, .advance 2, .advance 2, .advance 2,
    .advance 2]

/-- Of two threads that drop at once the first to exchange warns, with its own time, and the next
warning comes once ten microseconds have passed. -/
theorem limited_twoThreads : 5 < neverWarned.toNat ∧ ∃ log scene,
    Course ⟨10000, by decide⟩ (.initial 5) log scene ∧ warnings log = [8, 20] ∧
      Limited ⟨10000, by decide⟩ log scene := by
  have hclock : 5 < neverWarned.toNat := by decide
  have hsteps : ((Scene.initial 5).steps ⟨10000, by decide⟩ twoThreads).map
      (fun made => warnings made.2) = some [8, 20] := by decide
  obtain ⟨⟨scene, log⟩, hmade, hwarnings⟩ := Option.map_eq_some_iff.mp hsteps
  have hcourse := course_of_steps hmade
  exact ⟨hclock, log, scene, hcourse, hwarnings, limited_of_course hclock hcourse⟩

end Courses

end MappedMetrics.Proofs.OverflowWarnings
