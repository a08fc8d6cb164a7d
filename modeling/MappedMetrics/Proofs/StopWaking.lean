import MappedMetrics.Proofs.SignalAccounting

namespace MappedMetrics.Proofs.StopWaking

open MappedMetrics
open MappedMetrics.Proofs.BridgeInterleaving
open MappedMetrics.Proofs.BridgeEffects
open MappedMetrics.Proofs.BridgeStopping
open MappedMetrics.Proofs.SignalAccounting

/-- Whether a move takes the first signal of a batch, as a number. -/
def begins (world : World) : Move → Nat
  | .thread => if world.thread = some .receiving then 1 else 0
  | _ => 0

/-- How many batches are begun on the way. -/
def passes (world : World) : List Move → Nat
  | [] => 0
  | move :: moves =>
      match world.step move with
      | none => 0
      | some (next, _) => begins world move + passes next moves

/-- What holds, with what happened so far, in every world that a fresh one leads to. -/
structure Waking (world : World) (log : List Happening) : Prop where
  roomy : 0 < world.channel.capacity
  raised : .flagged ∈ log → world.site.bridge.stop = true ∧ world.started = true
  asked : .asked ∈ log → .flagged ∈ log ∧
    (world.thread = some .receiving → world.channel.queue ≠ [])

section Step

variable {world next : World} {move : Move} {happenings log : List Happening}

theorem flag_of_step (hstep : world.step move = some (next, happenings)) :
    (happenings = [.flagged] ∧ world.thread.isSome ∧ next.site.bridge.stop = true) ∨
      (.flagged ∉ happenings ∧ next.site.bridge.stop = world.site.bridge.stop) := by
  cases made_of_step hstep with
  | flagged _ hthread => exact .inl ⟨rfl, hthread, rfl⟩
  | advanced _ hsite _ =>
      obtain ⟨_, _, hkept, _⟩ := advance_of_stepFrom hsite
      exact .inr ⟨fun hmem => (report_cases hmem).1 trivial, hkept.stop⟩
  | _ => exact .inr ⟨by simp, rfl⟩

theorem stop_of_step (hstop : world.site.bridge.stop = true)
    (hstep : world.step move = some (next, happenings)) : next.site.bridge.stop = true := by
  rcases flag_of_step hstep with ⟨_, _, hraised⟩ | ⟨_, hsame⟩
  · exact hraised
  · rw [hsame, hstop]

theorem started_of_step (hstep : world.step move = some (next, happenings))
    (hstarted : world.started = true) : next.started = true := by
  cases transition_of_step hstep with
  | advance _ _ hsame | accept _ hsame | quiet _ hsame | flag _ _ _ hsame | ask _ _ _ hsame
  | finish _ _ _ _ hsame => exact hsame.trans hstarted
  | start _ _ _ hnow => exact hnow

theorem raised_of_step (hstep : world.step move = some (next, happenings))
    (hsound : Sound world log)
    (hraised : .flagged ∈ log → world.site.bridge.stop = true ∧ world.started = true)
    (hflagged : .flagged ∈ log ++ happenings) :
    next.site.bridge.stop = true ∧ next.started = true := by
  rcases flag_of_step hstep with ⟨_, hthread, hstop⟩ | ⟨hquiet, hstop⟩
  · exact ⟨hstop, started_of_step hstep (hsound.started hthread)⟩
  · have hearlier := (List.mem_append.mp hflagged).resolve_right hquiet
    obtain ⟨hflag, hstarted⟩ := hraised hearlier
    exact ⟨hstop.trans hflag, started_of_step hstep hstarted⟩

theorem receiving_of_step (hstop : world.site.bridge.stop = true) (hstarted : world.started = true)
    (hstep : world.step move = some (next, happenings)) (hthread : next.thread = some .receiving) :
    move ≠ .thread ∧ world.thread = some .receiving := by
  by_cases hmove : move = .thread
  · subst hmove
    obtain ⟨stage, after, hadvanced, -⟩ := advanced_of_step hstep
    have hadvance := hadvanced.advance
    obtain rfl : after = .receiving := Option.some.inj (hadvanced.reached.symm.trans hthread)
    generalize next.channel = channel at hadvance
    cases hadvance with
    | again hgo => simp [hstop] at hgo
  · refine ⟨hmove, ?_⟩
    rcases (outside_of_step hmove hstep).thread with hsame | ⟨_, hnot, _⟩ | ⟨_, _, hnone⟩
    · rw [← hsame, hthread]
    · rw [hstarted] at hnot
      cases hnot
    · rw [hthread] at hnone
      cases hnone

/-- A queue with room for something, to which the wish to end was sent, is not empty as long as its
receiving end is there: the wish is in it, or it is full. -/
theorem queue_ne_nil_of_send {channel : Channel Signal} (hroomy : 0 < channel.capacity)
    (hopen : channel.isOpen = true) : (channel.send .shutdown).1.queue ≠ [] := by
  rw [Channel.send]
  split
  · simp_all
  · split
    · rename_i hfull
      exact List.ne_nil_of_length_pos (Nat.lt_of_lt_of_le hroomy hfull)
    · simp

theorem ask_of_step (hstep : world.step move = some (next, happenings))
    (hasked : .asked ∈ happenings) :
    world.owner = .flagged ∧ next.thread = world.thread ∧
      next.channel = (world.channel.send .shutdown).1 := by
  cases transition_of_step hstep with
  | advance _ _ _ _ hadvance =>
      generalize next.channel = channel at hadvance
      cases hadvance <;> simp at hasked
  | quiet _ _ _ _ hall =>
      rcases hall _ hasked with ⟨_, hcase⟩ | ⟨_, hcase⟩ | ⟨_, hcase⟩ <;> cases hcase
  | ask howner _ hthread _ hchannel => exact ⟨howner, hthread, hchannel⟩
  | _ => simp at hasked

theorem queue_ne_nil_of_step (hsound : Sound world log) (hwaking : Waking world log)
    (hstep : world.step move = some (next, happenings)) (hasked : .asked ∈ log ++ happenings)
    (hthread : next.thread = some .receiving) : next.channel.queue ≠ [] := by
  rcases List.mem_append.mp hasked with hearlier | hnow
  · obtain ⟨hflagged, hawake⟩ := hwaking.asked hearlier
    obtain ⟨hstop, hstarted⟩ := hwaking.raised hflagged
    obtain ⟨hmove, hreceiving⟩ := receiving_of_step hstop hstarted hstep hthread
    have hqueue := (outside_of_step hmove hstep).queue
    exact fun hempty => hawake hreceiving (List.prefix_nil.mp (hempty ▸ hqueue))
  · obtain ⟨_, hsame, hchannel⟩ := ask_of_step hstep hnow
    have hreceiving : world.thread = some .receiving := by rw [← hsame, hthread]
    have hopen := (hsound.ended_or_open hreceiving).resolve_left id
    rw [hchannel]
    exact queue_ne_nil_of_send hwaking.roomy hopen

theorem waking_of_step (hsound : Sound world log) (hwaking : Waking world log)
    (hstep : world.step move = some (next, happenings)) : Waking next (log ++ happenings) := by
  constructor
  · rw [capacity_of_step hstep]
    exact hwaking.roomy
  · exact raised_of_step hstep hsound hwaking.raised
  · intro hasked
    refine ⟨?_, queue_ne_nil_of_step hsound hwaking hstep hasked⟩
    rcases List.mem_append.mp hasked with hearlier | hnow
    · exact List.mem_append_left _ (hwaking.asked hearlier).1
    · by_cases hflagged : .flagged ∈ log
      · exact List.mem_append_left _ hflagged
      · have hidle := (hsound.unflagged hflagged).1
        rw [(ask_of_step hstep hnow).1] at hidle
        cases hidle

theorem isSome_step_thread {stage : Stage} (hthread : world.thread = some stage)
    (hunfinished : ∀ ending, stage ≠ .finished ending)
    (hqueue : stage = .receiving → world.channel.queue ≠ []) : (world.step .thread).isSome := by
  have hsame : world.site.bridge.thread = some stage := hthread
  have hstepped : (world.site.stepFrom stage).isSome := by
    cases stage with
    | receiving =>
        simp only [Site.stepFrom]
        split
        · rename_i hreceive
          exact absurd (queue_eq_nil_of_receive hreceive) (hqueue rfl)
        all_goals rfl
    | draining batch =>
        simp only [Site.stepFrom]
        split <;> rfl
    | checking shutdown =>
        simp only [Site.stepFrom]
        split <;> rfl
    | finished ending => exact absurd rfl (hunfinished ending)
    | _ => rfl
  obtain ⟨⟨site, events⟩, hsite⟩ := Option.isSome_iff_exists.mp hstepped
  simp only [World.step, Site.step, hsame, hsite, Option.isSome_some]

theorem begins_le (world : World) (move : Move) :
    begins world move ≤ if world.thread = some .receiving then 1 else 0 := by
  cases move with
  | thread => exact Nat.le_refl _
  | _ => exact Nat.zero_le _

/-- Once the flag is raised only a pass that is about to begin can still begin. -/
theorem passes_le (hstop : world.site.bridge.stop = true) (hstarted : world.started = true)
    (moves : List Move) :
    passes world moves ≤ if world.thread = some .receiving then 1 else 0 := by
  induction moves generalizing world with
  | nil => exact Nat.zero_le _
  | cons move moves ih =>
      simp only [passes]
      split
      · exact Nat.zero_le _
      · rename_i next happenings hstep
        have hlater := ih (stop_of_step hstop hstep) (started_of_step hstep hstarted)
        by_cases hthread : next.thread = some .receiving
        · obtain ⟨hmove, hreceiving⟩ := receiving_of_step hstop hstarted hstep hthread
          have hnone : begins world move = 0 := by
            cases move with
            | thread => exact absurd rfl hmove
            | _ => rfl
          simp only [hthread, hreceiving, if_true, hnone] at hlater ⊢
          omega
        · have hnow := begins_le world move
          simp only [hthread, if_false] at hlater
          omega

end Step

theorem waking_of_fresh {world : World} (hfresh : world.Fresh) : Waking world [] := by
  refine ⟨?_, by simp, by simp⟩
  obtain ⟨config, hroomy, hbridge⟩ := bridge_of_fresh hfresh
  rw [World.channel, hbridge]
  exact hroomy

theorem waking_of_run {first world : World} {log : List Happening} (hfresh : first.Fresh)
    (hrun : Run first log world) : Waking world log := by
  induction hrun with
  | refl => exact waking_of_fresh hfresh
  | step move hrun hstep ih => exact waking_of_step (sound_run hfresh hrun) ih hstep

/-- The thread will come to its end, as far as it is up to the thread. -/
structure Awake (world : World) : Prop where
  receiving : world.thread = some .receiving → world.channel.queue ≠ []
  /-- The thread can go on until it has ended. -/
  able : ∀ stage, world.thread = some stage →
    (∃ ending, stage = .finished ending) ∨ (world.step .thread).isSome
  /-- Whatever the other threads do, at most one further batch is begun. -/
  last : ∀ moves, passes world moves ≤ 1
  /-- A thread that does not wait for a signal begins no further batch. -/
  none : world.thread ≠ some .receiving → ∀ moves, passes world moves = 0

/-- Whatever the threads do, and in whatever order: once the owner has raised the flag and asked the
thread to end, whether the queue took the wish, was full or was gone, the thread never waits with
nothing queued, and it begins at most one further batch before it ends. -/
theorem awake_of_asked {first world : World} {log : List Happening} (hfresh : first.Fresh)
    (hrun : Run first log world) (hasked : .asked ∈ log) : Awake world := by
  have hwaking := waking_of_run hfresh hrun
  obtain ⟨hflagged, hreceiving⟩ := hwaking.asked hasked
  obtain ⟨hstop, hstarted⟩ := hwaking.raised hflagged
  refine ⟨hreceiving, ?_, ?_, ?_⟩
  · intro stage hthread
    by_cases hfinished : ∃ ending, stage = .finished ending
    · exact .inl hfinished
    · refine .inr (isSome_step_thread hthread (fun ending heq => hfinished ⟨ending, heq⟩) ?_)
      rintro rfl
      exact hreceiving hthread
  · intro moves
    have hpasses := passes_le hstop hstarted moves
    split at hpasses <;> omega
  · intro hthread moves
    have hpasses := passes_le hstop hstarted moves
    rwa [if_neg hthread, Nat.le_zero] at hpasses

/-- The queue is full, so that the wish to end is lost; the thread takes one batch and ends. -/
theorem awake_twoCounters : ∃ world log,
    twoCounters.steps [.notify "first" 0, .notify "second" 0, .start, .raiseFlag, .askToEnd] =
        some (world, log) ∧
      world.thread = some .receiving ∧
      world.channel.queue = [.changed "first", .changed "second"] ∧
      passes world (List.replicate 11 .thread) = 1 ∧ Awake world := by
  have hseen : (twoCounters.steps
      [.notify "first" 0, .notify "second" 0, .start, .raiseFlag, .askToEnd]).map (fun reached =>
        (reached.1.thread, reached.1.channel.queue, reached.2,
          passes reached.1 (List.replicate 11 .thread))) =
      some (some .receiving, [.changed "first", .changed "second"],
        [.accepted "first", .accepted "second", .started, .flagged, .asked], 1) := by
    decide +kernel
  obtain ⟨⟨world, log⟩, hsteps, hworld⟩ := Option.map_eq_some_iff.mp hseen
  simp only [Prod.mk.injEq] at hworld
  obtain ⟨hthread, hqueue, hlog, hpasses⟩ := hworld
  refine ⟨world, log, hsteps, hthread, hqueue, hpasses, ?_⟩
  exact awake_of_asked fresh_twoCounters (run_of_steps hsteps) (by simp [hlog])

end MappedMetrics.Proofs.StopWaking
