import MappedMetrics.Proofs.StopWaking

namespace MappedMetrics.Proofs.BatchGrowth

open MappedMetrics
open MappedMetrics.Proofs.BridgeInterleaving
open MappedMetrics.Proofs.BridgeEffects
open MappedMetrics.Proofs.BridgeStopping
open MappedMetrics.Proofs.SignalAccounting
open MappedMetrics.Proofs.StopWaking

/-- The keys of the signals that were accepted. -/
def acceptedKeys (log : List Happening) : List String :=
  log.filterMap fun
    | .accepted key => some key
    | _ => none

/-- How many of the moves are steps of the thread. -/
def threadSteps (moves : List Move) : Nat :=
  moves.countP fun
    | .thread => true
    | _ => false

/-- The thread collects a batch, from a moment when it waits for a first signal on. Its last step
ends the drain. -/
structure Pass (waiting draining applying : World) (moves : List Move) (during : List Happening)
    (shutdown : Bool) (batch : List String) : Prop where
  waits : waiting.thread = some .receiving
  collects : waiting.steps moves = some (draining, during)
  undrained : .drained ∉ during
  turns : draining.step .thread = some (applying, [.drained])
  applies : applying.thread = some (.applying shutdown batch [])

def Collecting : Option Stage → Prop
  | some .receiving | some (.draining _) => True
  | _ => False

@[simp] theorem acceptedKeys_nil : acceptedKeys [] = [] := rfl

@[simp] theorem acceptedKeys_append (log later : List Happening) :
    acceptedKeys (log ++ later) = acceptedKeys log ++ acceptedKeys later :=
  List.filterMap_append

theorem acceptedKeys_eq_nil {log : List Happening} (hquiet : ∀ key, .accepted key ∉ log) :
    acceptedKeys log = [] := by
  rw [acceptedKeys, List.filterMap_eq_nil_iff]
  intro happening hmem
  cases happening with
  | accepted key => exact absurd hmem (hquiet key)
  | _ => rfl

theorem threadSteps_cons (move : Move) (moves : List Move) :
    threadSteps (move :: moves) = threadSteps [move] + threadSteps moves := by
  rw [threadSteps, threadSteps, threadSteps, ← List.countP_append, List.singleton_append]

theorem threadSteps_of_ne {move : Move} (hmove : move ≠ .thread) : threadSteps [move] = 0 := by
  cases move with
  | thread => exact absurd rfl hmove
  | _ => rfl

theorem changes_send_shutdown (channel : Channel Signal) :
    changes (channel.send .shutdown).1.queue = changes channel.queue := by
  rcases Channel.queue_send channel .shutdown with hsame | hlonger
  · rw [hsame]
  · rw [hlonger]
    simp

theorem length_changes_le (queue : List Signal) : (changes queue).length ≤ queue.length :=
  List.length_filterMap_le _ _

section Step

variable {world next : World} {move : Move} {happenings : List Happening}

theorem collected_of_step (hcollecting : Collecting world.thread)
    (hstep : world.step move = some (next, happenings)) (hundrained : .drained ∉ happenings) :
    Collecting next.thread ∧ remaining next.thread ++ changes next.channel.queue =
      remaining world.thread ++ changes world.channel.queue ++ acceptedKeys happenings := by
  cases transition_of_step hstep with
  | @advance stage after _ hstage hafter _ _ hadvance =>
      rw [hstage] at hcollecting
      rw [hstage, hafter]
      generalize next.channel = channel at hadvance
      cases hadvance with
      | takeFirst hqueue | take hqueue =>
          refine ⟨trivial, ?_⟩
          simp [hqueue, remaining, acceptedKeys]
      | endFirst | takeEnd | empty => simp at hundrained
      | _ => exact hcollecting.elim
  | accept hthread _ _ _ hchannel =>
      rw [hthread, hchannel]
      refine ⟨hcollecting, ?_⟩
      simp [acceptedKeys]
  | quiet hthread _ _ hchannel hall =>
      have hnone : acceptedKeys happenings = [] := by
        refine acceptedKeys_eq_nil fun key hmem => ?_
        rcases hall _ hmem with ⟨_, hcase⟩ | ⟨_, hcase⟩ | ⟨_, hcase⟩ <;> cases hcase
      rw [hthread, hchannel, hnone, List.append_nil]
      exact ⟨hcollecting, rfl⟩
  | start hthread =>
      rw [hthread] at hcollecting
      exact hcollecting.elim
  | flag _ _ hthread _ hchannel =>
      rw [hthread, hchannel]
      exact ⟨hcollecting, (List.append_nil _).symm⟩
  | ask _ _ hthread _ hchannel =>
      rw [hthread, hchannel, changes_send_shutdown]
      exact ⟨hcollecting, (List.append_nil _).symm⟩
  | finish _ _ hthread =>
      rw [hthread] at hcollecting
      exact hcollecting.elim

theorem length_remaining_of_step (hcollecting : Collecting world.thread)
    (hstep : world.step move = some (next, happenings)) (hundrained : .drained ∉ happenings) :
    (remaining next.thread).length = (remaining world.thread).length + threadSteps [move] := by
  by_cases hmove : move = .thread
  · subst hmove
    obtain ⟨stage, after, hadvanced, rfl⟩ := advanced_of_step hstep
    rw [hadvanced.left] at hcollecting
    rw [hadvanced.left, hadvanced.reached]
    have hadvance := hadvanced.advance
    generalize report stage after = happened at hundrained hadvance
    generalize next.channel = channel at hadvance
    cases hadvance with
    | takeFirst => rfl
    | take => exact List.length_append
    | endFirst | takeEnd | empty => simp at hundrained
    | _ => exact hcollecting.elim
  · rw [threadSteps_of_ne hmove, Nat.add_zero]
    rcases (outside_of_step hmove hstep).thread with hsame | ⟨hnone, _⟩ | ⟨ending, hended, _⟩
    · rw [hsame]
    · rw [hnone] at hcollecting
      exact hcollecting.elim
    · rw [hended] at hcollecting
      exact hcollecting.elim

theorem collected_of_steps {last : World} {moves : List Move} {log : List Happening}
    (hcollecting : Collecting world.thread) (hsteps : world.steps moves = some (last, log))
    (hundrained : .drained ∉ log) :
    Collecting last.thread ∧
      remaining last.thread ++ changes last.channel.queue =
        remaining world.thread ++ changes world.channel.queue ++ acceptedKeys log ∧
      (remaining last.thread).length = (remaining world.thread).length + threadSteps moves := by
  induction moves generalizing world log with
  | nil =>
      cases hsteps
      exact ⟨hcollecting, by simp, rfl⟩
  | cons move moves ih =>
      obtain ⟨next, happenings, later, hstep, hlater, rfl⟩ := exists_of_steps_cons hsteps
      have hnow : .drained ∉ happenings := fun hmem => hundrained (List.mem_append_left _ hmem)
      have hthen : .drained ∉ later := fun hmem => hundrained (List.mem_append_right _ hmem)
      obtain ⟨hstill, hkeys⟩ := collected_of_step hcollecting hstep hnow
      have hlength := length_remaining_of_step hcollecting hstep hnow
      obtain ⟨hend, hall, htotal⟩ := ih hstill hlater hthen
      refine ⟨hend, ?_, ?_⟩
      · rw [hall, hkeys, acceptedKeys_append]
        simp only [List.append_assoc]
      · rw [htotal, hlength, threadSteps_cons move moves, Nat.add_assoc]

theorem collected_of_turn {batch : List String} {shutdown : Bool}
    (hcollecting : Collecting world.thread)
    (hstep : world.step .thread = some (next, happenings))
    (happlies : next.thread = some (.applying shutdown batch [])) :
    batch = remaining world.thread ∧ changes next.channel.queue = changes world.channel.queue ∧
      (shutdown = false → next.channel.queue = []) := by
  obtain ⟨stage, after, hadvanced, -⟩ := advanced_of_step hstep
  obtain rfl := Option.some.inj (happlies.symm.trans hadvanced.reached)
  rw [hadvanced.left] at hcollecting ⊢
  have hadvance := hadvanced.advance
  generalize next.channel = channel at hadvance ⊢
  cases hadvance with
  | endFirst hqueue | takeEnd hqueue => exact ⟨rfl, by simp [hqueue], by simp⟩
  | empty hqueue => exact ⟨rfl, rfl, fun _ => hqueue⟩
  | _ => exact hcollecting.elim

end Step

/-- What a pass of the thread collects. -/
structure Collected (waiting applying : World) (moves : List Move) (during : List Happening)
    (shutdown : Bool) (batch : List String) : Prop where
  /-- What was queued at first comes first, then what was accepted on the way; behind a wish to end
  some of it stays in the queue. -/
  exact : batch ++ changes applying.channel.queue =
    changes waiting.channel.queue ++ acceptedKeys during
  whole : shutdown = false → applying.channel.queue = []
  steps : batch.length = threadSteps moves
  bounded : batch.length ≤ waiting.channel.capacity + (acceptedKeys during).length

theorem bounded_of_run {first world : World} {log : List Happening} (hfresh : first.Fresh)
    (hrun : Run first log world) : world.channel.queue.length ≤ world.channel.capacity := by
  induction hrun with
  | refl =>
      have hbalanced := balanced_of_fresh hfresh
      rw [hbalanced.capacity]
      exact hbalanced.bounded
  | step move _ hstep ih => exact bounded_of_step hstep ih

theorem collected_of_pass {waiting draining applying : World} {moves : List Move}
    {during : List Happening} {shutdown : Bool} {batch : List String}
    (hbounded : waiting.channel.queue.length ≤ waiting.channel.capacity)
    (hpass : Pass waiting draining applying moves during shutdown batch) :
    Collected waiting applying moves during shutdown batch := by
  have hcollecting : Collecting waiting.thread := by
    rw [hpass.waits]
    trivial
  obtain ⟨hstill, hkeys, hsteps⟩ :=
    collected_of_steps hcollecting hpass.collects hpass.undrained
  obtain ⟨hbatch, hqueue, hwhole⟩ := collected_of_turn hstill hpass.turns hpass.applies
  rw [hpass.waits] at hkeys hsteps
  have hexact : batch ++ changes applying.channel.queue =
      changes waiting.channel.queue ++ acceptedKeys during := by
    rw [hbatch, hqueue, hkeys]
    rfl
  refine ⟨hexact, hwhole, ?_, ?_⟩
  · have hnone : remaining (some .receiving) = [] := rfl
    rw [hbatch, hsteps, hnone, List.length_nil, Nat.zero_add]
  · have hlength := congrArg List.length hexact
    have hchanges := length_changes_le waiting.channel.queue
    simp only [List.length_append] at hlength
    omega

/-- How many steps the thread has left, with so many signals queued, once the flag is raised and
nothing more is accepted. -/
def stepsLeft (queued : Nat) : Option Stage → Nat
  | some .receiving => 3 * queued + 5
  | some (.draining batch) => 3 * queued + 2 * batch.length + 5
  | some (.applying _ batch _) => 2 * batch.length + 4
  | some (.writing _ batch _ _ _) => 2 * batch.length + 5
  | some (.checking _) => 3
  | some (.leaving _) => 2
  | some (.released _) => 1
  | some (.finished _) | none => 0

theorem stepsLeft_succ_le (queued : Nat) (thread : Option Stage) :
    stepsLeft (queued + 1) thread ≤ stepsLeft queued thread + 3 := by
  unfold stepsLeft
  split <;> omega

theorem stepsLeft_le (queued : Nat) (thread : Option Stage) :
    stepsLeft queued thread ≤ 3 * queued + 2 * (remaining thread).length + 5 := by
  unfold stepsLeft
  split <;> simp only [remaining, List.length_nil] <;> omega

theorem stepsLeft_advance {nameOf : String → Option String} {channel rest : Channel Signal}
    {stage after : Stage} {happenings : List Happening}
    (hadvance : Advance nameOf true channel stage happenings rest after) :
    stepsLeft (changes rest.queue).length (some after) <
      stepsLeft (changes channel.queue).length (some stage) := by
  cases hadvance with
  | again hgo => simp at hgo
  | takeFirst hqueue | endFirst hqueue | take hqueue | takeEnd hqueue =>
      simp only [hqueue, stepsLeft, changes_cons_changed, changes_cons_shutdown, List.length_cons,
        List.length_append, List.length_nil]
      omega
  | _ =>
      simp only [stepsLeft, List.length_cons, List.length_nil]
      omega

theorem stepsLeft_of_step {world next : World} {move : Move} {happenings : List Happening}
    (hstop : world.site.bridge.stop = true) (hstarted : world.started = true)
    (hstep : world.step move = some (next, happenings)) :
    threadSteps [move] + stepsLeft (changes next.channel.queue).length next.thread ≤
      stepsLeft (changes world.channel.queue).length world.thread +
        3 * (acceptedKeys happenings).length := by
  -- Only a signal that is accepted adds to what is left: it is taken, and perhaps read and written.
  by_cases hmove : move = .thread
  · subst hmove
    obtain ⟨stage, after, hadvanced, -⟩ := advanced_of_step hstep
    have hless := stepsLeft_advance (hstop ▸ hadvanced.advance)
    rw [hadvanced.left, hadvanced.reached]
    change 1 + _ ≤ _
    omega
  · rw [threadSteps_of_ne hmove, Nat.zero_add]
    cases transition_of_step hstep with
    | advance hstage hafter _ _ hadvance =>
        have hless := stepsLeft_advance (hstop ▸ hadvance)
        rw [hstage, hafter]
        omega
    | accept hthread _ _ _ hchannel =>
        have hone := stepsLeft_succ_le (changes world.channel.queue).length world.thread
        rw [hthread, hchannel]
        simpa [acceptedKeys] using hone
    | quiet hthread _ _ hchannel | flag _ _ hthread _ hchannel =>
        rw [hthread, hchannel]
        exact Nat.le_add_right _ _
    | ask _ _ hthread _ hchannel =>
        rw [hthread, hchannel, changes_send_shutdown]
        exact Nat.le_add_right _ _
    | start _ hnot =>
        rw [hstarted] at hnot
        cases hnot
    | finish _ _ _ hnone =>
        rw [hnone]
        exact Nat.zero_le _

theorem stepsLeft_of_steps {world last : World} {moves : List Move} {later : List Happening}
    (hstop : world.site.bridge.stop = true) (hstarted : world.started = true)
    (hsteps : world.steps moves = some (last, later)) :
    threadSteps moves + stepsLeft (changes last.channel.queue).length last.thread ≤
      stepsLeft (changes world.channel.queue).length world.thread +
        3 * (acceptedKeys later).length := by
  induction moves generalizing world later with
  | nil =>
      cases hsteps
      exact Nat.le_of_eq (Nat.zero_add _)
  | cons move moves ih =>
      obtain ⟨next, happenings, after, hstep, hlater, rfl⟩ := exists_of_steps_cons hsteps
      have hnow := stepsLeft_of_step hstop hstarted hstep
      have hthen := ih (stop_of_step hstop hstep) (started_of_step hstep hstarted) hlater
      rw [threadSteps_cons, acceptedKeys_append, List.length_append]
      omega

theorem steps_append {world middle last : World} {moves more : List Move}
    {log later : List Happening} (hfirst : world.steps moves = some (middle, log))
    (hlast : middle.steps more = some (last, later)) :
    world.steps (moves ++ more) = some (last, log ++ later) := by
  induction moves generalizing world log with
  | nil =>
      cases hfirst
      exact hlast
  | cons move moves ih =>
      obtain ⟨next, happenings, after, hstep, hrest, rfl⟩ := exists_of_steps_cons hfirst
      rw [List.append_assoc]
      exact steps_cons hstep (ih hrest)

/-- A world with so much in an open queue and the thread at a stage. -/
def held (world : World) (queue : List Signal) (thread : Option Stage) : World :=
  { world with site.bridge :=
    { world.site.bridge with
      channel := ⟨world.channel.capacity, queue, true⟩
      thread := thread } }

section Refilling

variable {world : World} {key : String}

theorem step_notify {queue : List Signal} {thread : Option Stage}
    (hnamed : (world.nameOf key).isSome) (hroom : queue.length < world.channel.capacity) :
    (held world queue thread).step (.notify key 0) =
      some (held world (queue ++ [.changed key]) thread, [.accepted key]) := by
  have hnamed' : ((held world queue thread).nameOf key).isSome := hnamed
  have hsend : (held world queue thread).site.bridge.channel.send (.changed key) =
      (⟨world.channel.capacity, queue ++ [.changed key], true⟩, .accepted) := by
    simp [held, Channel.send, Nat.not_le.mpr hroom]
  simp only [World.step, hnamed', if_true, Bridge.notify, hsend]
  rfl

theorem step_takeFirst (world : World) (key : String) (rest : List Signal) :
    (held world (.changed key :: rest) (some .receiving)).step .thread =
      some (held world rest (some (.draining [key])), [.took key]) := rfl

theorem step_take (world : World) (key : String) (batch : List String) (rest : List Signal) :
    (held world (.changed key :: rest) (some (.draining batch))).step .thread =
      some (held world rest (some (.draining (batch ++ [key]))), [.took key]) := by
  have hreport : report (.draining batch) (.draining (batch ++ [key])) = [.took key] := by
    simp [report]
  rw [← hreport]
  rfl

theorem step_turn {batch : List String} :
    (held world [] (some (.draining batch))).step .thread =
      some (held world [] (some (.applying false batch [])), [.drained]) := rfl

theorem steps_notify (hnamed : (world.nameOf key).isSome) (thread : Option Stage) (count : Nat)
    (queue : List Signal) (hroom : queue.length + count ≤ world.channel.capacity) :
    (held world queue thread).steps (List.replicate count (.notify key 0)) =
      some (held world (queue ++ List.replicate count (.changed key)) thread,
        List.replicate count (.accepted key)) := by
  induction count generalizing queue with
  | zero => simp [World.steps]
  | succ count ih =>
      have hlater : (queue ++ [Signal.changed key]).length + count ≤ world.channel.capacity := by
        simp only [List.length_append, List.length_singleton]
        omega
      have hsteps := steps_cons (step_notify hnamed (by omega)) (ih _ hlater)
      simpa only [List.append_assoc, List.singleton_append, ← List.replicate_succ] using hsteps

theorem steps_refill (hnamed : (world.nameOf key).isSome) (queued : Nat)
    (hroom : queued < world.channel.capacity) (count : Nat) (batch : List String) :
    ∃ moves log,
      (held world (List.replicate queued (.changed key)) (some (.draining batch))).steps moves =
          some (held world (List.replicate queued (.changed key))
            (some (.draining (batch ++ List.replicate count key))), log) ∧
        .drained ∉ log := by
  induction count generalizing batch with
  | zero => exact ⟨[], [], by simp [World.steps], by simp⟩
  | succ count ih =>
      obtain ⟨moves, log, hsteps, hundrained⟩ := ih (batch ++ [key])
      have hnotify : (held world (List.replicate queued (.changed key))
          (some (.draining batch))).step (.notify key 0) =
            some (held world (.changed key :: List.replicate queued (.changed key))
              (some (.draining batch)), [.accepted key]) := by
        rw [← List.replicate_succ, List.replicate_succ']
        exact step_notify hnamed (by simpa using hroom)
      -- One signal comes in behind the others, and the thread takes the first.
      refine ⟨.notify key 0 :: .thread :: moves, [.accepted key] ++ ([.took key] ++ log), ?_, ?_⟩
      · rw [List.replicate_succ, List.append_cons]
        exact steps_cons hnotify (steps_cons (step_take _ _ _ _) hsteps)
      · simpa using hundrained

theorem steps_drain (world : World) (key : String) (count : Nat) (batch : List String) :
    (held world (List.replicate count (Signal.changed key)) (some (.draining batch))).steps
        (List.replicate count .thread) =
      some (held world [] (some (.draining (batch ++ List.replicate count key))),
        List.replicate count (.took key)) := by
  induction count generalizing batch with
  | zero => simp [World.steps]
  | succ count ih =>
      have htake := step_take world key batch (List.replicate count (.changed key))
      have hsteps := steps_cons htake (ih (batch ++ [key]))
      simpa only [List.append_assoc, List.singleton_append, ← List.replicate_succ] using hsteps

end Refilling

/-- A world in which the owner started the bridge, raised the flag and asked the thread to end. -/
def stopping (world : World) : World :=
  { world with
    owner := .asked
    site.bridge :=
      { world.site.bridge with
        started := true
        running := true
        stop := true } }

theorem steps_stop {world : World} (queue : List Signal)
    (hwriter : world.site.writer.phase = .started) (howner : world.owner = .idle)
    (hstarted : world.site.bridge.started = false) (hfull : world.channel.capacity ≤ queue.length) :
    (held world queue none).steps [.start, .raiseFlag, .askToEnd] =
      some (held (stopping world) queue (some .receiving), [.started, .flagged, .asked]) := by
  have hstart : (held world queue none).step .start =
      some (held { world with site.bridge := { world.site.bridge with
        started := true, running := true } } queue (some .receiving), [.started]) := by
    simp only [World.step, held, Site.start, hwriter, howner, hstarted]
    rfl
  have hraise : (held { world with site.bridge := { world.site.bridge with
      started := true, running := true } } queue (some .receiving)).step .raiseFlag =
        some (held { stopping world with owner := .flagged } queue (some .receiving),
          [.flagged]) := by
    simp only [World.step, held, howner]
    rfl
  have hask : (held { stopping world with owner := .flagged } queue (some .receiving)).step
      .askToEnd = some (held (stopping world) queue (some .receiving), [.asked]) := by
    have hsend : (⟨world.channel.capacity, queue, true⟩ : Channel Signal).send .shutdown =
        (⟨world.channel.capacity, queue, true⟩, .full) := by
      simp [Channel.send, hfull]
    have hsite :
        (held { stopping world with owner := .flagged } queue (some .receiving)).site.askToEnd =
          (held (stopping world) queue (some .receiving)).site := by
      change Site.setChannel _ (Channel.send ⟨world.channel.capacity, queue, true⟩ .shutdown).1 = _
      rw [hsend]
      rfl
    simp only [World.step, hsite]
    rfl
  exact steps_cons hstart (steps_cons hraise (steps_cons hask rfl))

/-- Batches grow without bound, even when the owner has raised the flag and found no room for the
wish to end: so many more signals are accepted while the thread empties the queue. -/
theorem exists_pass {first : World} {key : String} (hfresh : first.Fresh)
    (hwriter : first.site.writer.phase = .started) (hnamed : (first.nameOf key).isSome)
    (more : Nat) :
    ∃ before waiting draining applying moves during batch,
      Run first before waiting ∧ .asked ∈ before ∧ .shutdown ∉ waiting.channel.queue ∧
        Pass waiting draining applying moves during false batch ∧
        batch.length = waiting.channel.capacity + more := by
  obtain ⟨config, hroomy, hbridge⟩ := bridge_of_fresh hfresh
  have hcapacity : first.channel.capacity = config.capacity := by
    rw [World.channel, hbridge]
    rfl
  have hfirst : held first [] none = first := by
    obtain ⟨⟨bridge, writer, volume, monitors⟩, owner⟩ := first
    cases hbridge
    rfl
  have hstarted : first.site.bridge.started = false := by rw [hbridge]
  obtain ⟨rest, hrest⟩ : ∃ rest, config.capacity = rest + 1 := Nat.exists_eq_add_one.mpr hroomy
  -- The queue is filled before the thread starts, so the wish to end finds no room.
  have hfilled := steps_notify hnamed none config.capacity [] (by simp [hcapacity])
  have hstopped := steps_stop (List.replicate config.capacity (.changed key)) hwriter hfresh.2
    hstarted (by simp [hcapacity])
  have hbefore := steps_append hfilled hstopped
  rw [hfirst] at hbefore
  have hnamed' : ((stopping first).nameOf key).isSome := hnamed
  have hroom : rest < (stopping first).channel.capacity := by
    change rest < first.channel.capacity
    omega
  obtain ⟨moves, log, hrefilled, hundrained⟩ := steps_refill hnamed' rest hroom more [key]
  have hdrained := steps_drain (stopping first) key rest ([key] ++ List.replicate more key)
  have htake := step_takeFirst (stopping first) key (List.replicate rest (.changed key))
  have hcollects := steps_cons htake (steps_append hrefilled hdrained)
  rw [hrest] at hbefore
  refine ⟨_, _, _, _, _, _, _, run_of_steps hbefore, by simp, ?_,
    ⟨rfl, hcollects, by simpa using hundrained, step_turn, rfl⟩, ?_⟩
  · simp [held, World.channel]
  · change _ = first.channel.capacity + more
    simp only [List.length_append, List.length_replicate, List.length_singleton]
    omega

/-- Whatever the threads do, and in whatever order: a batch is what was queued when the thread took
its first signal, followed by what was accepted until the queue was empty or the wish to end was
taken, so it exceeds the capacity by no more than that. After the owner asked the thread to end, the
thread takes a bounded number of steps and at most three more for each signal that is still
accepted. Neither number has a bound of its own, as signals may be accepted while the queue is being
emptied, also after the owner found no room for the wish to end. -/
theorem batch_grows_with_accepted {first world : World} {log : List Happening}
    (hfresh : first.Fresh) (hrun : Run first log world) :
    (∀ draining applying moves during shutdown batch,
      Pass world draining applying moves during shutdown batch →
        Collected world applying moves during shutdown batch) ∧
    (.asked ∈ log → ∀ last moves later, world.steps moves = some (last, later) →
      threadSteps moves ≤ 3 * world.channel.capacity + 2 * (remaining world.thread).length + 5 +
        3 * (acceptedKeys later).length) ∧
    (∀ key, (first.nameOf key).isSome → first.site.writer.phase = .started → ∀ more,
      ∃ before waiting draining applying moves during batch,
        Run first before waiting ∧ .asked ∈ before ∧ .shutdown ∉ waiting.channel.queue ∧
          Pass waiting draining applying moves during false batch ∧
          batch.length = waiting.channel.capacity + more) := by
  have hbounded := bounded_of_run hfresh hrun
  refine ⟨?_, ?_, ?_⟩
  · intro draining applying moves during shutdown batch hpass
    exact collected_of_pass hbounded hpass
  · intro hasked last moves later hsteps
    have hwaking := waking_of_run hfresh hrun
    obtain ⟨hstop, hstarted⟩ := hwaking.raised (hwaking.asked hasked).1
    have hleft := stepsLeft_of_steps hstop hstarted hsteps
    have hmost := stepsLeft_le (changes world.channel.queue).length world.thread
    have hchanges := length_changes_le world.channel.queue
    omega
  · intro key hnamed hwriter more
    exact exists_pass hfresh hwriter hnamed more

/-- Two signals that are accepted while the queue of two is being emptied make a batch of four. -/
theorem batch_grows_twoCounters : ∃ before waiting draining applying moves during,
    Run twoCounters before waiting ∧ waiting.channel.capacity = 2 ∧
      Pass waiting draining applying moves during false ["first", "first", "second", "first"] ∧
      Collected waiting applying moves during false ["first", "first", "second", "first"] := by
  have hseen : ((twoCounters.steps [.notify "first" 0, .notify "first" 0, .start]).bind
      fun waiting => (waiting.1.steps
        [.thread, .notify "second" 0, .thread, .notify "first" 0, .thread, .thread]).bind
      fun draining => (draining.1.step .thread).map fun applying =>
        (waiting.1.thread, waiting.1.channel.capacity, draining.2, applying.2,
          applying.1.thread)) =
      some (some .receiving, 2, [.took "first", .accepted "second", .took "first",
        .accepted "first", .took "second", .took "first"], [.drained],
        some (.applying false ["first", "first", "second", "first"] [])) := by
    decide +kernel
  simp only [Option.bind_eq_some_iff, Option.map_eq_some_iff, Prod.mk.injEq] at hseen
  obtain ⟨⟨waiting, before⟩, hbefore, ⟨draining, during⟩, hduring, ⟨applying, turned⟩, hturn,
    hwaits, hcapacity, hlog, hdrained, happlies⟩ := hseen
  have hrun := run_of_steps hbefore
  have hpass : Pass waiting draining applying
      [.thread, .notify "second" 0, .thread, .notify "first" 0, .thread, .thread] during false
        ["first", "first", "second", "first"] :=
    ⟨hwaits, hduring, by simp [show during = _ from hlog], hdrained ▸ hturn, happlies⟩
  exact ⟨before, waiting, draining, applying, _, during, hrun, hcapacity, hpass,
    (batch_grows_with_accepted fresh_twoCounters hrun).1 _ _ _ _ _ _ hpass⟩

/-- A batch may hold more than one signal over the capacity of the queue. -/
theorem batch_not_le_capacity_succ :
    ¬ ∀ (first waiting draining applying : World) (moves : List Move)
      (before during : List Happening) (shutdown : Bool) (batch : List String),
      first.Fresh → Run first before waiting →
        Pass waiting draining applying moves during shutdown batch →
          batch.length ≤ waiting.channel.capacity + 1 := by
  intro hall
  have hnamed : (twoCounters.nameOf "first").isSome := by decide
  obtain ⟨before, waiting, draining, applying, moves, during, batch, hrun, _, _, hpass, hlength⟩ :=
    exists_pass fresh_twoCounters rfl hnamed 2
  have hbound := hall _ _ _ _ _ _ _ _ _ fresh_twoCounters hrun hpass
  omega

end MappedMetrics.Proofs.BatchGrowth
