import MappedMetrics.Proofs.BridgeInterleaving

namespace MappedMetrics.Proofs.BridgeStopping

open MappedMetrics
open MappedMetrics.Proofs.BridgeInterleaving

/-- A source of a name was read and the value was written. -/
def Served (nameOf : String → Option String) (name : String) (log : List Happening) : Prop :=
  ∃ key value first between last, nameOf key = some name ∧
    log = first ++ .read key name value :: (between ++ .wrote name value :: last)

/-- The thread has read a source of a name and has yet to write the value. -/
def Reading (nameOf : String → Option String) (name : String) (log : List Happening)
    (thread : Option Stage) : Prop :=
  ∃ shutdown batch seen key value first last,
    thread = some (.writing shutdown batch seen name value) ∧ nameOf key = some name ∧
      log = first ++ .read key name value :: last

/-- The batch at hand has a source of a name that is still to be read. -/
def Awaits (nameOf : String → Option String) (name : String) : Option Stage → Prop
  | some (.applying _ batch seen) | some (.writing _ batch seen _ _) =>
      name ∉ seen ∧ ∃ key ∈ batch, nameOf key = some name
  | _ => False

/-- A source of a name was served, is being served, or will be before the batch ends. -/
def Underway (nameOf : String → Option String) (name : String) (log : List Happening)
    (thread : Option Stage) : Prop :=
  Served nameOf name log ∨ Reading nameOf name log thread ∨ Awaits nameOf name thread

theorem Served.append {nameOf : String → Option String} {name : String} {log : List Happening}
    (hserved : Served nameOf name log) (later : List Happening) :
    Served nameOf name (log ++ later) := by
  obtain ⟨key, value, first, between, last, hname, rfl⟩ := hserved
  refine ⟨key, value, first, between, last ++ later, hname, ?_⟩
  simp only [List.append_assoc, List.cons_append]

theorem Reading.append {nameOf : String → Option String} {name : String} {log : List Happening}
    {thread : Option Stage} (hreading : Reading nameOf name log thread)
    (later : List Happening) : Reading nameOf name (log ++ later) thread := by
  obtain ⟨shutdown, batch, seen, key, value, first, last, hthread, hname, rfl⟩ := hreading
  refine ⟨shutdown, batch, seen, key, value, first, last ++ later, hthread, hname, ?_⟩
  simp only [List.append_assoc, List.cons_append]

theorem Underway.append {nameOf : String → Option String} {name : String} {log : List Happening}
    {thread : Option Stage} (hunderway : Underway nameOf name log thread)
    (later : List Happening) : Underway nameOf name (log ++ later) thread := by
  rcases hunderway with hserved | hreading | hawaits
  · exact .inl (hserved.append later)
  · exact .inr (.inl (hreading.append later))
  · exact .inr (.inr hawaits)

/-- The batch at hand is worked through to its end unless the thread gives it up. -/
theorem underway_advance {nameOf : String → Option String} {stop : Bool}
    {channel rest : Channel Signal} {stage after : Stage} {name : String}
    {log happenings : List Happening}
    (hadvance : Advance nameOf stop channel stage happenings rest after)
    (hwell : .abandoned ∉ happenings) (hunderway : Underway nameOf name log (some stage)) :
    Underway nameOf name (log ++ happenings) (some after) := by
  rcases hunderway with hserved | hreading | hawaits
  · exact .inl (hserved.append happenings)
  · obtain ⟨shutdown, batch, seen, key, value, first, last, hstage, hname, rfl⟩ := hreading
    cases hstage
    cases hadvance with
    | write =>
        refine .inl ⟨key, value, first, last, [], hname, ?_⟩
        simp only [List.append_assoc, List.cons_append]
    | fail => simp at hwell
  · cases hadvance with
    | skip hskip =>
        obtain ⟨hfresh, source, hmem, hname⟩ := hawaits
        rcases List.mem_cons.mp hmem with rfl | hmem
        · exact absurd (hskip name hname) hfresh
        · exact .inr (.inr ⟨hfresh, source, hmem, hname⟩)
    | @read shutdown key other batch seen value hkey hother =>
        obtain ⟨hfresh, source, hmem, hname⟩ := hawaits
        -- Either the name is read now, or its source stands further on in the batch.
        by_cases hsame : other = name
        · subst hsame
          exact .inr (.inl ⟨shutdown, batch, _, key, value, log, [], rfl, hkey, rfl⟩)
        · refine .inr (.inr ⟨?_, ?_⟩)
          · simp only [List.mem_cons, not_or]
            exact ⟨fun heq => hsame heq.symm, hfresh⟩
          · rcases List.mem_cons.mp hmem with rfl | hmem
            · rw [hname] at hkey
              cases hkey
              exact absurd rfl hsame
            · exact ⟨source, hmem, hname⟩
    | write => exact .inr (.inr hawaits)
    | applied => simp [Awaits] at hawaits
    | giveUp => simp at hwell
    | fail => simp at hwell
    | _ => exact absurd hawaits id

theorem underway_transition {world next : World} {name : String} {log happenings : List Happening}
    (htransition : Transition world next happenings) (hnames : next.nameOf = world.nameOf)
    (hwell : .abandoned ∉ happenings)
    (hunderway : Underway world.nameOf name log world.thread) :
    Underway next.nameOf name (log ++ happenings) next.thread := by
  rw [hnames]
  cases htransition with
  | advance hstage hafter _ _ hadvance =>
      rw [hstage] at hunderway
      rw [hafter]
      exact underway_advance hadvance hwell hunderway
  | accept hthread | quiet hthread =>
      rw [hthread]
      exact hunderway.append _
  | flag _ _ hthread | ask _ _ hthread =>
      rw [hthread]
      exact hunderway.append _
  | start hthread | finish _ _ hthread =>
      rw [hthread] at hunderway
      rcases hunderway with hserved | hreading | hawaits
      · exact .inl (hserved.append _)
      · obtain ⟨_, _, _, _, _, _, _, hstage, _⟩ := hreading
        cases hstage
      · exact absurd hawaits id

theorem underway_run {first world : World} {name : String} {log : List Happening}
    (hrun : Run first log world) (hwell : .abandoned ∉ log)
    (hunderway : Underway first.nameOf name [] first.thread) :
    Underway world.nameOf name log world.thread := by
  induction hrun with
  | refl => exact hunderway
  | step move _ hstep ih =>
      have hearlier := ih fun hmem => hwell (List.mem_append_left _ hmem)
      have hnow := fun hmem => hwell (List.mem_append_right _ hmem)
      exact underway_transition (transition_of_step hstep) (nameOf_step hstep) hnow hearlier

def Ended : Option Stage → Prop
  | some (.released _) | some (.finished _) => True
  | _ => False

/-- What holds in every world that a fresh one leads to. -/
structure Sound (world : World) (log : List Happening) : Prop where
  started : world.thread.isSome → world.started = true
  closed : Ended world.thread → world.channel.isOpen = false
  gone : world.channel.isOpen = false →
    world.channel.queue = [] ∧ world.started = true ∧ (world.thread = none ∨ Ended world.thread)
  unflagged : .flagged ∉ log → world.owner = .idle ∧ .shutdown ∉ world.channel.queue

theorem sound_of_fresh {world : World} (hfresh : world.Fresh) : Sound world [] := by
  obtain ⟨config, _, hbridge⟩ := bridge_of_fresh hfresh
  have hthread : world.thread = none := by rw [World.thread, hbridge]
  have hchannel : world.channel = .ofCapacity config.capacity := by rw [World.channel, hbridge]
  refine ⟨?_, ?_, ?_, ?_⟩
  · intro hsome
    rw [hthread] at hsome
    cases hsome
  · intro hended
    rw [hthread] at hended
    exact hended.elim
  · intro hclosed
    rw [hchannel] at hclosed
    cases hclosed
  · intro _
    rw [hchannel]
    exact ⟨hfresh.2, List.not_mem_nil⟩

theorem Sound.ended_or_open {world : World} {log : List Happening} (hsound : Sound world log)
    {stage : Stage} (hstage : world.thread = some stage) :
    Ended (some stage) ∨ world.channel.isOpen = true := by
  cases hclosed : world.channel.isOpen with
  | true => exact .inr rfl
  | false =>
      rcases (hsound.gone hclosed).2.2 with hnone | hended
      · rw [hstage] at hnone
        cases hnone
      · exact .inl (hstage ▸ hended)

theorem sound_advance {world next : World} {stage after : Stage} {log happenings : List Happening}
    (hsound : Sound world log) (hstage : world.thread = some stage)
    (hafter : next.thread = some after) (hstarted : next.started = world.started)
    (howner : next.owner = world.owner)
    (hadvance : Advance world.nameOf world.site.bridge.stop world.channel stage happenings
      next.channel after) : Sound next (log ++ happenings) := by
  have hgiven : world.started = true := hsound.started (by rw [hstage]; rfl)
  have hopen : ¬ Ended (some stage) → world.channel.isOpen = true :=
    (hsound.ended_or_open hstage).resolve_left
  have hidle : .flagged ∉ log ++ happenings → next.owner = .idle ∧
      .shutdown ∉ world.channel.queue := by
    intro hflag
    rw [howner]
    exact hsound.unflagged fun hmem => hflag (List.mem_append_left _ hmem)
  generalize hchannel : next.channel = channel at hadvance
  refine ⟨fun _ => hstarted.trans hgiven, ?_, ?_, ?_⟩
  · rw [hafter, hchannel]
    intro hended
    cases hadvance with
    | close => rfl
    | finish => exact hsound.closed (by rw [hstage]; trivial)
    | _ => exact hended.elim
  · rw [hchannel]
    intro hclosed
    cases hadvance with
    | close => exact ⟨rfl, hstarted.trans hgiven, .inr (by rw [hafter]; trivial)⟩
    | finish =>
        obtain ⟨hqueue, _, _⟩ := hsound.gone hclosed
        exact ⟨hqueue, hstarted.trans hgiven, .inr (by rw [hafter]; trivial)⟩
    | _ => exact absurd (hopen id) (by simpa using hclosed)
  · intro hflag
    refine ⟨(hidle hflag).1, ?_⟩
    have hqueue := (hidle hflag).2
    rw [hchannel]
    cases hadvance with
    | takeFirst hsplit | endFirst hsplit | take hsplit | takeEnd hsplit =>
        -- What is left of the queue was in it before.
        rw [hsplit] at hqueue
        exact fun hmem => hqueue (List.mem_cons_of_mem _ hmem)
    | close => exact List.not_mem_nil
    | _ => exact hqueue

theorem sound_of_waiting {world next : World} {log happenings : List Happening}
    (hsound : Sound world log) (hthread : next.thread = world.thread)
    (hstarted : next.started = world.started)
    (hopen : next.channel.isOpen = world.channel.isOpen)
    (hqueue : world.channel.isOpen = false → next.channel.queue = world.channel.queue)
    (hidle : .flagged ∉ log ++ happenings →
      next.owner = .idle ∧ .shutdown ∉ next.channel.queue) : Sound next (log ++ happenings) := by
  refine ⟨?_, ?_, ?_, hidle⟩
  · rw [hthread, hstarted]
    exact hsound.started
  · rw [hthread, hopen]
    exact hsound.closed
  · rw [hthread, hstarted, hopen]
    intro hclosed
    rw [hqueue hclosed]
    exact hsound.gone hclosed

theorem sound_transition {world next : World} {log happenings : List Happening}
    (htransition : Transition world next happenings) (hsound : Sound world log) :
    Sound next (log ++ happenings) := by
  have hearlier : .flagged ∉ log ++ happenings → world.owner = .idle ∧
      .shutdown ∉ world.channel.queue := fun hflag =>
    hsound.unflagged fun hmem => hflag (List.mem_append_left _ hmem)
  cases htransition with
  | advance hstage hafter hstarted howner hadvance =>
      exact sound_advance hsound hstage hafter hstarted howner hadvance
  | accept hthread hstarted howner hopen hchannel =>
      refine sound_of_waiting hsound hthread hstarted (by rw [hchannel]) ?_ fun hflag => ?_
      · intro hclosed
        rw [hopen] at hclosed
        cases hclosed
      · rw [howner, hchannel]
        simpa using hearlier hflag
  | quiet hthread hstarted howner hchannel =>
      refine sound_of_waiting hsound hthread hstarted (by rw [hchannel])
        (fun _ => by rw [hchannel]) ?_
      rw [howner, hchannel]
      exact hearlier
  | flag _ _ hthread hstarted hchannel =>
      refine sound_of_waiting hsound hthread hstarted (by rw [hchannel])
        (fun _ => by rw [hchannel]) ?_
      exact fun hflag => absurd (List.mem_append_right _ (List.mem_singleton_self _)) hflag
  | ask howner _ hthread hstarted hchannel =>
      refine sound_of_waiting hsound hthread hstarted ?_ ?_ fun hflag => ?_
      · rw [hchannel, Channel.isOpen_send]
      · intro hclosed
        rw [hchannel, Channel.send_of_closed hclosed]
      · rw [(hearlier hflag).1] at howner
        cases howner
  | start hthread hnot hreceiving hstarted howner hchannel =>
      refine ⟨fun _ => hstarted, ?_, ?_, ?_⟩
      · rw [hreceiving]
        exact False.elim
      · rw [hchannel]
        intro hclosed
        have hgiven := (hsound.gone hclosed).2.1
        rw [hnot] at hgiven
        cases hgiven
      · rw [howner, hchannel]
        exact hearlier
  | finish howner _ hended hnone hstarted hchannel =>
      have hclosed : world.channel.isOpen = false := hsound.closed (by rw [hended]; trivial)
      obtain ⟨hqueue, hgiven, _⟩ := hsound.gone hclosed
      refine ⟨fun _ => hstarted.trans hgiven, ?_, ?_, fun hflag => ?_⟩
      · rw [hnone]
        exact False.elim
      · rw [hnone, hchannel, hqueue, hstarted]
        exact fun _ => ⟨rfl, hgiven, .inl rfl⟩
      · rw [(hearlier hflag).1] at howner
        cases howner

theorem sound_run {first world : World} {log : List Happening} (hfresh : first.Fresh)
    (hrun : Run first log world) : Sound world log := by
  induction hrun with
  | refl => exact sound_of_fresh hfresh
  | step move _ hstep ih => exact sound_transition (transition_of_step hstep) ih

/-- Where a signal stands that was accepted when the log began. -/
inductive Pending (key name : String) (world : World) (log : List Happening) : Prop where
  | underway : Underway world.nameOf name log world.thread → Pending key name world log
  | collected {batch : List String} {source : String} :
      world.thread = some (.draining batch) → source ∈ batch →
      world.nameOf source = some name → Pending key name world log
  | queued {ahead behind : List Signal} :
      .drained ∉ log → world.channel.queue = ahead ++ .changed key :: behind →
      .shutdown ∉ ahead → Pending key name world log
  | lost : .drained ∉ log → world.channel.isOpen = false → Pending key name world log

theorem pending_of_queued {world next : World} {stage after : Stage} {key name : String}
    {log happenings : List Happening} {ahead behind : List Signal} {channel : Channel Signal}
    (hafter : next.thread = some after) (hnames : next.nameOf = world.nameOf)
    (hkey : world.nameOf key = some name) (hchannel : next.channel = channel)
    (hadvance : Advance world.nameOf world.site.bridge.stop world.channel stage happenings channel
      after)
    (hdrained : .drained ∉ log)
    (hqueue : world.channel.queue = ahead ++ .changed key :: behind)
    (hahead : .shutdown ∉ ahead) : Pending key name next (log ++ happenings) := by
  have hquiet : .drained ∉ happenings → .drained ∉ log ++ happenings := fun hnot hmem =>
    (List.mem_append.mp hmem).elim hdrained hnot
  -- Nothing before the signal is a wish to end, so the thread takes none yet.
  have hnoEnd : ∀ rest, world.channel.queue ≠ .shutdown :: rest := by
    intro rest hsplit
    rw [hqueue] at hsplit
    cases ahead with
    | nil => cases hsplit
    | cons signal ahead =>
        cases hsplit
        exact hahead List.mem_cons_self
  cases hadvance with
  | @takeFirst other rest hsplit =>
      rw [hqueue] at hsplit
      cases ahead with
      | nil =>
          cases hsplit
          exact .collected hafter List.mem_cons_self (hnames ▸ hkey)
      | cons signal ahead =>
          cases hsplit
          have hrest : next.channel.queue = ahead ++ .changed key :: behind := by
            rw [hchannel]
            rfl
          exact .queued (hquiet (by simp)) hrest fun hmem => hahead (List.mem_cons_of_mem _ hmem)
  | @take other rest batch hsplit =>
      rw [hqueue] at hsplit
      cases ahead with
      | nil =>
          cases hsplit
          exact .collected hafter (List.mem_append_right _ List.mem_cons_self) (hnames ▸ hkey)
      | cons signal ahead =>
          cases hsplit
          have hrest : next.channel.queue = ahead ++ .changed key :: behind := by
            rw [hchannel]
            rfl
          exact .queued (hquiet (by simp)) hrest fun hmem => hahead (List.mem_cons_of_mem _ hmem)
  | endFirst hsplit | takeEnd hsplit => exact absurd hsplit (hnoEnd _)
  | empty hempty =>
      rw [hqueue] at hempty
      simp at hempty
  | close => exact .lost (hquiet (by simp)) (by rw [hchannel]; rfl)
  | _ => exact .queued (hquiet (by simp)) (hchannel ▸ hqueue) hahead

theorem pending_advance {world next : World} {stage after : Stage} {key name : String}
    {log happenings : List Happening} (hsound : Ended (some stage) ∨ world.channel.isOpen = true)
    (hstage : world.thread = some stage) (hafter : next.thread = some after)
    (hnames : next.nameOf = world.nameOf) (hkey : world.nameOf key = some name)
    (hadvance : Advance world.nameOf world.site.bridge.stop world.channel stage happenings
      next.channel after)
    (hwell : .abandoned ∉ happenings) (hpending : Pending key name world log) :
    Pending key name next (log ++ happenings) := by
  generalize hchannel : next.channel = channel at hadvance
  cases hpending with
  | underway hunderway =>
      rw [hstage] at hunderway
      refine .underway ?_
      rw [hnames, hafter]
      exact underway_advance hadvance hwell hunderway
  | @collected batch source hthread hmem hname =>
      obtain rfl : stage = .draining batch := Option.some.inj (hstage.symm.trans hthread)
      cases hadvance with
      | take hsplit => exact .collected hafter (List.mem_append_left _ hmem) (hnames ▸ hname)
      | takeEnd hsplit | empty hsplit =>
          refine .underway (.inr (.inr ?_))
          rw [hafter, hnames]
          exact ⟨List.not_mem_nil, source, hmem, hname⟩
  | queued hdrained hqueue hahead =>
      exact pending_of_queued hafter hnames hkey hchannel hadvance hdrained hqueue hahead
  | lost hdrained hclosed =>
      -- The queue is lost only once the thread is past its last drain.
      rcases hsound with hended | hopen
      · cases hadvance with
        | finish =>
            refine .lost ?_ (hchannel ▸ hclosed)
            rwa [List.append_nil]
        | _ => exact hended.elim
      · rw [hclosed] at hopen
        cases hopen

theorem pending_of_waiting {world next : World} {key name : String}
    {log happenings : List Happening} {later : List Signal} (hdrained : .drained ∉ happenings)
    (hunderway : Underway world.nameOf name log world.thread →
      Underway next.nameOf name (log ++ happenings) next.thread)
    (hdraining : ∀ batch, world.thread = some (.draining batch) →
      next.thread = some (.draining batch))
    (hnames : next.nameOf = world.nameOf)
    (hqueue : next.channel.queue = world.channel.queue ++ later)
    (hopen : next.channel.isOpen = world.channel.isOpen)
    (hpending : Pending key name world log) : Pending key name next (log ++ happenings) := by
  have hquiet : .drained ∉ log → .drained ∉ log ++ happenings := fun hnot hmem =>
    (List.mem_append.mp hmem).elim hnot hdrained
  cases hpending with
  | underway h => exact .underway (hunderway h)
  | collected hthread hmem hname => exact .collected (hdraining _ hthread) hmem (hnames ▸ hname)
  | @queued ahead behind hnot hsplit hahead =>
      have hlonger : next.channel.queue = ahead ++ .changed key :: (behind ++ later) := by
        rw [hqueue, hsplit, List.append_assoc, List.cons_append]
      exact .queued (hquiet hnot) hlonger hahead
  | lost hnot hclosed => exact .lost (hquiet hnot) (hopen.trans hclosed)

theorem pending_transition {world next : World} {key name : String}
    {log earlier happenings : List Happening} (htransition : Transition world next happenings)
    (hnames : next.nameOf = world.nameOf) (hkey : world.nameOf key = some name)
    (hsound : Sound world earlier) (hwell : .abandoned ∉ happenings)
    (hpending : Pending key name world log) : Pending key name next (log ++ happenings) := by
  have hunderway : Underway world.nameOf name log world.thread →
      Underway next.nameOf name (log ++ happenings) next.thread :=
    underway_transition htransition hnames hwell
  cases htransition with
  | advance hstage hafter _ _ hadvance =>
      exact pending_advance (hsound.ended_or_open hstage) hstage hafter hnames hkey hadvance hwell
        hpending
  | accept hthread _ _ _ hchannel =>
      exact pending_of_waiting (by simp) hunderway (fun _ => hthread.trans) hnames
        (by rw [hchannel]) (by rw [hchannel]) hpending
  | quiet hthread _ _ hchannel hall =>
      refine pending_of_waiting ?_ hunderway (fun _ => hthread.trans) hnames
        (by rw [hchannel, List.append_nil]) (by rw [hchannel]) hpending
      intro hmem
      rcases hall _ hmem with ⟨_, hcase⟩ | ⟨_, hcase⟩ | ⟨_, hcase⟩ <;> cases hcase
  | start hthread _ _ _ _ hchannel =>
      refine pending_of_waiting (by simp) hunderway ?_ hnames
        (by rw [hchannel, List.append_nil]) (by rw [hchannel]) hpending
      intro batch hdraining
      rw [hthread] at hdraining
      cases hdraining
  | flag _ _ hthread _ hchannel =>
      exact pending_of_waiting (by simp) hunderway (fun _ => hthread.trans) hnames
        (by rw [hchannel, List.append_nil]) (by rw [hchannel]) hpending
  | ask _ _ hthread _ hchannel =>
      have hsent : ∃ later, next.channel.queue = world.channel.queue ++ later := by
        rw [hchannel]
        rcases Channel.queue_send world.channel .shutdown with hsame | hlonger
        · exact ⟨[], hsame.trans (List.append_nil _).symm⟩
        · exact ⟨[.shutdown], hlonger⟩
      obtain ⟨later, hqueue⟩ := hsent
      have hopen : next.channel.isOpen = world.channel.isOpen := by
        rw [hchannel, Channel.isOpen_send]
      exact pending_of_waiting (by simp) hunderway (fun _ => hthread.trans) hnames hqueue hopen
        hpending
  | finish _ _ hthread _ _ hchannel =>
      refine pending_of_waiting (by simp) hunderway ?_ hnames
        (by rw [hchannel, List.append_nil]) (by rw [hchannel]) hpending
      intro batch hdraining
      rw [hthread] at hdraining
      cases hdraining

theorem pending_run {first world : World} {key name : String} {before log : List Happening}
    (hfirst : Sound first before) (hrun : Run first log world)
    (hkey : first.nameOf key = some name) (hwell : .abandoned ∉ log)
    (hpending : Pending key name first []) :
    Pending key name world log ∧ Sound world (before ++ log) := by
  induction hrun with
  | refl => exact ⟨hpending, by rwa [List.append_nil]⟩
  | @step log happenings world next move hrun hstep ih =>
      have hearlier : .abandoned ∉ log := fun hmem => hwell (List.mem_append_left _ hmem)
      have hnow : .abandoned ∉ happenings := fun hmem => hwell (List.mem_append_right _ hmem)
      obtain ⟨hstill, hsound⟩ := ih hearlier
      have htransition := transition_of_step hstep
      have hnamed : world.nameOf key = some name := by rw [nameOf_run hrun, hkey]
      refine ⟨?_, ?_⟩
      · exact pending_transition htransition (nameOf_step hstep) hnamed hsound hnow hstill
      · rw [← List.append_assoc]
        exact sound_transition htransition hsound

theorem unread_transition {world next : World} {name : String} {log happenings : List Happening}
    (htransition : Transition world next happenings) (hnames : next.nameOf = world.nameOf)
    (hunread : .drained ∉ log → ¬ Awaits world.nameOf name world.thread ∧
      ∀ key value, .read key name value ∉ log)
    (hdrained : .drained ∉ log ++ happenings) :
    ¬ Awaits next.nameOf name next.thread ∧
      ∀ key value, .read key name value ∉ log ++ happenings := by
  have hbefore : .drained ∉ log := fun hmem => hdrained (List.mem_append_left _ hmem)
  have hnow : .drained ∉ happenings := fun hmem => hdrained (List.mem_append_right _ hmem)
  obtain ⟨hawaits, hlog⟩ := hunread hbefore
  have hboth : (∀ key value, .read key name value ∉ happenings) →
      ∀ key value, .read key name value ∉ log ++ happenings := by
    intro hnot key value hmem
    exact (List.mem_append.mp hmem).elim (hlog key value) (hnot key value)
  rw [hnames]
  cases htransition with
  | advance hstage hafter _ _ hadvance =>
      rw [hstage] at hawaits
      rw [hafter]
      generalize next.channel = channel at hadvance
      cases hadvance with
      | endFirst | takeEnd | empty => exact absurd List.mem_cons_self hnow
      | skip hskip =>
          refine ⟨?_, hboth (by simp)⟩
          rintro ⟨hfresh, source, hmem, hname⟩
          exact hawaits ⟨hfresh, source, List.mem_cons_of_mem _ hmem, hname⟩
      | @read shutdown source other batch seen value hsource hother =>
          -- A source of the name in the batch would have been awaited.
          have hdiffers : name ≠ other := by
            rintro rfl
            exact hawaits ⟨hother, source, List.mem_cons_self, hsource⟩
          refine ⟨?_, hboth ?_⟩
          · rintro ⟨hfresh, key, hmem, hname⟩
            refine hawaits ⟨fun h => hfresh (List.mem_cons_of_mem _ h), key, ?_, hname⟩
            exact List.mem_cons_of_mem _ hmem
          · intro key value hmem
            cases List.mem_singleton.mp hmem
            exact hdiffers rfl
      | write => exact ⟨hawaits, hboth (by simp)⟩
      | _ => exact ⟨id, hboth (by simp)⟩
  | accept hthread | flag _ _ hthread | ask _ _ hthread =>
      rw [hthread]
      exact ⟨hawaits, hboth (by simp)⟩
  | quiet hthread _ _ _ hall =>
      rw [hthread]
      refine ⟨hawaits, hboth ?_⟩
      intro key value hmem
      rcases hall _ hmem with ⟨_, hcase⟩ | ⟨_, hcase⟩ | ⟨_, hcase⟩ <;> cases hcase
  | start _ _ hthread | finish _ _ _ hthread =>
      rw [hthread]
      exact ⟨id, hboth (by simp)⟩

theorem unread_run {first world : World} {name : String} {log : List Happening}
    (hrun : Run first log world) (hawaits : ¬ Awaits first.nameOf name first.thread)
    (hdrained : .drained ∉ log) :
    ¬ Awaits world.nameOf name world.thread ∧ ∀ key value, .read key name value ∉ log := by
  induction hrun with
  | refl => exact ⟨hawaits, fun _ _ => List.not_mem_nil⟩
  | step move hrun hstep ih =>
      exact unread_transition (transition_of_step hstep) (nameOf_step hstep) ih hdrained

/-- A stop that is waited for to its end, with a signal that was accepted before it began: the
thread gives nothing up on the way. -/
structure StoppedRun (key name : String) (first asked accepting last : World)
    (before after : List Happening) : Prop where
  fresh : first.Fresh
  reached : Run first before asked
  unflagged : .flagged ∉ before
  accepted : ∃ microseconds,
    asked.step (.notify key microseconds) = some (accepting, [.accepted key])
  proceeded : Run accepting after last
  returned : ∃ final, last.step .join = some (final, [.returned])
  unabandoned : .abandoned ∉ before ++ after
  named : asked.nameOf key = some name

section Stopped

variable {key name : String} {first asked accepting last : World} {before after : List Happening}

theorem StoppedRun.nameOf_accepting
    (hrun : StoppedRun key name first asked accepting last before after) :
    accepting.nameOf = asked.nameOf := by
  obtain ⟨_, hnotify⟩ := hrun.accepted
  exact nameOf_step hnotify

theorem StoppedRun.thread_accepting
    (hrun : StoppedRun key name first asked accepting last before after) :
    accepting.thread = asked.thread := by
  obtain ⟨_, hnotify⟩ := hrun.accepted
  cases made_of_step hnotify
  rfl

theorem StoppedRun.unabandoned_after
    (hrun : StoppedRun key name first asked accepting last before after) : .abandoned ∉ after :=
  fun hmem => hrun.unabandoned (List.mem_append_right _ hmem)

theorem StoppedRun.pending (hrun : StoppedRun key name first asked accepting last before after) :
    Pending key name last after ∧ Sound last (before ++ [.accepted key] ++ after) := by
  obtain ⟨_, hnotify⟩ := hrun.accepted
  have hsound := sound_run hrun.fresh hrun.reached
  have hstart := sound_transition (transition_of_step hnotify) hsound
  have hqueued : Pending key name accepting [] := by
    cases made_of_step hnotify
    exact .queued List.not_mem_nil rfl (hsound.unflagged hrun.unflagged).2
  exact pending_run hstart hrun.proceeded (hrun.nameOf_accepting ▸ hrun.named)
    hrun.unabandoned_after hqueued

theorem StoppedRun.ended (hrun : StoppedRun key name first asked accepting last before after) :
    ∃ ending, last.thread = some (.finished ending) := by
  obtain ⟨final, hjoin⟩ := hrun.returned
  cases made_of_step hjoin with
  | joined _ hthread => exact ⟨_, hthread⟩

theorem StoppedRun.served_of_underway
    (hrun : StoppedRun key name first asked accepting last before after)
    (hunderway : Underway last.nameOf name after last.thread) : Served asked.nameOf name after := by
  obtain ⟨ending, hended⟩ := hrun.ended
  rw [nameOf_run hrun.proceeded, hrun.nameOf_accepting, hended] at hunderway
  rcases hunderway with hserved | ⟨_, _, _, _, _, _, _, hstage, _⟩ | hawaits
  · exact hserved
  · cases hstage
  · exact hawaits.elim

theorem StoppedRun.served_of_drained
    (hrun : StoppedRun key name first asked accepting last before after)
    (hdrained : .drained ∈ after) : Served asked.nameOf name after := by
  obtain ⟨ending, hended⟩ := hrun.ended
  obtain ⟨hpending, hsound⟩ := hrun.pending
  cases hpending with
  | underway hunderway => exact hrun.served_of_underway hunderway
  | collected hdraining =>
      rw [hended] at hdraining
      cases hdraining
  | queued _ hqueue =>
      have hclosed := hsound.closed (by rw [hended]; trivial)
      rw [(hsound.gone hclosed).1] at hqueue
      simp at hqueue
  | lost hnot => exact absurd hdrained hnot

theorem StoppedRun.served_of_awaits
    (hrun : StoppedRun key name first asked accepting last before after)
    (hawaits : Awaits asked.nameOf name asked.thread) : Served asked.nameOf name after := by
  rw [← hrun.nameOf_accepting, ← hrun.thread_accepting] at hawaits
  exact hrun.served_of_underway
    (underway_run hrun.proceeded hrun.unabandoned_after (.inr (.inr hawaits)))

theorem StoppedRun.awaits_of_served
    (hrun : StoppedRun key name first asked accepting last before after)
    (hserved : Served asked.nameOf name after) (hdrained : .drained ∉ after) :
    Awaits asked.nameOf name asked.thread := by
  refine Classical.byContradiction fun hawaits => ?_
  rw [← hrun.nameOf_accepting, ← hrun.thread_accepting] at hawaits
  obtain ⟨source, value, head, between, tail, _, rfl⟩ := hserved
  refine (unread_run hrun.proceeded hawaits hdrained).2 source value ?_
  exact List.mem_append_right _ List.mem_cons_self

end Stopped

/-- A signal that was queued before the bridge is stopped is served by the time the stop returns if
and only if the thread ends a drain after it, or the batch that it works on when the signal comes
still has a source of the same name to read. What is queued between the last drain and the look at
the flag is left behind. -/
theorem served_iff_drained_or_awaits {key name : String} {first asked accepting last : World}
    {before after : List Happening}
    (hrun : StoppedRun key name first asked accepting last before after) :
    Served asked.nameOf name after ↔
      .drained ∈ after ∨ Awaits asked.nameOf name asked.thread := by
  constructor
  · intro hserved
    by_cases hdrained : .drained ∈ after
    · exact .inl hdrained
    · exact .inr (hrun.awaits_of_served hserved hdrained)
  · rintro (hdrained | hawaits)
    · exact hrun.served_of_drained hdrained
    · exact hrun.served_of_awaits hawaits

/-- What happens up to a signal, at the signal, after it and at the end of the stop, where all of
this can happen. -/
def stopLogs? (world : World) (key : String) (microseconds : Nat) (earlier later : List Move) :
    Option (List Happening × List Happening × List Happening × List Happening) := do
  let (asked, before) ← world.steps earlier
  let (accepting, answer) ← asked.step (.notify key microseconds)
  let (last, after) ← accepting.steps later
  let (_, final) ← last.step .join
  some (before, answer, after, final)

theorem exists_stoppedRun {first : World} {key name : String} {microseconds : Nat}
    {earlier later : List Move} {before after : List Happening} (hfresh : first.Fresh)
    (hlogs : stopLogs? first key microseconds earlier later =
      some (before, [.accepted key], after, [.returned]))
    (hflag : .flagged ∉ before) (hwell : .abandoned ∉ before ++ after)
    (hname : first.nameOf key = some name) :
    ∃ asked accepting last, StoppedRun key name first asked accepting last before after := by
  simp only [stopLogs?, Option.bind_eq_bind, Option.bind_eq_some_iff] at hlogs
  obtain ⟨⟨asked, _⟩, hearlier, ⟨accepting, _⟩, hnotify, ⟨last, _⟩, hlater, ⟨final, _⟩, hjoin,
    hall⟩ := hlogs
  cases hall
  have hreached := run_of_steps hearlier
  refine ⟨asked, accepting, last, hfresh, hreached, hflag, ⟨_, hnotify⟩, run_of_steps hlater,
    ⟨_, hjoin⟩, hwell, ?_⟩
  rw [nameOf_run hreached, hname]

def counter (name : String) : Metric :=
  ⟨name, .counter, .item, .numeric .i64, .i64 0⟩

/-- A bridge that was just made, with the sources of the two counters of a started writer. -/
def twoCounters : World where
  site.bridge :=
    { config := ⟨2, .ofSeconds 10, "bridge"⟩
      channel := .ofCapacity 2
      started := false
      thread := none
      stop := false
      running := false
      applied := 0
      overflow := .none }
  site.writer :=
    { Writer.ofPath "file" .legacy with
      metrics := [counter "first", counter "second"]
      index := [("second", 1), ("first", 0)]
      phase := .started
      layout := some ⟨32, [⟨none, none, 16⟩, ⟨none, none, 24⟩], [⟨.values, 16, 2⟩], by decide⟩
      file := some ⟨"file", ["file"], 32⟩
      generation := 1 }
  site.volume := ⟨[(["file"], .file (.zeros 32))]⟩
  site.monitors := [("first", .counter "first" .item 3), ("second", .counter "second" .item 5)]
  owner := .idle

theorem fresh_twoCounters : twoCounters.Fresh :=
  ⟨⟨⟨2, .ofSeconds 10, "bridge"⟩, rfl⟩, rfl⟩

/-- A signal that comes while the thread empties the queue is served. -/
theorem served_while_draining : ∃ asked accepting last before after,
    StoppedRun "second" "second" twoCounters asked accepting last before after ∧
      Served asked.nameOf "second" after := by
  have hlogs : stopLogs? twoCounters "second" 0 [.notify "first" 0, .start, .thread]
      ([.raiseFlag, .askToEnd] ++ List.replicate 10 .thread) =
      some ([.accepted "first", .started, .took "first"], [.accepted "second"],
        [.flagged, .asked, .took "second", .drained, .read "first" "first" (.i64 3),
          .wrote "first" (.i64 3), .read "second" "second" (.i64 5), .wrote "second" (.i64 5),
          .closed], [.returned]) := by
    decide +kernel
  obtain ⟨asked, accepting, last, hrun⟩ :=
    exists_stoppedRun fresh_twoCounters hlogs (by decide) (by decide)
      (show twoCounters.nameOf "second" = some "second" by decide)
  exact ⟨asked, accepting, last, _, _, hrun,
    (served_iff_drained_or_awaits hrun).mpr (.inl (by decide))⟩

/-- Not every signal that was queued before the bridge is stopped is served: one that comes while
the thread works on a batch is left behind when the flag is raised before the batch ends. -/
theorem not_served_while_applying : ¬ ∀ key name first asked accepting last before after,
    StoppedRun key name first asked accepting last before after →
      Served asked.nameOf name after := by
  intro hall
  have hlogs : stopLogs? twoCounters "second" 0
      [.notify "first" 0, .start, .thread, .thread, .thread]
      ([.thread, .raiseFlag, .askToEnd] ++ List.replicate 4 .thread) =
      some ([.accepted "first", .started, .took "first", .drained, .read "first" "first" (.i64 3)],
        [.accepted "second"], [.wrote "first" (.i64 3), .flagged, .asked, .closed],
        [.returned]) := by
    decide +kernel
  obtain ⟨asked, accepting, last, hrun⟩ :=
    exists_stoppedRun fresh_twoCounters hlogs (by decide) (by decide)
      (show twoCounters.nameOf "second" = some "second" by decide)
  obtain ⟨key, value, head, between, tail, _, hlog⟩ := hall _ _ _ _ _ _ _ _ hrun
  have hread : .read key "second" value ∈
      head ++ .read key "second" value :: (between ++ .wrote "second" value :: tail) :=
    List.mem_append_right _ List.mem_cons_self
  rw [← hlog] at hread
  simp at hread

end MappedMetrics.Proofs.BridgeStopping
