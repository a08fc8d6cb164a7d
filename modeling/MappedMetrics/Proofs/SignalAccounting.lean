import MappedMetrics.Proofs.BridgeEffects
import MappedMetrics.Proofs.BridgeStopping

namespace MappedMetrics.Proofs.SignalAccounting

open MappedMetrics
open MappedMetrics.Proofs.BridgeInterleaving
open MappedMetrics.Proofs.BridgeEffects
open MappedMetrics.Proofs.BridgeStopping

/-- The keys of the changes that a queue holds. -/
def changes (queue : List Signal) : List String :=
  queue.filterMap fun
    | .changed key => some key
    | .shutdown => none

/-- The signals of the batch at hand that are still to be looked at. -/
def remaining : Option Stage → List String
  | some (.draining batch) | some (.applying _ batch _) | some (.writing _ batch _ _ _) => batch
  | _ => []

/-- How many signals of the batch at hand are not yet dealt with. The one whose value is about to
be written is among them. -/
def inHand : Option Stage → Nat
  | some (.writing _ batch _ _ _) => batch.length + 1
  | thread => (remaining thread).length

/-- The names that were read for the batch at hand. -/
def namesRead : Option Stage → Option (List String)
  | some (.applying _ _ seen) | some (.writing _ _ seen _ _) => some seen
  | _ => none

structure Ledger where
  accepted : List String
  taken : List String
  names : List String
  applied : Nat
  duplicates : Nat
  discarded : Nat
  dropped : Nat
deriving DecidableEq, Repr

namespace Ledger

def empty : Ledger :=
  ⟨[], [], [], 0, 0, 0, 0⟩

/-- Enters what happened in a world. An update counts if it succeeds, and a skipped signal if its
name was read for the same batch. A thread that gives up discards the batch at hand, and one that
drops the receiving end discards what is queued. -/
def enter (world : World) (ledger : Ledger) : Happening → Ledger
  | .accepted key => { ledger with accepted := ledger.accepted ++ [key] }
  | .dropped _ =>
      if world.channel.capacity ≤ world.channel.queue.length then
        { ledger with dropped := ledger.dropped + 1 }
      else ledger
  | .took key => { ledger with taken := ledger.taken ++ [key] }
  | .drained => { ledger with names := [] }
  | .read _ name _ => { ledger with names := name :: ledger.names }
  | .skipped key =>
      if (world.nameOf key).any ledger.names.contains then
        { ledger with duplicates := ledger.duplicates + 1 }
      else ledger
  | .wrote name value =>
      if (world.site.writer.updated world.site.volume name value).isOk then
        { ledger with applied := ledger.applied + 1 }
      else ledger
  | .abandoned => { ledger with discarded := ledger.discarded + inHand world.thread }
  | .closed => { ledger with discarded := ledger.discarded + (changes world.channel.queue).length }
  | _ => ledger

def enterAll (world : World) (ledger : Ledger) (happenings : List Happening) : Ledger :=
  happenings.foldl (enter world) ledger

end Ledger

/-- The world after moves, with the ledger that was kept on the way. -/
def account (world : World) (ledger : Ledger) : List Move → Option (World × Ledger)
  | [] => some (world, ledger)
  | move :: moves =>
      match world.step move with
      | none => none
      | some (next, happenings) => account next (ledger.enterAll world happenings) moves

/-- Where the signals are, with the names of the sources, the queue and the stage of the thread. -/
structure Placed (nameOf : String → Option String) (channel : Channel Signal)
    (thread : Option Stage) (ledger : Ledger) : Prop where
  signals : ledger.accepted.length = (changes channel.queue).length + inHand thread +
    ledger.applied + ledger.duplicates + ledger.discarded
  /-- What is queued was accepted after all that was taken. -/
  ordered : channel.isOpen = true → ledger.accepted = ledger.taken ++ changes channel.queue
  taken : ledger.taken <+: ledger.accepted
  batch : remaining thread <:+ ledger.taken
  closed : channel.isOpen = false → channel.queue = []
  names : ∀ seen ∈ namesRead thread, seen = ledger.names
  named : ∀ key, key ∈ changes channel.queue ∨ key ∈ remaining thread → (nameOf key).isSome

/-- The signals are accounted for, the counters of the bridge are the words of the exact counts, and
the queue keeps its bound. -/
structure Balanced (world : World) (ledger : Ledger) : Prop where
  placed : Placed world.nameOf world.channel world.thread ledger
  applied : world.site.bridge.applied = UInt64.ofNat ledger.applied
  dropped : world.site.bridge.overflow.dropped = UInt64.ofNat ledger.dropped
  capacity : world.channel.capacity = world.site.bridge.config.capacity
  bounded : world.channel.queue.length ≤ world.site.bridge.config.capacity

@[simp] theorem changes_nil : changes [] = [] := rfl

@[simp] theorem changes_cons_changed (key : String) (queue : List Signal) :
    changes (.changed key :: queue) = key :: changes queue := rfl

@[simp] theorem changes_cons_shutdown (queue : List Signal) :
    changes (.shutdown :: queue) = changes queue := rfl

@[simp] theorem changes_append (first second : List Signal) :
    changes (first ++ second) = changes first ++ changes second :=
  List.filterMap_append

section Step

variable {world next : World} {ledger : Ledger} {move : Move} {happenings : List Happening}

theorem open_of_queue {nameOf : String → Option String} {channel : Channel Signal}
    {thread : Option Stage} (hplaced : Placed nameOf channel thread ledger) {signal : Signal}
    {rest : List Signal} (hqueue : channel.queue = signal :: rest) : channel.isOpen = true := by
  cases hopen : channel.isOpen with
  | true => rfl
  | false =>
      have hempty := hplaced.closed hopen
      rw [hqueue] at hempty
      cases hempty

theorem any_names_of_skip {nameOf : String → Option String} {key : String} {names : List String}
    (hnamed : (nameOf key).isSome) (hskip : ∀ name, nameOf key = some name → name ∈ names) :
    (nameOf key).any names.contains = true := by
  obtain ⟨name, hname⟩ := Option.isSome_iff_exists.mp hnamed
  simpa [hname] using hskip name hname

theorem placed_of_take {nameOf : String → Option String} {channel : Channel Signal}
    {thread : Option Stage} {key : String} {rest : List Signal}
    (hplaced : Placed nameOf channel thread ledger) (hqueue : channel.queue = .changed key :: rest)
    (hhand : inHand thread = (remaining thread).length) :
    Placed nameOf { channel with queue := rest } (some (.draining (remaining thread ++ [key])))
      { ledger with taken := ledger.taken ++ [key] } := by
  have hopen := open_of_queue hplaced hqueue
  obtain ⟨hsignals, hordered, -, hbatch, -, -, hnamed⟩ := hplaced
  have hsplit := hordered hopen
  simp only [hqueue, changes_cons_changed] at hsignals hsplit hnamed
  constructor
  · simp only [inHand, remaining, List.length_append, List.length_cons, List.length_nil] at *
    omega
  · intro _
    simp [hsplit]
  · exact ⟨changes rest, by simp [hsplit]⟩
  · obtain ⟨earlier, hearlier⟩ := hbatch
    exact ⟨earlier, by simp [remaining, ← hearlier]⟩
  · intro hclosed
    rw [hopen] at hclosed
    cases hclosed
  · simp [namesRead]
  · rintro other (hmem | hmem)
    · exact hnamed other (.inl (List.mem_cons_of_mem _ hmem))
    · rcases List.mem_append.mp hmem with hmem | hmem
      · exact hnamed other (.inr hmem)
      · exact hnamed other (.inl (by simp_all))

theorem placed_of_drained {nameOf : String → Option String} {channel : Channel Signal}
    {thread : Option Stage} {shutdown : Bool} {queue : List Signal}
    (hplaced : Placed nameOf channel thread ledger)
    (hqueue : channel.queue = .shutdown :: queue ∨ channel.queue = [] ∧ queue = [])
    (hhand : inHand thread = (remaining thread).length) :
    Placed nameOf { channel with queue := queue }
      (some (.applying shutdown (remaining thread) [])) { ledger with names := [] } := by
  have hchanges : changes queue = changes channel.queue := by
    rcases hqueue with hqueue | ⟨hqueue, rfl⟩ <;> rw [hqueue, changes]
    rfl
  obtain ⟨hsignals, hordered, htaken, hbatch, hclosed, -, hnamed⟩ := hplaced
  constructor
  · rw [hhand] at hsignals
    rw [hchanges]
    exact hsignals
  · rw [hchanges]
    exact hordered
  · exact htaken
  · exact hbatch
  · intro hgone
    have hempty := hclosed hgone
    simp_all
  · simp [namesRead]
  · rw [hchanges]
    exact hnamed

theorem placed_of_batch {nameOf : String → Option String} {channel : Channel Signal}
    {thread after : Option Stage} {later : Ledger} (hplaced : Placed nameOf channel thread ledger)
    (haccepted : later.accepted = ledger.accepted) (htook : later.taken = ledger.taken)
    (hhand : inHand after + later.applied + later.duplicates + later.discarded =
      inHand thread + ledger.applied + ledger.duplicates + ledger.discarded)
    (hremaining : remaining after <:+ remaining thread)
    (hnames : ∀ seen ∈ namesRead after, seen = later.names) :
    Placed nameOf channel after later := by
  obtain ⟨hsignals, hordered, htaken, hbatch, hclosed, -, hnamed⟩ := hplaced
  constructor
  · rw [haccepted]
    omega
  · rwa [haccepted, htook]
  · rwa [haccepted, htook]
  · rw [htook]
    exact hremaining.trans hbatch
  · exact hclosed
  · exact hnames
  · rintro key (hmem | hmem)
    · exact hnamed key (.inl hmem)
    · exact hnamed key (.inr (hremaining.subset hmem))

theorem placed_of_close {nameOf : String → Option String} {channel : Channel Signal}
    {ending : Ending} (hplaced : Placed nameOf channel (some (.leaving ending)) ledger) :
    Placed nameOf channel.close (some (.released ending))
      { ledger with discarded := ledger.discarded + (changes channel.queue).length } := by
  obtain ⟨hsignals, -, htaken, hbatch, -, -, -⟩ := hplaced
  constructor
  · simp only [Channel.close, changes_nil, List.length_nil, inHand, remaining] at *
    omega
  · intro hopen
    cases hopen
  · exact htaken
  · exact hbatch
  · intro _
    rfl
  · simp [namesRead]
  · simp [Channel.close, remaining]

theorem placed_of_advance {stop : Bool} {stage after : Stage} {channel : Channel Signal}
    (hplaced : Placed world.nameOf world.channel world.thread ledger)
    (hstage : world.thread = some stage)
    (hwrote : ∀ name value, .wrote name value ∈ happenings →
      (world.site.writer.updated world.site.volume name value).isOk)
    (hadvance : Advance world.nameOf stop world.channel stage happenings channel after) :
    Placed world.nameOf channel (some after) (ledger.enterAll world happenings) := by
  rw [hstage] at hplaced
  cases hadvance with
  | takeFirst hqueue | take hqueue => exact placed_of_take hplaced hqueue rfl
  | endFirst hqueue | takeEnd hqueue => exact placed_of_drained hplaced (.inl hqueue) rfl
  | empty hqueue =>
      have hsame : world.channel = { world.channel with queue := [] } := by rw [← hqueue]
      rw [hsame]
      exact placed_of_drained hplaced (.inr ⟨hqueue, rfl⟩) rfl
  | @skip shutdown key batch seen hskip =>
      have hnames : seen = ledger.names := hplaced.names seen rfl
      have hnamed := hplaced.named key (.inr List.mem_cons_self)
      -- The name was read for this batch before, so the ledger enters a duplicate.
      have hany := any_names_of_skip hnamed (hnames ▸ hskip)
      have hentered : ledger.enterAll world [.skipped key] =
          { ledger with duplicates := ledger.duplicates + 1 } := by
        simp [Ledger.enterAll, Ledger.enter, hany]
      rw [hentered]
      refine placed_of_batch hplaced rfl rfl ?_ (List.suffix_cons key batch) ?_
      · simp only [inHand, remaining, List.length_cons]
        omega
      · simpa [namesRead] using hnames
  | @read shutdown key name batch seen value hkey hfresh =>
      have hnames : seen = ledger.names := hplaced.names seen rfl
      refine placed_of_batch hplaced rfl rfl rfl (List.suffix_cons key batch) ?_
      simp [namesRead, Ledger.enterAll, Ledger.enter, hnames]
  | @write shutdown batch seen name value =>
      have hnames : seen = ledger.names := hplaced.names seen rfl
      have hentered : ledger.enterAll world [.wrote name value] =
          { ledger with applied := ledger.applied + 1 } := by
        simp [Ledger.enterAll, Ledger.enter, hwrote name value List.mem_cons_self]
      rw [hentered]
      refine placed_of_batch hplaced rfl rfl ?_ (List.suffix_refl _) ?_
      · simp only [inHand, remaining]
        omega
      · simpa [namesRead] using hnames
  | giveUp | fail =>
      refine placed_of_batch hplaced rfl rfl ?_ List.nil_suffix (by simp [namesRead])
      simp only [Ledger.enterAll, Ledger.enter, List.foldl_cons, List.foldl_nil, hstage, inHand,
        remaining, List.length_nil]
      omega
  | close => exact placed_of_close hplaced
  | applied | leave | again | finish =>
      exact placed_of_batch hplaced rfl rfl rfl List.nil_suffix (by simp [namesRead])

theorem placed_of_accept {nameOf : String → Option String} {channel : Channel Signal}
    {thread : Option Stage} {key : String} (hplaced : Placed nameOf channel thread ledger)
    (hopen : channel.isOpen = true) (hkey : (nameOf key).isSome) :
    Placed nameOf { channel with queue := channel.queue ++ [.changed key] } thread
      { ledger with accepted := ledger.accepted ++ [key] } := by
  obtain ⟨hsignals, hordered, htaken, hbatch, -, hnames, hnamed⟩ := hplaced
  constructor
  · simp only [changes_append, changes_cons_changed, changes_nil, List.length_append,
      List.length_singleton]
    omega
  · intro _
    simp [hordered hopen]
  · exact htaken.trans (List.prefix_append _ _)
  · exact hbatch
  · intro hclosed
    rw [hopen] at hclosed
    cases hclosed
  · exact hnames
  · rintro other (hmem | hmem)
    · simp only [changes_append, changes_cons_changed, changes_nil, List.mem_append,
        List.mem_singleton] at hmem
      rcases hmem with hmem | rfl
      · exact hnamed other (.inl hmem)
      · exact hkey
    · exact hnamed other (.inr hmem)

theorem placed_of_ask {nameOf : String → Option String} {channel : Channel Signal}
    {thread : Option Stage} (hplaced : Placed nameOf channel thread ledger) :
    Placed nameOf (channel.send .shutdown).1 thread ledger := by
  rw [Channel.send]
  split
  · exact hplaced
  · rename_i hopen
    split
    · exact hplaced
    · obtain ⟨hsignals, hordered, htaken, hbatch, -, hnames, hnamed⟩ := hplaced
      have hsame : changes (channel.queue ++ [.shutdown]) = changes channel.queue := by simp
      constructor
      · rwa [hsame]
      · rwa [hsame]
      · exact htaken
      · exact hbatch
      · intro hclosed
        exact absurd hclosed (by simpa using hopen)
      · exact hnames
      · rwa [hsame]

theorem placed_of_quiet {nameOf : String → Option String} {channel : Channel Signal}
    {thread : Option Stage} (hplaced : Placed nameOf channel thread ledger)
    (hquiet : ∀ happening ∈ happenings, (∃ key, happening = .dropped key) ∨
      (∃ key, happening = .unheard key) ∨ ∃ fault, happening = .startRefused fault) :
    Placed nameOf channel thread (ledger.enterAll world happenings) := by
  induction happenings generalizing ledger with
  | nil => exact hplaced
  | cons happening happenings ih =>
      apply ih
      · rcases hquiet happening List.mem_cons_self with ⟨key, rfl⟩ | ⟨key, rfl⟩ | ⟨fault, rfl⟩
        · simp only [Ledger.enter]
          split
          · exact { hplaced with }
          · exact hplaced
        · exact hplaced
        · exact hplaced
      · intro other hmem
        exact hquiet other (List.mem_cons_of_mem _ hmem)

theorem placed_of_step (hplaced : Placed world.nameOf world.channel world.thread ledger)
    (hstep : world.step move = some (next, happenings)) :
    Placed next.nameOf next.channel next.thread (ledger.enterAll world happenings) := by
  rw [nameOf_step hstep]
  cases transition_of_step hstep with
  | advance hstage hafter _ _ hadvance =>
      rw [hafter]
      refine placed_of_advance hplaced hstage ?_ hadvance
      intro name value hmem
      obtain ⟨_, _, hwrote, hupdated, -⟩ | ⟨hquiet, -⟩ := wrote_of_step hstep
      · rw [hwrote, List.mem_singleton, Happening.wrote.injEq] at hmem
        rw [hmem.1, hmem.2, hupdated]
        rfl
      · exact absurd hmem (hquiet name value)
  | accept hthread _ _ hopen hchannel =>
      rw [hthread, hchannel]
      exact placed_of_accept hplaced hopen (accepted_of_step hstep List.mem_cons_self).1
  | quiet hthread _ _ hchannel hquiet =>
      rw [hthread, hchannel]
      exact placed_of_quiet hplaced hquiet
  | start hthread _ hreceiving _ _ hchannel =>
      rw [hthread] at hplaced
      rw [hreceiving, hchannel]
      exact placed_of_batch hplaced rfl rfl rfl List.nil_suffix (by simp [namesRead])
  | flag _ _ hthread _ hchannel =>
      rw [hthread, hchannel]
      exact hplaced
  | ask _ _ hthread _ hchannel =>
      rw [hthread, hchannel]
      exact placed_of_ask hplaced
  | finish _ _ hended hthread _ hchannel =>
      rw [hended] at hplaced
      rw [hthread, hchannel]
      exact placed_of_batch hplaced rfl rfl rfl List.nil_suffix (by simp [namesRead])

theorem enterAll_same {count : Ledger → Nat}
    (hsame : ∀ ledger : Ledger, ∀ happening ∈ happenings,
      count (ledger.enter world happening) = count ledger) :
    count (ledger.enterAll world happenings) = count ledger := by
  induction happenings generalizing ledger with
  | nil => rfl
  | cons happening happenings ih =>
      have hfirst := hsame ledger happening List.mem_cons_self
      have hlater := fun ledger other hmem => hsame ledger other (List.mem_cons_of_mem _ hmem)
      exact (ih hlater).trans hfirst

theorem applied_enterAll (hquiet : ∀ name value, .wrote name value ∉ happenings) :
    (ledger.enterAll world happenings).applied = ledger.applied := by
  apply enterAll_same
  rintro ledger happening hmem
  cases happening with
  | wrote name value => exact absurd hmem (hquiet name value)
  | skipped | dropped =>
      simp only [Ledger.enter]
      split <;> rfl
  | _ => rfl

theorem dropped_enterAll (hquiet : ∀ key, .dropped key ∉ happenings) :
    (ledger.enterAll world happenings).dropped = ledger.dropped := by
  apply enterAll_same
  rintro ledger happening hmem
  cases happening with
  | dropped key => exact absurd hmem (hquiet key)
  | skipped | wrote =>
      simp only [Ledger.enter]
      split <;> rfl
  | _ => rfl

theorem applied_of_step (hstep : world.step move = some (next, happenings))
    (happlied : world.site.bridge.applied = UInt64.ofNat ledger.applied) :
    next.site.bridge.applied = UInt64.ofNat (ledger.enterAll world happenings).applied := by
  obtain ⟨name, value, rfl, hupdated, hcount⟩ | ⟨hquiet, hcount⟩ := wrote_of_step hstep
  · have hok : (world.site.writer.updated world.site.volume name value).isOk = true := by
      rw [hupdated]
      rfl
    simp [Ledger.enterAll, Ledger.enter, hok, hcount, happlied]
  · rw [hcount, applied_enterAll hquiet, happlied]

theorem dropped_enterAll_of_step (hstep : world.step move = some (next, happenings))
    (hdropped : world.site.bridge.overflow.dropped = UInt64.ofNat ledger.dropped) :
    next.site.bridge.overflow.dropped =
      UInt64.ofNat (ledger.enterAll world happenings).dropped := by
  rcases dropped_of_step hstep with ⟨key, rfl, hfull, hcount⟩ | ⟨hquiet, hcount⟩
  · simp [Ledger.enterAll, Ledger.enter, hfull, hcount, hdropped]
  · rw [hcount, dropped_enterAll hquiet, hdropped]

theorem capacity_of_step (hstep : world.step move = some (next, happenings)) :
    next.channel.capacity = world.channel.capacity := by
  cases transition_of_step hstep with
  | advance _ _ _ _ hadvance =>
      generalize next.channel = channel at hadvance
      cases hadvance <;> rfl
  | accept _ _ _ _ hchannel | quiet _ _ _ hchannel | start _ _ _ _ _ hchannel
  | flag _ _ _ _ hchannel | finish _ _ _ _ _ hchannel => rw [hchannel]
  | ask _ _ _ _ hchannel => rw [hchannel, Channel.capacity_send]

theorem bounded_of_step (hstep : world.step move = some (next, happenings))
    (hbounded : world.channel.queue.length ≤ world.channel.capacity) :
    next.channel.queue.length ≤ next.channel.capacity := by
  cases transition_of_step hstep with
  | advance _ _ _ _ hadvance =>
      generalize next.channel = channel at hadvance
      cases hadvance with
      | takeFirst hqueue | endFirst hqueue | take hqueue | takeEnd hqueue =>
          rw [hqueue, List.length_cons] at hbounded
          exact Nat.le_of_succ_le hbounded
      | close => exact Nat.zero_le _
      | _ => exact hbounded
  | accept _ _ _ _ hchannel =>
      have hroom := (accepted_of_step hstep List.mem_cons_self).2
      rw [hchannel]
      simp only [List.length_append, List.length_singleton]
      omega
  | quiet _ _ _ hchannel | start _ _ _ _ _ hchannel | flag _ _ _ _ hchannel
  | finish _ _ _ _ _ hchannel =>
      rw [hchannel]
      exact hbounded
  | ask _ _ _ _ hchannel =>
      rw [hchannel]
      exact Channel.length_queue_send_le .shutdown hbounded

theorem balanced_of_step (hbalanced : Balanced world ledger)
    (hstep : world.step move = some (next, happenings)) :
    Balanced next (ledger.enterAll world happenings) := by
  obtain ⟨hplaced, happlied, hdropped, hcapacity, hbounded⟩ := hbalanced
  have hkept := capacity_of_step hstep
  have hwithin := bounded_of_step hstep (hcapacity ▸ hbounded)
  have hconfig := config_of_step hstep
  constructor
  · exact placed_of_step hplaced hstep
  · exact applied_of_step hstep happlied
  · exact dropped_enterAll_of_step hstep hdropped
  · rw [hkept, hcapacity, hconfig]
  · rwa [hconfig, ← hcapacity, ← hkept]

end Step

theorem balanced_of_fresh {world : World} (hfresh : world.Fresh) : Balanced world .empty := by
  obtain ⟨config, _, hbridge⟩ := bridge_of_fresh hfresh
  have hthread : world.thread = none := by rw [World.thread, hbridge]
  have hchannel : world.channel = .ofCapacity config.capacity := by rw [World.channel, hbridge]
  constructor
  · rw [hthread, hchannel]
    constructor <;> simp [Ledger.empty, Channel.ofCapacity, inHand, remaining, namesRead]
  · rw [hbridge]
    rfl
  · rw [hbridge]
    rfl
  · rw [hchannel, hbridge]
    rfl
  · rw [hchannel]
    exact Nat.zero_le _

theorem balanced_of_moves {first world : World} {before ledger : Ledger} {moves : List Move}
    (hbalanced : Balanced first before)
    (haccount : account first before moves = some (world, ledger)) : Balanced world ledger := by
  induction moves generalizing first before with
  | nil =>
      cases haccount
      exact hbalanced
  | cons move moves ih =>
      simp only [account] at haccount
      split at haccount
      · cases haccount
      · rename_i next happenings hstep
        exact ih (balanced_of_step hbalanced hstep) haccount

/-- Whatever the threads do, and in whatever order, no signal is lost or counted twice: each one
that was accepted is queued, at hand, applied, a duplicate or discarded. Signals come into batches
in the order in which they were accepted, the queue never holds more than the capacity, and the
counters of the bridge count, modulo 2⁶⁴, the updates that succeeded and the signals that found the
queue full. -/
theorem balanced_of_account {first world : World} {ledger : Ledger} {moves : List Move}
    (hfresh : first.Fresh) (haccount : account first .empty moves = some (world, ledger)) :
    Balanced world ledger :=
  balanced_of_moves (balanced_of_fresh hfresh) haccount

/-- Of four signals one finds the queue full, one is applied, one is its duplicate, and one comes
too late for the batch. -/
theorem balanced_twoCounters : ∃ world ledger,
    account twoCounters .empty
      ([.notify "first" 0, .notify "first" 0, .notify "second" 0, .start] ++
        List.replicate 6 .thread ++ [.notify "second" 0, .raiseFlag] ++ List.replicate 3 .thread) =
          some (world, ledger) ∧
      ledger = ⟨["first", "first", "second"], ["first", "first"], ["first"], 1, 1, 1, 1⟩ ∧
      Balanced world ledger := by
  have hledger : (account twoCounters .empty ([.notify "first" 0, .notify "first" 0,
      .notify "second" 0, .start] ++ List.replicate 6 .thread ++ [.notify "second" 0, .raiseFlag] ++
      List.replicate 3 .thread)).map Prod.snd =
        some ⟨["first", "first", "second"], ["first", "first"], ["first"], 1, 1, 1, 1⟩ := by
    decide +kernel
  obtain ⟨⟨world, ledger⟩, haccount, hvalue⟩ := Option.map_eq_some_iff.mp hledger
  exact ⟨world, ledger, haccount, hvalue, balanced_of_account fresh_twoCounters haccount⟩

end MappedMetrics.Proofs.SignalAccounting
