import MappedMetrics.Proofs.BridgeInterleaving

namespace MappedMetrics.Proofs.BridgeEffects

open MappedMetrics
open MappedMetrics.Proofs.BridgeInterleaving

/-- What a step of the thread does besides taking signals: it reads a source, or puts into the file
what it read, or neither. -/
inductive Effect (before after : Site) : Stage → Stage → Prop where
  | read {shutdown : Bool} {key : String} {batch seen : List String} {monitor : Monitor}
      {value : MetricValue} :
      before.monitor? key = some monitor → monitor.current = .ok value →
      after.volume = before.volume → after.bridge.applied = before.bridge.applied →
        Effect before after (.applying shutdown (key :: batch) seen)
          (.writing shutdown batch (monitor.name :: seen) monitor.name value)
  | write {shutdown : Bool} {batch seen : List String} {name : String} {value : MetricValue} :
      before.writer.updated before.volume name value = .ok after.volume →
      after.bridge.applied = before.bridge.applied + 1 →
        Effect before after (.writing shutdown batch seen name value)
          (.applying shutdown batch seen)
  | neither {stage next : Stage} :
      after.volume = before.volume → after.bridge.applied = before.bridge.applied →
      (∀ shutdown batch seen name value, next ≠ .writing shutdown batch seen name value) →
      (∀ name value, .wrote name value ∉ report stage next) →
        Effect before after stage next

/-- What a step of the thread leaves as it is. -/
structure Spared (before after : Site) : Prop where
  writer : after.writer = before.writer
  monitors : after.monitors = before.monitors
  config : after.bridge.config = before.bridge.config
  overflow : after.bridge.overflow = before.bridge.overflow

theorem effect_of_stepApplying {site next : Site} {shutdown : Bool} {batch seen : List String}
    {events : List Event} (hnext : site.stepApplying shutdown batch seen = (next, events)) :
    ∃ after, next.bridge.thread = some after ∧ Spared site next ∧
      Effect site next (.applying shutdown batch seen) after := by
  rcases batch with _ | ⟨key, batch⟩
  · cases hnext
    exact ⟨_, rfl, ⟨rfl, rfl, rfl, rfl⟩, .neither rfl rfl (by simp) (by simp [report])⟩
  · simp only [Site.stepApplying] at hnext
    split at hnext
    · cases hnext
      exact ⟨_, rfl, ⟨rfl, rfl, rfl, rfl⟩, .neither rfl rfl (by simp) (by simp [report])⟩
    · rename_i monitor hmonitor
      split at hnext
      · cases hnext
        exact ⟨_, rfl, ⟨rfl, rfl, rfl, rfl⟩, .neither rfl rfl (by simp) (by simp [report])⟩
      · split at hnext
        · rename_i value hvalue
          cases hnext
          exact ⟨_, rfl, ⟨rfl, rfl, rfl, rfl⟩, .read hmonitor hvalue rfl rfl⟩
        · cases hnext
          exact ⟨_, rfl, ⟨rfl, rfl, rfl, rfl⟩, .neither rfl rfl (by simp) (by simp [report])⟩

theorem effect_of_stepWriting {site next : Site} {shutdown : Bool} {batch seen : List String}
    {name : String} {value : MetricValue} {events : List Event}
    (hnext : site.stepWriting shutdown batch seen name value = (next, events)) :
    ∃ after, next.bridge.thread = some after ∧ Spared site next ∧
      Effect site next (.writing shutdown batch seen name value) after := by
  simp only [Site.stepWriting] at hnext
  split at hnext
  · rename_i volume hvolume
    cases hnext
    exact ⟨_, rfl, ⟨rfl, rfl, rfl, rfl⟩, .write hvolume rfl⟩
  all_goals
    cases hnext
    exact ⟨_, rfl, ⟨rfl, rfl, rfl, rfl⟩, .neither rfl rfl (by simp) (by simp [report])⟩

theorem effect_of_stepFrom {site next : Site} {stage : Stage} {events : List Event}
    (hstep : site.stepFrom stage = some (next, events)) :
    ∃ after, next.bridge.thread = some after ∧ Spared site next ∧ Effect site next stage after := by
  rcases stage with _ | batch | ⟨shutdown, batch, seen⟩ | ⟨shutdown, batch, seen, name, value⟩ |
    shutdown | ending | ending | ending
  · simp only [Site.stepFrom] at hstep
    split at hstep
    · cases hstep
    all_goals
      cases hstep
      exact ⟨_, rfl, ⟨rfl, rfl, rfl, rfl⟩, .neither rfl rfl (by simp) (by simp [report])⟩
  · simp only [Site.stepFrom] at hstep
    split at hstep
    all_goals
      cases hstep
      exact ⟨_, rfl, ⟨rfl, rfl, rfl, rfl⟩, .neither rfl rfl (by simp) (by simp [report])⟩
  · simp only [Site.stepFrom, Option.some.injEq] at hstep
    exact effect_of_stepApplying hstep
  · simp only [Site.stepFrom, Option.some.injEq] at hstep
    exact effect_of_stepWriting hstep
  · simp only [Site.stepFrom] at hstep
    split at hstep
    all_goals
      cases hstep
      exact ⟨_, rfl, ⟨rfl, rfl, rfl, rfl⟩, .neither rfl rfl (by simp) (by simp [report])⟩
  · cases hstep
    exact ⟨_, rfl, ⟨rfl, rfl, rfl, rfl⟩, .neither rfl rfl (by simp) (by simp [report])⟩
  · cases hstep
    exact ⟨_, rfl, ⟨rfl, rfl, rfl, rfl⟩, .neither rfl rfl (by simp) (by simp [report])⟩
  · cases hstep

/-- What other moves than the thread's leave as it is. -/
structure Still (before after : Site) : Prop where
  volume : after.volume = before.volume
  applied : after.bridge.applied = before.bridge.applied
  config : after.bridge.config = before.bridge.config

/-- What the owner of a bridge does to it. -/
def OfOwner : Happening → Prop
  | .started | .startRefused _ | .flagged | .asked | .returned => True
  | _ => False

/-- What a move does to the files and the counters. -/
inductive Deed (world next : World) : List Happening → Prop where
  | thread {stage after : Stage} :
      world.thread = some stage → next.thread = some after → Spared world.site next.site →
      Effect world.site next.site stage after → Deed world next (report stage after)
  | accept {key : String} :
      (world.nameOf key).isSome → world.channel.queue.length < world.channel.capacity →
      Still world.site next.site → next.site.bridge.overflow = world.site.bridge.overflow →
        Deed world next [.accepted key]
  | drop {key : String} :
      world.channel.capacity ≤ world.channel.queue.length → Still world.site next.site →
      next.site.bridge.overflow.dropped = world.site.bridge.overflow.dropped + 1 →
        Deed world next [.dropped key]
  | unheard {key : String} :
      Still world.site next.site → next.site.bridge.overflow = world.site.bridge.overflow →
        Deed world next [.unheard key]
  | owner {happenings : List Happening} :
      Still world.site next.site → next.site.bridge.overflow = world.site.bridge.overflow →
      (∀ happening ∈ happenings, OfOwner happening) → Deed world next happenings

theorem dropped_record (overflow : Overflow) (interval : Duration) (microseconds : Nat) :
    (overflow.record interval microseconds).1.dropped = overflow.dropped + 1 := by
  simp only [Overflow.record, Overflow.exchange]
  split <;> rfl

theorem deed_of_step {world next : World} {move : Move} {happenings : List Happening}
    (hstep : world.step move = some (next, happenings)) : Deed world next happenings := by
  cases made_of_step hstep with
  | queued hnamed _ hroom => exact .accept hnamed hroom ⟨rfl, rfl, rfl⟩ rfl
  | full _ _ hfull => exact .drop hfull ⟨rfl, rfl, rfl⟩ (dropped_record _ _ _)
  | unheard => exact .unheard ⟨rfl, rfl, rfl⟩ rfl
  | advanced hthread hsite hafter =>
      obtain ⟨reached, hreached, hspared, heffect⟩ := effect_of_stepFrom hsite
      obtain rfl := Option.some.inj (hafter.symm.trans hreached)
      exact .thread hthread hafter hspared heffect
  | changed | started | startRefused | flagged | asked | joined | marked | released =>
      exact .owner ⟨rfl, rfl, rfl⟩ rfl (by simp [OfOwner])

theorem report_cases {stage after : Stage} {happening : Happening}
    (hmem : happening ∈ report stage after) :
    ¬ OfOwner happening ∧ ∀ key, happening ≠ .accepted key ∧ happening ≠ .dropped key := by
  unfold report at hmem
  split at hmem
  · obtain ⟨key, _, rfl⟩ := List.mem_map.mp hmem
    simp [OfOwner]
  · simp_all [OfOwner]
  · obtain ⟨key, _, rfl⟩ := List.mem_map.mp hmem
    simp [OfOwner]
  all_goals simp_all [OfOwner]

section Step

variable {world next : World} {move : Move} {happenings : List Happening}

theorem wrote_of_step (hstep : world.step move = some (next, happenings)) :
    (∃ name value, happenings = [.wrote name value] ∧
        world.site.writer.updated world.site.volume name value = .ok next.site.volume ∧
        next.site.bridge.applied = world.site.bridge.applied + 1) ∨
      (∀ name value, .wrote name value ∉ happenings) ∧
        next.site.bridge.applied = world.site.bridge.applied := by
  rcases deed_of_step hstep with ⟨_, _, _, heffect⟩ | ⟨_, _, hstill, _⟩ | ⟨_, hstill, _⟩ |
    ⟨hstill, _⟩ | ⟨hstill, _, howner⟩
  · rcases heffect with ⟨_, _, _, happlied⟩ | ⟨hupdated, happlied⟩ | ⟨_, happlied, _, hquiet⟩
    · exact .inr ⟨by simp [report], happlied⟩
    · exact .inl ⟨_, _, rfl, hupdated, happlied⟩
    · exact .inr ⟨hquiet, happlied⟩
  iterate 3 exact .inr ⟨by simp, hstill.applied⟩
  exact .inr ⟨fun name value hmem => howner _ hmem, hstill.applied⟩

theorem config_of_step (hstep : world.step move = some (next, happenings)) :
    next.site.bridge.config = world.site.bridge.config := by
  rcases deed_of_step hstep with ⟨_, _, hspared, _⟩ | ⟨_, _, hstill, _⟩ | ⟨_, hstill, _⟩ |
    ⟨hstill, _⟩ | ⟨hstill, _, _⟩
  · exact hspared.config
  all_goals exact hstill.config

theorem accepted_of_step {key : String} (hstep : world.step move = some (next, happenings))
    (haccepted : .accepted key ∈ happenings) :
    (world.nameOf key).isSome ∧ world.channel.queue.length < world.channel.capacity := by
  rcases deed_of_step hstep with _ | ⟨hnamed, hroom, _, _⟩ | _ | _ | ⟨_, _, howner⟩
  · exact absurd rfl ((report_cases haccepted).2 key).1
  · rw [List.mem_singleton, Happening.accepted.injEq] at haccepted
    exact ⟨haccepted ▸ hnamed, hroom⟩
  iterate 2 simp at haccepted
  exact (howner _ haccepted).elim

theorem dropped_of_step (hstep : world.step move = some (next, happenings)) :
    (∃ key, happenings = [.dropped key] ∧
        world.channel.capacity ≤ world.channel.queue.length ∧
        next.site.bridge.overflow.dropped = world.site.bridge.overflow.dropped + 1) ∨
      (∀ key, .dropped key ∉ happenings) ∧
        next.site.bridge.overflow.dropped = world.site.bridge.overflow.dropped := by
  rcases deed_of_step hstep with ⟨_, _, hspared, _⟩ | ⟨_, _, _, hsame⟩ | ⟨hfull, _, hmore⟩ |
    ⟨_, hsame⟩ | ⟨_, hsame, howner⟩
  · refine .inr ⟨fun key hmem => ?_, congrArg Overflow.dropped hspared.overflow⟩
    exact absurd rfl ((report_cases hmem).2 key).2
  · exact .inr ⟨by simp, congrArg Overflow.dropped hsame⟩
  · exact .inl ⟨_, rfl, hfull, hmore⟩
  · exact .inr ⟨by simp, congrArg Overflow.dropped hsame⟩
  · exact .inr ⟨fun key hmem => howner _ hmem, congrArg Overflow.dropped hsame⟩

end Step

/-- A step of the thread from one stage to the next. -/
structure Advanced (world next : World) (stage after : Stage) : Prop where
  left : world.thread = some stage
  reached : next.thread = some after
  started : next.started = world.started
  spared : Spared world.site next.site
  advance : Advance world.nameOf world.site.bridge.stop world.channel stage (report stage after)
    next.channel after
  effect : Effect world.site next.site stage after

theorem advanced_of_step {world next : World} {happenings : List Happening}
    (hstep : world.step .thread = some (next, happenings)) :
    ∃ stage after, Advanced world next stage after ∧ happenings = report stage after := by
  cases made_of_step hstep with
  | advanced hthread hsite hafter =>
      obtain ⟨reached, hreached, hkept, hadvance⟩ := advance_of_stepFrom hsite
      obtain ⟨other, hother, hspared, heffect⟩ := effect_of_stepFrom hsite
      obtain rfl := Option.some.inj (hafter.symm.trans hreached)
      obtain rfl := Option.some.inj (hafter.symm.trans hother)
      exact ⟨_, _, ⟨hthread, hafter, hkept.started, hspared, hadvance, heffect⟩, rfl⟩

/-- What a move of any other thread does. -/
structure Outside (world next : World) (move : Move) : Prop where
  volume : next.site.volume = world.site.volume
  writer : move ≠ .markWriter → move ≠ .releaseWriter → next.site.writer = world.site.writer
  monitor : ∀ key, (∀ monitor, move ≠ .change key monitor) →
    next.site.monitor? key = world.site.monitor? key
  queue : world.channel.queue <+: next.channel.queue
  started : world.started = true → next.started = true
  thread : next.thread = world.thread ∨
    (world.thread = none ∧ world.started = false ∧ next.started = true ∧
      next.thread = some .receiving) ∨
    ∃ ending, world.thread = some (.finished ending) ∧ next.thread = none

theorem prefix_send (channel : Channel Signal) (signal : Signal) :
    channel.queue <+: (channel.send signal).1.queue := by
  rcases Channel.queue_send channel signal with hsame | hlonger
  · exact hsame ▸ List.prefix_refl _
  · rw [hlonger]
    exact List.prefix_append _ _

theorem monitor?_modifyMonitor_of_ne {site : Site} {key other : String} (change : Monitor → Monitor)
    (hne : other ≠ key) : (site.modifyMonitor key change).monitor? other = site.monitor? other := by
  simp only [Site.monitor?, Site.modifyMonitor, List.find?_map, Option.map_map]
  have hkeys : ((fun entry : String × Monitor => decide (entry.1 = other)) ∘ fun entry =>
      if entry.1 = key then (entry.1, change entry.2) else entry) =
      fun entry : String × Monitor => decide (entry.1 = other) := by
    funext entry
    simp only [Function.comp_apply]
    split <;> rfl
  rw [hkeys]
  cases hfound : site.monitors.find? fun entry => entry.1 = other with
  | none => rfl
  | some entry =>
      have hentry : entry.1 = other := by simpa using List.find?_some hfound
      simp [hentry, hne]

theorem outside_of_step {world next : World} {move : Move} {happenings : List Happening}
    (hmove : move ≠ .thread) (hstep : world.step move = some (next, happenings)) :
    Outside world next move := by
  cases made_of_step hstep with
  | advanced => exact absurd rfl hmove
  | queued =>
      exact ⟨rfl, fun _ _ => rfl, fun _ _ => rfl, List.prefix_append _ _, id, .inl rfl⟩
  | full | unheard | startRefused | flagged =>
      exact ⟨rfl, fun _ _ => rfl, fun _ _ => rfl, List.prefix_refl _, id, .inl rfl⟩
  | changed hname =>
      refine ⟨rfl, fun _ _ => rfl, ?_, List.prefix_refl _, id, .inl rfl⟩
      intro other hother
      refine monitor?_modifyMonitor_of_ne _ ?_
      rintro rfl
      exact hother _ rfl
  | started _ hthread hstarted =>
      exact ⟨rfl, fun _ _ => rfl, fun _ _ => rfl, List.prefix_refl _, fun _ => rfl,
        .inr (.inl ⟨hthread, hstarted, rfl, rfl⟩)⟩
  | asked => exact ⟨rfl, fun _ _ => rfl, fun _ _ => rfl, prefix_send _ _, id, .inl rfl⟩
  | joined _ hthread =>
      exact ⟨rfl, fun _ _ => rfl, fun _ _ => rfl, List.prefix_refl _, id,
        .inr (.inr ⟨_, hthread, rfl⟩)⟩
  | marked | released =>
      exact ⟨rfl, by simp, fun _ _ => rfl, List.prefix_refl _, id, .inl rfl⟩

theorem writer_of_step {world next : World} {move : Move} {happenings : List Happening}
    (hmark : move ≠ .markWriter) (hrelease : move ≠ .releaseWriter)
    (hstep : world.step move = some (next, happenings)) :
    next.site.writer = world.site.writer := by
  by_cases hmove : move = .thread
  · obtain ⟨_, _, hadvanced, -⟩ := advanced_of_step (hmove ▸ hstep)
    exact hadvanced.spared.writer
  · exact (outside_of_step hmove hstep).writer hmark hrelease

theorem monitor?_of_step {world next : World} {move : Move} {happenings : List Happening}
    {key : String} (hchange : ∀ monitor, move ≠ .change key monitor)
    (hstep : world.step move = some (next, happenings)) :
    next.site.monitor? key = world.site.monitor? key := by
  by_cases hmove : move = .thread
  · obtain ⟨_, _, hadvanced, -⟩ := advanced_of_step (hmove ▸ hstep)
    rw [Site.monitor?, Site.monitor?, hadvanced.spared.monitors]
  · exact (outside_of_step hmove hstep).monitor key hchange

theorem monitors_of_step {world next : World} {move : Move} {happenings : List Happening}
    (hstep : world.step move = some (next, happenings)) :
    ∀ entry ∈ next.site.monitors,
      entry ∈ world.site.monitors ∨ ∃ key, move = .change key entry.2 := by
  intro entry hmem
  cases made_of_step hstep with
  | advanced =>
      obtain ⟨_, _, hadvanced, -⟩ := advanced_of_step hstep
      exact .inl (hadvanced.spared.monitors ▸ hmem)
  | changed =>
      rename_i key monitor _
      obtain ⟨found, hfound, rfl⟩ := List.mem_map.mp hmem
      by_cases hkey : found.1 = key
      · rw [if_pos hkey]
        exact .inr ⟨key, rfl⟩
      · rw [if_neg hkey]
        exact .inl hfound
  | _ => exact .inl hmem

end MappedMetrics.Proofs.BridgeEffects
