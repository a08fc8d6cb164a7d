import MappedMetrics.Writer

namespace MappedMetrics.Proofs.WriterCalls

open MappedMetrics

/-- A call of a writer. -/
inductive Call where
  | registerHandler (kind : Kind) (handler : Handler)
  | addMetric (name : String) (unit : PhysicalUnit) (semantics : Semantics)
      (initial : MetricValue)
  | addMetricWithHandler (name : String) (unit : PhysicalUnit) (semantics : Semantics)
      (handler : Handler) (initial : MetricValue)
  | addMonitor (monitor : Monitor) (unit : PhysicalUnit) (semantics : Semantics)
  | start (generation : UInt64)
  | updateMetric (name : String) (value : MetricValue)
  | flush
  | stop

def call (writer : Writer) (volume : Volume) : Call → Writer.Reply
  | .registerHandler kind handler => writer.registerHandler volume kind handler
  | .addMetric name unit semantics initial => writer.addMetric volume name unit semantics initial
  | .addMetricWithHandler name unit semantics handler initial =>
      writer.addMetricWithHandler volume name unit semantics handler initial
  | .addMonitor monitor unit semantics => writer.addMonitor volume monitor unit semantics
  | .start generation => writer.start volume generation
  | .updateMetric name value => writer.updateMetric volume name value
  | .flush => writer.flush volume
  | .stop => writer.stop volume

/-- A call on a host. -/
def callOn (host : Host) (writer : Writer) (volume : Volume) : Call → Writer.Reply
  | .start generation => writer.startOn host volume generation
  | .flush => writer.flushOn host volume
  | .stop => writer.stopOn host volume
  | made => call writer volume made

/-- The writers that calls lead to. -/
inductive Reachable : Writer → Prop where
  | ofPath (path : String) (format : FileFormat) : Reachable (.ofPath path format)
  | call {writer : Writer} (volume : Volume) (made : Call) :
      Reachable writer → Reachable (call writer volume made).writer

/-- A call that adds a handler or a metric. -/
def Registration : Call → Prop
  | .registerHandler .. | .addMetric .. | .addMetricWithHandler .. | .addMonitor .. => True
  | .start _ | .updateMetric .. | .flush | .stop => False

/-- What a call does to a writer and, where it fails, to the files. -/
inductive Change (writer : Writer) (volume : Volume) : Call → Writer.Reply → Prop
  /-- Only a start that was allowed can fail with other files. -/
  | failed {made : Call} {reply : Writer.Reply} {fault : Fault} :
      reply.result = .error fault → reply.writer = writer →
      writer.phase = .unstarted ∨ reply.volume = volume → Change writer volume made reply
  | kept {made : Call} {reply : Writer.Reply} :
      writer.file.isSome ∨ writer.phase = .stopped → reply.result = .ok () →
      reply.writer = writer → Change writer volume made reply
  | handled {kind : Kind} {handler : Handler} {reply : Writer.Reply} :
      writer.phase = .unstarted → reply.result = .ok () →
      reply.writer = { writer with handlers := writer.handlers.register kind handler } →
        Change writer volume (.registerHandler kind handler) reply
  | registered {made : Call} {metric : Metric} {reply : Writer.Reply} :
      Registration made → writer.phase = .unstarted → reply.result = .ok () →
      writer.format.validateName metric.name = .ok () → writer.index? metric.name = none →
      reply.writer = { writer with
        metrics := writer.metrics ++ [metric]
        index := (metric.name, writer.metrics.length) :: writer.index } →
        Change writer volume made reply
  | started {generation : UInt64} {layout : Layout} {file : MappedFile} {sidecar : Option String}
      {reply : Writer.Reply} :
      writer.phase = .unstarted → reply.result = .ok () →
      writer.format.plan writer.metrics = .ok layout →
      reply.writer = { writer with
        phase := .started
        layout := some layout
        file := some file
        generation := generation
        sidecar := sidecar } →
        Change writer volume (.start generation) reply
  | stopped {reply : Writer.Reply} :
      writer.phase = .started → reply.writer = writer.markStopped.release →
        Change writer volume .stop reply

section Call

variable {writer : Writer} {volume : Volume}

theorem ensureUnstarted_eq_ok :
    writer.ensureUnstarted = .ok () ↔ writer.phase = .unstarted := by
  rw [Writer.ensureUnstarted]
  split
  · exact iff_of_true rfl ‹_›
  · exact iff_of_false (fun hok => by cases hok) ‹_›

theorem change_of_answer {made : Call} {outcome : Outcome (Writer × List Event)}
    (hchange : ∀ next events, outcome = .ok (next, events) →
      Change writer volume made ⟨next, volume, events, .ok ()⟩) :
    Change writer volume made (writer.answer volume outcome) := by
  rcases outcome with fault | ⟨next, events⟩
  · exact .failed rfl rfl (.inr rfl)
  · exact hchange next events rfl

theorem change_of_insert {made : Call} {metric : Metric} {next : Writer} {events : List Event}
    (hmade : Registration made) (hphase : writer.phase = .unstarted)
    (hinsert : writer.insert metric = .ok (next, events)) :
    Change writer volume made ⟨next, volume, events, .ok ()⟩ := by
  simp only [Writer.insert, Outcome.bind_eq_ok] at hinsert
  obtain ⟨_, hname, hrest⟩ := hinsert
  split at hrest
  · cases hrest
  · rename_i hfresh
    cases hrest
    exact .registered hmade hphase rfl hname (Option.not_isSome_iff_eq_none.mp hfresh) rfl

theorem change_registerHandler (kind : Kind) (handler : Handler) :
    Change writer volume (.registerHandler kind handler)
      (writer.registerHandler volume kind handler) := by
  refine change_of_answer fun next events hok => ?_
  obtain ⟨_, hphase, hok⟩ := Outcome.bind_eq_ok.mp hok
  cases hok
  exact .handled (ensureUnstarted_eq_ok.mp hphase) rfl rfl

theorem change_addMetric {made : Call} (hmade : Registration made) (name : String)
    (unit : PhysicalUnit) (semantics : Semantics) (initial : MetricValue) :
    Change writer volume made (writer.addMetric volume name unit semantics initial) := by
  refine change_of_answer fun next events hok => ?_
  obtain ⟨_, hphase, hok⟩ := Outcome.bind_eq_ok.mp hok
  obtain ⟨handler, _, hinsert⟩ := Outcome.bind_eq_ok.mp hok
  exact change_of_insert hmade (ensureUnstarted_eq_ok.mp hphase) hinsert

theorem change_addMetricWithHandler {made : Call} (hmade : Registration made) (name : String)
    (unit : PhysicalUnit) (semantics : Semantics) (handler : Handler) (initial : MetricValue) :
    Change writer volume made
      (writer.addMetricWithHandler volume name unit semantics handler initial) := by
  refine change_of_answer fun next events hok => ?_
  obtain ⟨_, hphase, hok⟩ := Outcome.bind_eq_ok.mp hok
  split at hok
  · cases hok
  · exact change_of_insert hmade (ensureUnstarted_eq_ok.mp hphase) hok

theorem change_startOn (host : Host) (generation : UInt64) :
    Change writer volume (.start generation) (writer.startOn host volume generation) := by
  simp only [Writer.startOn, Writer.startBy]
  split
  · exact .failed rfl rfl (.inr rfl)
  · exact .failed rfl rfl (.inr rfl)
  · rename_i hphase
    split
    · exact .failed rfl rfl (.inl hphase)
    · rename_i layout hplan
      split
      · exact .failed rfl rfl (.inl hphase)
      · exact .started hphase rfl hplan rfl

theorem change_updateMetric (name : String) (value : MetricValue) :
    Change writer volume (.updateMetric name value) (writer.updateMetric volume name value) := by
  cases hfile : writer.file with
  | none =>
      have hrefused : writer.updateMetric volume name value =
          ⟨writer, volume, [], writer.inactiveError.refuse⟩ := by
        simp only [Writer.updateMetric, Writer.updated, hfile, LifecycleError.refuse]
      rw [hrefused]
      exact .failed rfl rfl (.inr rfl)
  | some file =>
      simp only [Writer.updateMetric]
      split
      · exact .kept (.inl (by rw [hfile]; rfl)) rfl rfl
      · exact .failed rfl rfl (.inr rfl)

theorem change_flushOn (host : Host) :
    Change writer volume .flush (writer.flushOn host volume) := by
  rw [Writer.flushOn]
  split
  · rename_i file hfile
    cases hflush : file.flush host with
    | error fault => exact .failed rfl rfl (.inr rfl)
    | ok => exact .kept (.inl (by rw [hfile]; rfl)) rfl rfl
  · exact .failed rfl rfl (.inr rfl)

theorem change_stopOn (host : Host) : Change writer volume .stop (writer.stopOn host volume) := by
  rw [Writer.stopOn]
  split
  · exact .failed rfl rfl (.inr rfl)
  · rename_i hphase
    exact .kept (.inr hphase) rfl rfl
  · rename_i hphase
    exact .stopped hphase rfl

theorem change_of_call (host : Host) (made : Call) :
    Change writer volume made (callOn host writer volume made) := by
  cases made with
  | registerHandler kind handler => exact change_registerHandler kind handler
  | addMetric name unit semantics initial =>
      exact change_addMetric (by trivial) name unit semantics initial
  | addMetricWithHandler name unit semantics handler initial =>
      exact change_addMetricWithHandler (by trivial) name unit semantics handler initial
  | addMonitor monitor unit semantics =>
      simp only [callOn, call, Writer.addMonitor]
      split
      · exact change_addMetric (by trivial) _ unit semantics _
      · exact .failed rfl rfl (.inr rfl)
  | start generation => exact change_startOn host generation
  | updateMetric name value => exact change_updateMetric name value
  | flush => exact change_flushOn host
  | stop => exact change_stopOn host

end Call

theorem publishOn_willing : Writer.publishOn .willing = Writer.publish := by
  funext writer volume layout generation
  simp only [Writer.publishOn, Host.willing]
  rcases writer.publish volume layout generation with ⟨next, fault | made⟩ <;> rfl

theorem startOn_willing : Writer.startOn .willing = Writer.start :=
  congrArg Writer.startBy publishOn_willing

theorem callOn_willing : callOn .willing = call := by
  funext writer volume made
  cases made with
  | start generation =>
    exact congrFun (congrFun (congrFun startOn_willing writer) volume) generation
  | _ => rfl

/-- A metric is appended under a name that is fit for the format and not yet taken. -/
structure Registered (writer next : Writer) (metric : Metric) : Prop where
  name : writer.format.validateName metric.name = .ok ()
  fresh : writer.index? metric.name = none
  appended : next.metrics = writer.metrics ++ [metric]
  indexed : next.index = (metric.name, writer.metrics.length) :: writer.index

/-- The metrics and their positions are as they were. -/
structure SameMetrics (writer next : Writer) : Prop where
  metrics : next.metrics = writer.metrics
  index : next.index = writer.index

theorem metrics_of_change {writer : Writer} {volume : Volume} {made : Call} {reply : Writer.Reply}
    (hchange : Change writer volume made reply) :
    (∃ metric, Registered writer reply.writer metric) ∨ SameMetrics writer reply.writer := by
  cases hchange with
  | failed _ hsame | kept _ _ hsame =>
      rw [hsame]
      exact .inr ⟨rfl, rfl⟩
  | handled _ _ hnext | started _ _ _ hnext | stopped _ hnext =>
      rw [hnext]
      exact .inr ⟨rfl, rfl⟩
  | registered _ _ _ hname hfresh hnext =>
      rw [hnext]
      exact .inl ⟨_, hname, hfresh, rfl, rfl⟩

theorem metrics_call (writer : Writer) (volume : Volume) (made : Call) :
    (∃ metric, Registered writer (call writer volume made).writer metric) ∨
      SameMetrics writer (call writer volume made).writer := by
  rw [← callOn_willing]
  exact metrics_of_change (change_of_call .willing made)

/-- A name leads to a position if and only if the metric at that position has the name. -/
def Indexed (writer : Writer) : Prop :=
  ∀ name i, writer.index? name = some i ↔ (writer.metrics[i]?).map Metric.name = some name

theorem Registered.index?_self {writer next : Writer} {metric : Metric}
    (hregistered : Registered writer next metric) :
    next.index? metric.name = some writer.metrics.length := by
  rw [Writer.index?, hregistered.indexed]
  exact List.lookup_cons_self

theorem Registered.index?_of_ne {writer next : Writer} {metric : Metric} {name : String}
    (hregistered : Registered writer next metric) (hne : name ≠ metric.name) :
    next.index? name = writer.index? name := by
  rw [Writer.index?, hregistered.indexed, List.lookup_cons, beq_false_of_ne hne]
  rfl

theorem indexed_of_registered {writer next : Writer} {metric : Metric} (hindexed : Indexed writer)
    (hregistered : Registered writer next metric) : Indexed next := by
  intro name i
  have hold := hindexed name i
  by_cases hsame : name = metric.name
  · subst hsame
    rw [hregistered.fresh] at hold
    rw [hregistered.index?_self, hregistered.appended]
    rcases Nat.lt_trichotomy i writer.metrics.length with hless | rfl | hmore
    · rw [List.getElem?_append_left hless, ← hold]
      simp only [Option.some.injEq, reduceCtorEq, iff_false]
      omega
    · simp
    · rw [List.getElem?_eq_none (by simp; omega)]
      simp only [Option.some.injEq, Option.map_none, reduceCtorEq, iff_false]
      omega
  · rw [hregistered.index?_of_ne hsame, hregistered.appended, hold]
    rcases Nat.lt_or_ge i writer.metrics.length with hless | hmore
    · rw [List.getElem?_append_left hless]
    · rw [List.getElem?_eq_none hmore, List.getElem?_append_right hmore]
      cases i - writer.metrics.length with
      | zero => simpa using fun heq => hsame heq.symm
      | succ beyond => simp

theorem indexed_of_same {writer next : Writer} (hindexed : Indexed writer)
    (hsame : SameMetrics writer next) : Indexed next := by
  intro name i
  rw [Writer.index?, hsame.index, hsame.metrics]
  exact hindexed name i

theorem indexed_of_reachable {writer : Writer} (hreachable : Reachable writer) :
    Indexed writer := by
  induction hreachable with
  | ofPath path format =>
      intro name i
      simp [Writer.index?, Writer.ofPath]
  | @call writer volume made _ ih =>
      rcases metrics_call writer volume made with ⟨metric, hregistered⟩ | hsame
      · exact indexed_of_registered ih hregistered
      · exact indexed_of_same ih hsame

theorem name_ne_of_index?_eq_none {writer : Writer} {name : String} (hindexed : Indexed writer)
    (hnone : writer.index? name = none) : name ∉ writer.metrics.map Metric.name := by
  intro hmem
  obtain ⟨i, hi⟩ := List.getElem?_of_mem hmem
  rw [List.getElem?_map, ← hindexed, hnone] at hi
  cases hi

theorem nodup_names {writer : Writer} (hindexed : Indexed writer) :
    (writer.metrics.map Metric.name).Nodup := by
  rw [List.Nodup, List.pairwise_iff_getElem]
  intro i j hi hj hless hsame
  have hfirst : writer.index? (writer.metrics.map Metric.name)[i] = some i := by
    rw [hindexed, ← List.getElem?_map, List.getElem?_eq_getElem hi]
  have hsecond : writer.index? (writer.metrics.map Metric.name)[i] = some j := by
    rw [hindexed, ← List.getElem?_map, List.getElem?_eq_getElem hj, hsame]
  rw [hfirst, Option.some.injEq] at hsecond
  omega

end MappedMetrics.Proofs.WriterCalls
