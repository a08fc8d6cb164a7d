import MappedMetrics.Proofs.UpdateFrames

namespace MappedMetrics.Proofs.WriterStates

open MappedMetrics
open MappedMetrics.Proofs.ValueSlots
open MappedMetrics.Proofs.WriterCalls
open MappedMetrics.Proofs.UpdateFrames

/-- What the rules of a format ask of a name. -/
structure Fit (format : FileFormat) (name : String) : Prop where
  nonempty : name ≠ ""
  noNul : '\x00' ∉ name.toList
  short : (Text.utf8 name).length ≤ format.nameLimit
  unreserved : format = .legacy → ∀ c ∈ ['=', ',', '\n', '\r'], c ∉ name.toList

theorem fit_of_validateName {format : FileFormat} {name : String}
    (h : format.validateName name = .ok ()) : Fit format name := by
  simp only [FileFormat.validateName] at h
  split at h
  · cases h
  · rename_i hreserved
    split at h
    · cases h
    · rename_i hempty
      split at h
      · cases h
      · rename_i hnul
        split at h
        · cases h
        · rename_i hlong
          refine ⟨?_, ?_, Nat.le_of_not_lt hlong, ?_⟩
          · rintro rfl
            exact hempty rfl
          · simpa using hnul
          · rintro rfl c hc hmem
            have hplain := List.find?_eq_none.mp hreserved c hmem
            refine hplain ?_
            simp only [List.mem_cons, List.not_mem_nil, or_false] at hc
            rcases hc with rfl | rfl | rfl | rfl <;> rfl

/-- How the parts of a writer agree with one another. -/
structure Agrees (writer : Writer) : Prop where
  indexed : Indexed writer
  fit : ∀ metric ∈ writer.metrics, Fit writer.format metric.name
  mapped : writer.file.isSome ↔ writer.phase = .started
  laidOut : writer.layout.isSome ↔ writer.phase ≠ .unstarted
  planned : ∀ layout, writer.layout = some layout →
    writer.format.plan writer.metrics = .ok layout ∧ writer.generation ≠ 0

/-- What stays as it is once a writer was started. -/
structure Frozen (before after : Writer) : Prop where
  metrics : after.metrics = before.metrics
  index : after.index = before.index
  handlers : after.handlers = before.handlers
  layout : after.layout = before.layout
  offsets : ∀ name, after.offsets? name = before.offsets? name
  generation : after.generation = before.generation

/-- A start takes its generation from the clock. -/
def Stamped : Call → Prop
  | .start generation => ∃ now, generation = Writer.stamp now
  | _ => True

/-- A call with the host and the files that there are when it is made. -/
structure Turn where
  host : Host
  volume : Volume
  made : Call
  stamped : Stamped made

def Turn.reply (turn : Turn) (writer : Writer) : Writer.Reply :=
  callOn turn.host writer turn.volume turn.made

/-- The writer that calls, one after the other, lead to. -/
def after (writer : Writer) : List Turn → Writer
  | [] => writer
  | turn :: turns => after (turn.reply writer).writer turns

section Step

variable {writer : Writer} {volume : Volume} {made : Call} {reply : Writer.Reply}

theorem agrees_ofPath (path : String) (format : FileFormat) : Agrees (.ofPath path format) where
  indexed := indexed_of_reachable (.ofPath path format)
  fit := fun _ hmem => nomatch hmem
  mapped := by simp [Writer.ofPath]
  laidOut := by simp [Writer.ofPath]
  planned := by simp [Writer.ofPath]

theorem agrees_registered {metric : Metric} {next : Writer} (hagrees : Agrees writer)
    (hphase : writer.phase = .unstarted) (hname : writer.format.validateName metric.name = .ok ())
    (hfresh : writer.index? metric.name = none)
    (hnext : next = { writer with
      metrics := writer.metrics ++ [metric]
      index := (metric.name, writer.metrics.length) :: writer.index }) : Agrees next := by
  have hregistered : Registered writer next metric := by
    subst hnext
    exact ⟨hname, hfresh, rfl, rfl⟩
  have hindexed := indexed_of_registered hagrees.indexed hregistered
  subst hnext
  refine ⟨hindexed, ?_, hagrees.mapped, hagrees.laidOut, ?_⟩
  · intro other hmem
    rcases List.mem_append.mp hmem with hmem | hmem
    · exact hagrees.fit other hmem
    · rw [List.mem_singleton.mp hmem]
      exact fit_of_validateName hname
  · intro layout hlayout
    have hnone : writer.layout.isSome := by
      change writer.layout = some layout at hlayout
      rw [hlayout]
      rfl
    exact absurd hphase (hagrees.laidOut.mp hnone)

theorem agrees_of_change (hstamped : Stamped made) (hagrees : Agrees writer)
    (hchange : Change writer volume made reply) : Agrees reply.writer := by
  cases hchange with
  | failed _ hsame | kept _ _ hsame => rwa [hsame]
  | handled _ _ hnext =>
      rw [hnext]
      exact ⟨hagrees.indexed, hagrees.fit, hagrees.mapped, hagrees.laidOut, hagrees.planned⟩
  | registered _ hphase _ hname hfresh hnext =>
      exact agrees_registered hagrees hphase hname hfresh hnext
  | started _ _ hplan hnext =>
      obtain ⟨now, rfl⟩ := hstamped
      rw [hnext]
      refine ⟨hagrees.indexed, hagrees.fit, by simp, by simp, ?_⟩
      intro layout hlayout
      cases hlayout
      exact ⟨hplan, Writer.stamp_ne_zero now⟩
  | stopped hphase hnext =>
      rw [hnext]
      refine ⟨hagrees.indexed, hagrees.fit, ?_, ?_, hagrees.planned⟩
      · simp [Writer.markStopped, Writer.release]
      · have hlaidOut : writer.layout.isSome := hagrees.laidOut.mpr (by simp [hphase])
        simp [Writer.markStopped, Writer.release, hlaidOut]

theorem frozen_of_change (hphase : writer.phase ≠ .unstarted)
    (hchange : Change writer volume made reply) :
    Frozen writer reply.writer ∧ reply.writer.phase ≠ .unstarted := by
  cases hchange with
  | failed _ hsame | kept _ _ hsame =>
      rw [hsame]
      exact ⟨⟨rfl, rfl, rfl, rfl, fun _ => rfl, rfl⟩, hphase⟩
  | handled hnot | registered _ hnot | started hnot => exact absurd hnot hphase
  | stopped _ hnext =>
      rw [hnext]
      exact ⟨⟨rfl, rfl, rfl, rfl, fun _ => rfl, rfl⟩, by simp [Writer.markStopped, Writer.release]⟩

theorem phase_of_startOn {host : Host} {generation : UInt64}
    (hok : (writer.startOn host volume generation).result = .ok ()) :
    (writer.startOn host volume generation).writer.phase = .started := by
  simp only [Writer.startOn, Writer.startBy] at hok ⊢
  split at hok
  · cases hok
  · cases hok
  · split at hok
    · cases hok
    · split at hok
      · cases hok
      · rfl

end Step

theorem Frozen.trans {first second third : Writer} (hfirst : Frozen first second)
    (hsecond : Frozen second third) : Frozen first third where
  metrics := hsecond.metrics.trans hfirst.metrics
  index := hsecond.index.trans hfirst.index
  handlers := hsecond.handlers.trans hfirst.handlers
  layout := hsecond.layout.trans hfirst.layout
  offsets := fun name => (hsecond.offsets name).trans (hfirst.offsets name)
  generation := hsecond.generation.trans hfirst.generation

theorem after_append (writer : Writer) (turns more : List Turn) :
    after writer (turns ++ more) = after (after writer turns) more := by
  induction turns generalizing writer with
  | nil => rfl
  | cons turn turns ih => exact ih _

theorem agrees_after {writer : Writer} (hagrees : Agrees writer) (turns : List Turn) :
    Agrees (after writer turns) := by
  induction turns generalizing writer with
  | nil => exact hagrees
  | cons turn turns ih =>
      exact ih (agrees_of_change turn.stamped hagrees (change_of_call turn.host turn.made))

theorem frozen_after {writer : Writer} (hphase : writer.phase ≠ .unstarted) (turns : List Turn) :
    Frozen writer (after writer turns) := by
  induction turns generalizing writer with
  | nil => exact ⟨rfl, rfl, rfl, rfl, fun _ => rfl, rfl⟩
  | cons turn turns ih =>
      obtain ⟨hfrozen, hstill⟩ := frozen_of_change hphase (change_of_call turn.host turn.made)
      exact hfrozen.trans (ih hstill)

theorem phase_after {writer : Writer} (hphase : writer.phase ≠ .unstarted) (turns : List Turn) :
    (after writer turns).phase ≠ .unstarted := by
  induction turns generalizing writer with
  | nil => exact hphase
  | cons turn turns ih =>
      exact ih (frozen_of_change hphase (change_of_call turn.host turn.made)).2

theorem path_of_change {writer : Writer} {volume : Volume} {made : Call} {reply : Writer.Reply}
    (hchange : Change writer volume made reply) :
    reply.writer.path = writer.path ∧ reply.writer.format = writer.format := by
  cases hchange with
  | failed _ hsame | kept _ _ hsame =>
      rw [hsame]
      exact ⟨rfl, rfl⟩
  | handled _ _ hnext | registered _ _ _ _ _ hnext | started _ _ _ hnext | stopped _ hnext =>
      rw [hnext]
      exact ⟨rfl, rfl⟩

theorem path_after (writer : Writer) (turns : List Turn) :
    (after writer turns).path = writer.path ∧ (after writer turns).format = writer.format := by
  induction turns generalizing writer with
  | nil => exact ⟨rfl, rfl⟩
  | cons turn turns ih =>
      obtain ⟨hpath, hformat⟩ := path_of_change (change_of_call turn.host turn.made)
      exact ⟨(ih _).1.trans hpath, (ih _).2.trans hformat⟩

/-- The states of a writer. -/
structure Consistent (writer : Writer) : Prop where
  /-- A name leads to a position if and only if the metric at that position has the name. -/
  indexed : ∀ name i,
    writer.index? name = some i ↔ (writer.metrics[i]?).map Metric.name = some name
  nodup : (writer.metrics.map Metric.name).Nodup
  fit : ∀ metric ∈ writer.metrics, Fit writer.format metric.name
  mapped : writer.file.isSome ↔ writer.phase = .started
  laidOut : writer.layout.isSome ↔ writer.phase = .started ∨ writer.phase = .stopped
  planned : ∀ layout, writer.layout = some layout →
    writer.format.plan writer.metrics = .ok layout ∧
      layout.offsets.length = writer.metrics.length ∧ writer.generation ≠ 0
  inRange : ∀ name i, writer.index? name = some i → i < writer.metrics.length
  /-- While there is a file, an update under a name that is found comes to encode its value. -/
  found : writer.file.isSome → ∀ name i, writer.index? name = some i →
    ∃ metric layout offsets, writer.metrics[i]? = some metric ∧ metric.name = name ∧
      writer.layout = some layout ∧ layout.offsets[i]? = some offsets ∧
      ∀ value, writer.encoded name value = metric.slot offsets value

theorem consistent_of_agrees {writer : Writer} (hagrees : Agrees writer) : Consistent writer := by
  obtain ⟨hindexed, hfit, hmapped, hlaidOut, hplanned⟩ := hagrees
  have hmetric : ∀ name i, writer.index? name = some i →
      ∃ metric, writer.metrics[i]? = some metric ∧ metric.name = name := fun name i hfound =>
    Option.map_eq_some_iff.mp ((hindexed name i).mp hfound)
  have heach : ∀ layout, writer.layout = some layout →
      layout.offsets.length = writer.metrics.length := fun layout hlayout =>
    (slotted_of_plan (hplanned layout hlayout).1).each
  refine ⟨hindexed, nodup_names hindexed, hfit, hmapped, ?_, ?_, ?_, ?_⟩
  · rw [hlaidOut]
    cases writer.phase <;> simp
  · intro layout hlayout
    exact ⟨(hplanned layout hlayout).1, heach layout hlayout, (hplanned layout hlayout).2⟩
  · intro name i hfound
    obtain ⟨metric, hat, _⟩ := hmetric name i hfound
    exact (List.getElem?_eq_some_iff.mp hat).1
  · intro hfile name i hfound
    obtain ⟨metric, hat, hname⟩ := hmetric name i hfound
    have hphase : writer.phase ≠ .unstarted := by rw [hmapped.mp hfile]; decide
    obtain ⟨layout, hlayout⟩ := Option.isSome_iff_exists.mp (hlaidOut.mpr hphase)
    have hi : i < layout.offsets.length := by
      rw [heach layout hlayout]
      exact (List.getElem?_eq_some_iff.mp hat).1
    refine ⟨metric, layout, layout.offsets[i], hat, hname, hlayout,
      List.getElem?_eq_getElem hi, fun value => ?_⟩
    simp only [Writer.encoded, hfound, hlayout, Option.bind_some, List.getElem?_eq_getElem hi, hat]

theorem startOn_of_unmapped (writer : Writer) (volume : Volume) (generation : UInt64)
    (reason : String) (flushing : Option String) :
    (writer.startOn ⟨some reason, flushing⟩ volume generation).writer = writer ∧
      ∃ fault, (writer.startOn ⟨some reason, flushing⟩ volume generation).result =
        .error fault := by
  simp only [Writer.startOn, Writer.startBy, Writer.publishOn]
  split
  · exact ⟨rfl, _, rfl⟩
  · exact ⟨rfl, _, rfl⟩
  · split
    · exact ⟨rfl, _, rfl⟩
    · rename_i layout _
      rcases MappedFile.create volume writer.path layout.length with ⟨next, fault | file⟩ <;>
        exact ⟨rfl, _, rfl⟩

def addCount : Call :=
  .addMetricWithHandler "count" .item .counter (.numeric .i32) (.i32 3)

def addState : Call :=
  .addMetricWithHandler "state" .item .discrete (.text 10) (.str "idle")

def counted : Turn :=
  ⟨.willing, .empty, addCount, trivial⟩

/-- A count is registered, the file is refused by the host, the name is taken a second time, and a
text is registered. -/
def unstarted : List Turn :=
  [counted, ⟨⟨some "out of memory", none⟩, .empty, .start (Writer.stamp 5), ⟨5, rfl⟩⟩, counted,
    ⟨.willing, .empty, addState, trivial⟩]

def restarted : Turn :=
  ⟨.willing, .empty, .start (Writer.stamp 7), ⟨7, rfl⟩⟩

/-- After the start nothing can be registered, and the writer is stopped on a host that refuses to
write the file through. -/
def later : List Turn :=
  [⟨.willing, .empty, addState, trivial⟩, ⟨⟨none, some "no space"⟩, .empty, .stop, trivial⟩]

theorem after_unstarted : after (.ofPath "m" .mmv) unstarted = countAndState := by
  simp only [unstarted, after, Turn.reply, callOn, startOn_of_unmapped]
  rfl

/-- Whatever calls are made, in whatever order and with whatever success, the index, the metrics,
the phase, the layout and the mapped file agree with one another; and from a successful start on,
whatever calls follow, all that was registered and laid out stays as it is. -/
theorem consistent_after (path : String) (format : FileFormat) (turns : List Turn) :
    Consistent (after (.ofPath path format) turns) ∧
      ∀ earlier start later generation, turns = earlier ++ start :: later →
        start.made = .start generation →
        (start.reply (after (.ofPath path format) earlier)).result = .ok () →
          Frozen (start.reply (after (.ofPath path format) earlier)).writer
            (after (.ofPath path format) turns) := by
  refine ⟨consistent_of_agrees (agrees_after (agrees_ofPath path format) turns), ?_⟩
  rintro earlier start later generation rfl hmade hok
  have hstarted : (start.reply (after (.ofPath path format) earlier)).writer.phase ≠
      .unstarted := by
    rw [Turn.reply, hmade] at hok ⊢
    rw [callOn, phase_of_startOn hok]
    decide
  rw [after_append]
  exact frozen_after hstarted later

theorem consistent_restarted :
    (restarted.reply (after (.ofPath "m" .mmv) unstarted)).result = .ok () ∧
      Consistent (after (.ofPath "m" .mmv) (unstarted ++ restarted :: later)) ∧
      Frozen (restarted.reply (after (.ofPath "m" .mmv) unstarted)).writer
        (after (.ofPath "m" .mmv) (unstarted ++ restarted :: later)) := by
  have hstarted : (restarted.reply (after (.ofPath "m" .mmv) unstarted)).result = .ok () := by
    rw [after_unstarted]
    change (Writer.startOn .willing countAndState .empty 7).result = .ok ()
    rw [startOn_willing]
    exact start_countAndState
  obtain ⟨hconsistent, hfrozen⟩ :=
    consistent_after "m" .mmv (unstarted ++ restarted :: later)
  exact ⟨hstarted, hconsistent, hfrozen unstarted restarted later _ rfl rfl hstarted⟩

end MappedMetrics.Proofs.WriterStates
