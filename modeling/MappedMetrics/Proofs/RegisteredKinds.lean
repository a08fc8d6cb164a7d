import MappedMetrics.Proofs.HandlerEncodings
import MappedMetrics.Proofs.SelfDescribingLayout
import MappedMetrics.Proofs.StartedFiles
import MappedMetrics.Proofs.WriterCalls

namespace MappedMetrics.Proofs.RegisteredKinds

open MappedMetrics
open MappedMetrics.Proofs.Spans
open MappedMetrics.Proofs.WriteRuns
open MappedMetrics.Proofs.SelfDescribingLayout
open MappedMetrics.Proofs.PackedLayout
open MappedMetrics.Proofs.ValueSlots
open MappedMetrics.Proofs.HandlerEncodings
open MappedMetrics.Proofs.StartedFiles
open MappedMetrics.Proofs.WriterCalls

/-- A call that registers a handler or a metric. -/
def Registers : Call → Prop
  | .registerHandler .. | .addMetric .. | .addMetricWithHandler .. => True
  | _ => False

/-- The writer that calls leave, whether they succeed or not. -/
def registered (writer : Writer) (volume : Volume) (calls : List Call) : Writer :=
  calls.foldl (fun writer made => (call writer volume made).writer) writer

def Encodable (metric : Metric) : Prop :=
  metric.handler.kind = metric.initial.kind

/-- A handler is the last one that was registered for a kind. -/
def Latest (calls : List Call) (kind : Kind) (handler : Handler) : Prop :=
  ∃ before after, calls = before ++ .registerHandler kind handler :: after ∧
    ∀ other, .registerHandler kind other ∉ after

/-- A metric was added under its value's kind, for which a handler of another kind had been
registered. -/
def Foreign (calls : List Call) (metric : Metric) : Prop :=
  metric.handler.kind ≠ metric.initial.kind ∧
    ∃ before after, Latest before metric.initial.kind metric.handler ∧
      calls = before ++
        .addMetric metric.name metric.unit metric.semantics metric.initial :: after

theorem Foreign.append {calls : List Call} {metric : Metric} (hforeign : Foreign calls metric)
    (later : List Call) : Foreign (calls ++ later) metric := by
  obtain ⟨hkind, before, after, hlatest, rfl⟩ := hforeign
  exact ⟨hkind, before, after ++ later, hlatest, by simp⟩

theorem Latest.append {calls : List Call} {kind : Kind} {handler : Handler}
    (hlatest : Latest calls kind handler) {made : Call}
    (hmade : ∀ other, made ≠ .registerHandler kind other) :
    Latest (calls ++ [made]) kind handler := by
  obtain ⟨before, after, rfl, hnone⟩ := hlatest
  refine ⟨before, after ++ [made], by simp, ?_⟩
  intro other hmem
  rcases List.mem_append.mp hmem with hmem | hmem
  · exact hnone other hmem
  · exact hmade other (List.mem_singleton.mp hmem).symm

/-- What calls that register leave in a writer. -/
structure Told (calls : List Call) (writer : Writer) : Prop where
  phase : writer.phase = .unstarted
  handlers : ∀ kind handler, writer.handlers.get? kind = some handler →
    handler.kind = kind ∨ Latest calls kind handler
  metrics : ∀ metric ∈ writer.metrics, Encodable metric ∨ Foreign calls metric

theorem kind_of_standard {kind : Kind} {handler : Handler}
    (hstandard : Registry.standard.get? kind = some handler) : handler.kind = kind := by
  cases kind with
  | _ =>
      cases hstandard
      rfl

theorem told_ofPath (path : String) (format : FileFormat) : Told [] (.ofPath path format) := by
  constructor
  · rfl
  · exact fun kind handler hstandard => .inl (kind_of_standard hstandard)
  · exact fun metric hmem => nomatch hmem

theorem Told.keep {calls : List Call} {writer : Writer} {made : Call} (htold : Told calls writer)
    (hmade : ∀ kind other, made ≠ .registerHandler kind other) : Told (calls ++ [made]) writer := by
  obtain ⟨hphase, hhandlers, hmetrics⟩ := htold
  constructor
  · exact hphase
  · intro kind handler hfound
    exact (hhandlers kind handler hfound).imp id fun hlatest => hlatest.append (hmade kind)
  · intro metric hmem
    exact (hmetrics metric hmem).imp id fun hforeign => hforeign.append _

/-- The writer with one more metric. -/
def enlisted (writer : Writer) (metric : Metric) : Writer :=
  { writer with
    metrics := writer.metrics ++ [metric]
    index := (metric.name, writer.metrics.length) :: writer.index }

/-- Everything that a call that registers can do to an unstarted writer. -/
inductive Entry (writer : Writer) : Call → Writer → Prop
  | refused {made : Call} : (∀ kind handler, made ≠ .registerHandler kind handler) →
      Entry writer made writer
  | handled (kind : Kind) (handler : Handler) :
      Entry writer (.registerHandler kind handler)
        { writer with handlers := writer.handlers.register kind handler }
  | resolved {name : String} {unit : PhysicalUnit} {semantics : Semantics} {handler : Handler}
      {initial : MetricValue} : writer.handlers.get? initial.kind = some handler →
      Entry writer (.addMetric name unit semantics initial)
        (enlisted writer ⟨name, semantics, unit, handler, initial⟩)
  | own {name : String} {unit : PhysicalUnit} {semantics : Semantics} {handler : Handler}
      {initial : MetricValue} : handler.kind = initial.kind →
      Entry writer (.addMetricWithHandler name unit semantics handler initial)
        (enlisted writer ⟨name, semantics, unit, handler, initial⟩)

theorem entry_of_insert {writer : Writer} {made : Call} {metric : Metric} (volume : Volume)
    (hmade : ∀ kind handler, made ≠ .registerHandler kind handler)
    (hmetric : Entry writer made (enlisted writer metric)) :
    Entry writer made (writer.answer volume (writer.insert metric)).writer := by
  cases hinsert : writer.insert metric with
  | error fault => exact .refused hmade
  | ok answer =>
      obtain ⟨next, events⟩ := answer
      simp only [Writer.insert, Outcome.bind_eq_ok] at hinsert
      obtain ⟨_, _, hrest⟩ := hinsert
      split at hrest
      · cases hrest
      · cases hrest
        exact hmetric

theorem addMetricWithHandler_of_ne {writer : Writer} (hphase : writer.phase = .unstarted)
    (volume : Volume) (name : String) (unit : PhysicalUnit) (semantics : Semantics)
    {handler : Handler} {initial : MetricValue} (hne : handler.kind ≠ initial.kind) :
    writer.addMetricWithHandler volume name unit semantics handler initial =
      ⟨writer, volume, [], (ConfigurationError.typeMismatch handler.kind initial.kind).refuse⟩ := by
  rw [Writer.addMetricWithHandler, ensureUnstarted_eq_ok.mpr hphase, if_pos hne]
  rfl

theorem entry_of_call {writer : Writer} (hphase : writer.phase = .unstarted) (volume : Volume)
    {made : Call} (hmade : Registers made) :
    Entry writer made (call writer volume made).writer := by
  cases made with
  | registerHandler kind handler =>
      rw [call, Writer.registerHandler, ensureUnstarted_eq_ok.mpr hphase]
      exact .handled kind handler
  | addMetric name unit semantics initial =>
      rw [call, Writer.addMetric, ensureUnstarted_eq_ok.mpr hphase]
      cases hfound : writer.handlers.get? initial.kind with
      | none =>
          simp only [Registry.resolve, hfound]
          exact .refused (by simp)
      | some handler =>
          simp only [Registry.resolve, hfound]
          exact entry_of_insert volume (by simp) (.resolved hfound)
  | addMetricWithHandler name unit semantics handler initial =>
      by_cases hkind : handler.kind = initial.kind
      · rw [call, Writer.addMetricWithHandler, ensureUnstarted_eq_ok.mpr hphase,
          if_neg (fun hne => hne hkind)]
        exact entry_of_insert volume (by simp) (.own hkind)
      · rw [call, addMetricWithHandler_of_ne hphase volume name unit semantics hkind]
        exact .refused (by simp)
  | _ => exact hmade.elim

theorem forall_mem_enlisted {writer : Writer} {metric : Metric} {p : Metric → Prop}
    (hold : ∀ other ∈ writer.metrics, p other) (hnew : p metric) :
    ∀ other ∈ (enlisted writer metric).metrics, p other := by
  intro other hmem
  rcases List.mem_append.mp hmem with hmem | hmem
  · exact hold other hmem
  · exact List.mem_singleton.mp hmem ▸ hnew

theorem get?_register_cases {registry : Registry} {kind other : Kind} {handler found : Handler}
    (hfound : (registry.register kind handler).get? other = some found) :
    other = kind ∧ found = handler ∨ other ≠ kind ∧ registry.get? other = some found := by
  by_cases hsame : other = kind
  · subst hsame
    rw [Registry.get?_register_self] at hfound
    cases hfound
    exact .inl ⟨rfl, rfl⟩
  · rw [Registry.get?_register_of_ne _ _ hsame] at hfound
    exact .inr ⟨hsame, hfound⟩

theorem Told.handle {calls : List Call} {writer : Writer} (htold : Told calls writer) (kind : Kind)
    (handler : Handler) : Told (calls ++ [.registerHandler kind handler])
      { writer with handlers := writer.handlers.register kind handler } := by
  constructor
  · exact htold.phase
  · intro other found hfound
    rcases get?_register_cases hfound with ⟨rfl, rfl⟩ | ⟨hne, hfound⟩
    · exact .inr ⟨calls, [], rfl, fun _ => List.not_mem_nil⟩
    · refine (htold.handlers other found hfound).imp id fun hlatest => hlatest.append ?_
      rintro another hequal
      cases hequal
      exact hne rfl
  · intro metric hmem
    exact (htold.metrics metric hmem).imp id fun hforeign => hforeign.append _

theorem Told.enlist {calls : List Call} {writer : Writer} {metric : Metric}
    (htold : Told calls writer) (hmetric : Encodable metric ∨ Foreign calls metric) :
    Told calls (enlisted writer metric) :=
  ⟨htold.phase, htold.handlers, forall_mem_enlisted htold.metrics hmetric⟩

theorem told_of_entry {calls : List Call} {writer next : Writer} {made : Call}
    (htold : Told calls writer) (hentry : Entry writer made next) :
    Told (calls ++ [made]) next := by
  cases hentry with
  | refused hmade => exact htold.keep hmade
  | handled kind handler => exact htold.handle kind handler
  | @resolved name unit semantics handler initial hfound =>
      refine (htold.keep (by simp)).enlist ?_
      by_cases hkind : handler.kind = initial.kind
      · exact .inl hkind
      · have hlatest := (htold.handlers initial.kind handler hfound).resolve_left hkind
        exact .inr ⟨hkind, calls, [], hlatest, rfl⟩
  | own hkind => exact (htold.keep (by simp)).enlist (.inl hkind)

theorem told_of_calls {calls : List Call} {writer : Writer} (volume : Volume)
    (htold : Told calls writer) {later : List Call} (hlater : ∀ made ∈ later, Registers made) :
    Told (calls ++ later) (registered writer volume later) := by
  induction later generalizing calls writer with
  | nil => simpa [registered] using htold
  | cons made later ih =>
      have hentry := entry_of_call htold.phase volume (hlater made List.mem_cons_self)
      have hrest := ih (told_of_entry htold hentry) fun other hmem =>
        hlater other (List.mem_cons_of_mem _ hmem)
      simpa [registered] using hrest

theorem kind_of_putBytes {handler : Handler} {value : MetricValue} {width : Nat}
    {held : Fin width → UInt8} {laid : Patch}
    (hput : handler.putBytes width held value = .ok laid) :
    handler.kind = value.kind := by
  simp only [Handler.putBytes] at hput
  split at hput
  · cases hput
  · split at hput
    · cases hput
    · rename_i hkind
      exact (Decidable.not_not.mp hkind).symm

theorem encodable_of_start {writer : Writer} {volume : Volume} {generation : UInt64}
    (hstart : (writer.start volume generation).result = .ok ()) :
    ∀ metric ∈ writer.metrics, Encodable metric := by
  intro metric hmem
  obtain ⟨layout, file, hstarted⟩ := started_of_start hstart
  have hslotted := slotted_of_plan hstarted.plan
  rw [← List.map_fst_zip (Nat.le_of_eq hslotted.each.symm)] at hmem
  obtain ⟨entry, hentry, rfl⟩ := List.mem_map.mp hmem
  obtain ⟨laid, hput, _⟩ := hstarted.published.read_slot hslotted hentry
  exact kind_of_putBytes hput

theorem patch_of_run {image : Image} {writes : List Write} {fault : Fault}
    (hrun : (Write.run image writes).2 = .error fault) :
    ∃ write ∈ writes, ∃ before, Write.patch before write = .error fault := by
  obtain ⟨before, write, after, rfl, _, hfault⟩ := exists_patch_of_run (Prod.ext rfl hrun)
  exact ⟨write, List.mem_append_right _ List.mem_cons_self, _, hfault⟩

theorem inside_ne_refused {size offset : Nat} {patch : Patch} {error : Error} :
    Write.inside size offset patch ≠ .error (.refused error) := by
  rw [Write.inside]
  split <;> simp

theorem slot_of_mismatch {image : Image} {write : Write} {expected actual : Kind}
    (hpatch : Write.patch image write =
      (ConfigurationError.typeMismatch expected actual).refuse) :
    ∃ offset handler value, write = .slot offset handler value ∧
      (handler.kind ≠ value.kind ∧ expected = handler.kind ∧ actual = value.kind ∨
        handler.kind = value.kind ∧ ∃ held, handler.encode value handler.dataLength.toNat held =
          (ConfigurationError.typeMismatch expected actual).refuse) := by
  cases write with
  | bytes offset data => exact absurd hpatch inside_ne_refused
  | field offset width data =>
      simp only [Write.patch] at hpatch
      split at hpatch
      · cases hpatch
      · split at hpatch
        · exact absurd hpatch inside_ne_refused
        · cases hpatch
  | slot offset handler value =>
      refine ⟨offset, handler, value, rfl, ?_⟩
      simp only [Write.patch] at hpatch
      split at hpatch
      · cases hpatch
      · split at hpatch
        · cases hpatch
        · -- The slot is as wide as the handler says, so the check of its length passes.
          simp only [Handler.putBytes, ne_eq, not_true, if_false] at hpatch
          split at hpatch
          · rename_i hne
            cases hpatch
            exact .inl ⟨fun hsame => hne hsame.symm, rfl, rfl⟩
          · rename_i hkind
            have hsame := (Decidable.not_not.mp hkind).symm
            refine .inr ⟨hsame, fun i => image.byte (offset + i), ?_⟩
            cases hencode : handler.encode value handler.dataLength.toNat
                fun i => image.byte (offset + i) with
            | error fault =>
                rw [hencode] at hpatch
                cases hpatch
                rfl
            | ok laid =>
                rw [hencode] at hpatch
                cases hpatch

theorem metric_of_slot {format : FileFormat} {layout : Layout} {metrics : List Metric}
    {generation : UInt64} {offset : Nat} {handler : Handler} {value : MetricValue}
    (hmem : .slot offset handler value ∈ format.structureWrites layout metrics generation) :
    ∃ metric ∈ metrics, handler = metric.handler ∧ value = metric.initial := by
  rw [structureWrites_eq_append] at hmem
  rcases List.mem_append.mp hmem with hfront | hvalues
  · exact absurd rfl (direct_of_mem_front hfront offset handler value)
  · obtain ⟨entry, hentry, hslot⟩ := List.mem_map.mp hvalues
    cases hslot
    exact ⟨entry.1, (List.of_mem_zip hentry).1, rfl, rfl⟩

theorem ofParts_ne_configuration {length : Nat} {offsets : List Offsets} {blocks : List Block}
    {cause : ConfigurationError} : Layout.ofParts length offsets blocks ≠ cause.refuse := by
  rw [Layout.ofParts]
  split <;> simp [MappingError.refuse, ConfigurationError.refuse]

theorem described_ne_configuration {metrics : List Metric} {cause : ConfigurationError} :
    (FileFormat.Described.plan? metrics).getD (.error (.halted .overflow)) ≠ cause.refuse := by
  cases hplanned : FileFormat.Described.plan? metrics with
  | none => simp [ConfigurationError.refuse]
  | some outcome =>
      rw [Option.getD_some, eq_ofParts_of_plan? hplanned]
      exact ofParts_ne_configuration

theorem plan_ne_mismatch {format : FileFormat} {metrics : List Metric} {expected actual : Kind} :
    format.plan metrics ≠ (ConfigurationError.typeMismatch expected actual).refuse := by
  cases format with
  | legacy =>
      simp only [FileFormat.plan]
      cases hplanned : FileFormat.Packed.plan? metrics with
      | none => simp [ConfigurationError.refuse]
      | some outcome =>
          simp only [FileFormat.Packed.plan?, Option.bind_eq_bind, Option.bind_eq_some_iff,
            Option.some.injEq] at hplanned
          obtain ⟨_, _, rfl⟩ := hplanned
          exact ofParts_ne_configuration
  | mmv =>
      simp only [FileFormat.plan]
      split
      · simp [ConfigurationError.refuse]
      · exact described_ne_configuration

theorem create_ne_mismatch {volume next : Volume} {path : String} {length : Nat} {fault : Fault}
    (hcreate : MappedFile.create volume path length = (next, .error fault))
    {expected actual : Kind} :
    fault ≠ .refused (.configuration (.typeMismatch expected actual)) := by
  simp only [MappedFile.create] at hcreate
  split at hcreate
  · cases hcreate
    simp
  · split at hcreate
    · cases hcreate
      simp
    · cases hcreate

/-- A metric's first value is refused for its kind: the metric's handler is of another kind, or it
is a handler made by a program and refuses a value of its own kind. -/
def Refuses (metric : Metric) (expected actual : Kind) : Prop :=
  ¬ Encodable metric ∧ expected = metric.handler.kind ∧ actual = metric.initial.kind ∨
    ¬ BuiltIn metric.handler ∧ ∃ held,
      metric.handler.encode metric.initial metric.handler.dataLength.toNat held =
        (ConfigurationError.typeMismatch expected actual).refuse

theorem refuses_of_run {image : Image} {format : FileFormat} {layout : Layout}
    {metrics : List Metric} {generation : UInt64} {expected actual : Kind}
    (hrun : (Write.run image (format.structureWrites layout metrics generation)).2 =
      (ConfigurationError.typeMismatch expected actual).refuse) :
    ∃ metric ∈ metrics, Refuses metric expected actual := by
  obtain ⟨write, hmem, before, hpatch⟩ := patch_of_run hrun
  obtain ⟨offset, handler, value, rfl, hcause⟩ := slot_of_mismatch hpatch
  obtain ⟨metric, hmetric, rfl, rfl⟩ := metric_of_slot hmem
  refine ⟨metric, hmetric, hcause.imp id ?_⟩
  rintro ⟨hkind, held, hencode⟩
  refine ⟨fun hbuiltIn => ?_, held, hencode⟩
  obtain ⟨laid, hput, _⟩ := putBytes_builtIn hbuiltIn hkind held
  rw [putBytes_of_kind hkind, hencode] at hput
  cases hput

theorem mark_ne_mismatch {image : Image} {format : FileFormat} {generation : UInt64}
    {expected actual : Kind} : (Write.run image [format.publishWrite generation]).2 ≠
      (ConfigurationError.typeMismatch expected actual).refuse := by
  intro hrun
  obtain ⟨write, hmem, before, hpatch⟩ := patch_of_run hrun
  obtain ⟨offset, handler, value, rfl, _⟩ := slot_of_mismatch hpatch
  cases format <;> simp [FileFormat.publishWrite, Write.wide] at hmem

theorem refuses_of_publish {writer : Writer} {volume : Volume} {layout : Layout}
    {generation : UInt64} {expected actual : Kind}
    (hpublish : (writer.publish volume layout generation).2 =
      (ConfigurationError.typeMismatch expected actual).refuse) :
    ∃ metric ∈ writer.metrics, Refuses metric expected actual := by
  have hmark : ∀ {image : Image} {made : MappedFile × Option String},
      ((Write.run image [writer.format.publishWrite generation]).2.map fun _ => made) ≠
        (ConfigurationError.typeMismatch expected actual).refuse := by
    intro image made hmade
    cases hrun : (Write.run image [writer.format.publishWrite generation]).2 with
    | ok =>
        rw [hrun] at hmade
        cases hmade
    | error fault =>
        rw [hrun] at hmade
        cases hmade
        exact mark_ne_mismatch hrun
  simp only [Writer.publish] at hpublish
  split at hpublish
  · rename_i hcreate
    cases hpublish
    exact absurd rfl (create_ne_mismatch hcreate)
  · split at hpublish
    · rename_i hrun
      cases hpublish
      exact refuses_of_run (congrArg Prod.snd hrun)
    · split at hpublish
      · exact absurd hpublish hmark
      · split at hpublish
        · cases hpublish
        · exact absurd hpublish hmark

theorem refuses_of_start {writer : Writer} {volume : Volume} {generation : UInt64}
    {expected actual : Kind} (hstart : (writer.start volume generation).result =
      (ConfigurationError.typeMismatch expected actual).refuse) :
    ∃ metric ∈ writer.metrics, Refuses metric expected actual := by
  simp only [Writer.start, Writer.startBy] at hstart
  split at hstart
  · cases hstart
  · cases hstart
  · split at hstart
    · rename_i hplan
      cases hstart
      exact absurd hplan plan_ne_mismatch
    · split at hstart
      · rename_i hpublish
        cases hstart
        exact refuses_of_publish (congrArg Prod.snd hpublish)
      · cases hstart

/-- What becomes of handlers of another kind than a value. -/
structure KindsChecked (calls : List Call) (volume : Volume) (writer : Writer) : Prop where
  /-- A metric that is accepted can be encoded, but for a foreign handler that was registered. -/
  accepted : ∀ metric ∈ writer.metrics, Encodable metric ∨ Foreign calls metric
  /-- A metric's own handler is checked when the metric is added. -/
  refused : ∀ name unit semantics handler initial, handler.kind ≠ initial.kind →
    writer.addMetricWithHandler volume name unit semantics handler initial =
      ⟨writer, volume, [], (ConfigurationError.typeMismatch handler.kind initial.kind).refuse⟩
  started : ∀ generation, (writer.start volume generation).result = .ok () →
    ∀ metric ∈ writer.metrics, Encodable metric
  failed : ∀ generation expected actual, (writer.start volume generation).result =
      (ConfigurationError.typeMismatch expected actual).refuse →
    ∃ metric ∈ writer.metrics, Refuses metric expected actual

/-- A metric whose value its handler does not encode comes only from a handler that was registered
for a kind that it is not of, and no start succeeds with it. -/
theorem kindsChecked_of_calls {calls : List Call} (hcalls : ∀ made ∈ calls, Registers made)
    (path : String) (format : FileFormat) (volume : Volume) :
    KindsChecked calls volume (registered (.ofPath path format) volume calls) := by
  have htold : Told calls (registered (.ofPath path format) volume calls) :=
    told_of_calls volume (told_ofPath path format) hcalls
  constructor
  · exact htold.metrics
  · intro name unit semantics handler initial hne
    exact addMetricWithHandler_of_ne htold.phase volume name unit semantics hne
  · exact fun generation hstart => encodable_of_start hstart
  · exact fun generation expected actual hstart => refuses_of_start hstart

/-- A handler of texts is registered for a kind of numbers, and a metric of that kind is added. -/
def textForCount : List Call :=
  [.registerHandler .i32 (.text 10), .addMetric "count" .item .counter (.i32 3)]

def textForCountWriter : Writer :=
  registered (.ofPath "m" .mmv) .empty textForCount

theorem registers_textForCount : ∀ made ∈ textForCount, Registers made := by
  simp [textForCount, Registers]

theorem kindsChecked_textForCount :
    (∀ made ∈ textForCount, Registers made) ∧
      KindsChecked textForCount .empty textForCountWriter :=
  ⟨registers_textForCount, kindsChecked_of_calls registers_textForCount "m" .mmv .empty⟩

theorem start_textForCount : (textForCountWriter.start .empty 7).result =
    (ConfigurationError.typeMismatch .str .i32).refuse := by
  have hplan : textForCountWriter.format.plan textForCountWriter.metrics = .ok
      ⟨194, [⟨some 80, some 160, 184⟩],
        [⟨.metrics, 80, 1⟩, ⟨.values, 160, 1⟩, ⟨.strings, 184, 1⟩], by decide⟩ := rfl
  have hphase : textForCountWriter.phase = .unstarted := rfl
  have hpath : textForCountWriter.path = "m" := rfl
  rw [Writer.start, Writer.startBy, hphase, hplan]
  simp only [Writer.publish, hpath, create_m (show 194 ≤ Volume.maxLength by decide)]
  rfl

/-- A writer can accept a metric whose value its handler does not encode, so that a start fails for
the kind of a value. -/
theorem not_encodable_textForCount : ¬ ∀ calls path format volume,
    (∀ made ∈ calls, Registers made) →
      (∀ metric ∈ (registered (.ofPath path format) volume calls).metrics, Encodable metric) ∧
      ∀ generation expected actual,
        ((registered (.ofPath path format) volume calls).start volume generation).result ≠
          (ConfigurationError.typeMismatch expected actual).refuse := by
  intro hall
  exact (hall textForCount "m" .mmv .empty registers_textForCount).2 7 .str .i32
    start_textForCount

end MappedMetrics.Proofs.RegisteredKinds
