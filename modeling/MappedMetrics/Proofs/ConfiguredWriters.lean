import Mathlib.Data.List.Forall2
import MappedMetrics.Config.Json
import MappedMetrics.Proofs.RegisteredKinds

/-!
Writers of configurations. The entries of a configuration are looked at twice, by a check of the
whole configuration and then as they are registered one by one. Both take the same entries, so a
configuration that passes the check is registered whole, and what it is refused for is what the
check found first.
-/

namespace MappedMetrics.Proofs.ConfiguredWriters

open MappedMetrics
open MappedMetrics.Proofs.WriterCalls
open MappedMetrics.Proofs.RegisteredKinds

/-- The handler of a kind as long as no other one was registered for it. -/
def defaultHandler : Kind → Handler
  | .str => .standardText
  | kind => .numeric kind

theorem get?_standard (kind : Kind) : Registry.standard.get? kind = some (defaultHandler kind) := by
  cases kind <;> rfl

/-- The metric of an entry whose text stands for a unit. -/
def metricOf (entry : MetricConfig) (unit : PhysicalUnit) : Metric where
  name := entry.name
  semantics := entry.semantics
  unit := unit
  handler := defaultHandler entry.initial.kind
  initial := entry.initial

/-- A metric is the one that an entry describes. -/
def Describes (entry : MetricConfig) (metric : Metric) : Prop :=
  ∃ unit, PhysicalUnit.parse entry.unit = .ok unit ∧ metric = metricOf entry unit

/-- Entries that a format can take beside the names already seen. -/
structure Orderly (format : FileFormat) (seen : List String) (entries : List MetricConfig) :
    Prop where
  fit : ∀ entry ∈ entries, format.validateName entry.name = .ok ()
  fresh : ∀ entry ∈ entries, entry.name ∉ seen
  distinct : (entries.map MetricConfig.name).Nodup
  units : ∀ entry ∈ entries, ∃ unit, PhysicalUnit.parse entry.unit = .ok unit

/-- A writer that is still to be started, with the standard handlers and metrics of given names. -/
structure Ready (seen : List String) (writer : Writer) : Prop where
  phase : writer.phase = .unstarted
  handlers : writer.handlers = .standard
  index : ∀ name, (writer.index? name).isSome = true ↔ name ∈ seen

section Entries

variable {format : FileFormat} {seen : List String} {entry : MetricConfig}
  {entries : List MetricConfig}

theorem orderly_nil : Orderly format seen [] := by
  constructor <;> simp

theorem orderly_cons : Orderly format seen (entry :: entries) ↔
    format.validateName entry.name = .ok () ∧ entry.name ∉ seen ∧
      (∃ unit, PhysicalUnit.parse entry.unit = .ok unit) ∧
      Orderly format (entry.name :: seen) entries := by
  constructor
  · rintro ⟨hfit, hfresh, hdistinct, hunits⟩
    simp only [List.mem_cons, forall_eq_or_imp] at hfit hfresh hunits
    simp only [List.map_cons, List.nodup_cons] at hdistinct
    refine ⟨hfit.1, hfresh.1, hunits.1, hfit.2, ?_, hdistinct.2, hunits.2⟩
    intro other hmem hseen
    rcases List.mem_cons.mp hseen with hsame | hseen
    · exact hdistinct.1 (List.mem_map.mpr ⟨other, hmem, hsame⟩)
    · exact hfresh.2 other hmem hseen
  · rintro ⟨hname, hnew, hunit, hfit, hfresh, hdistinct, hunits⟩
    constructor
    · simp only [List.mem_cons, forall_eq_or_imp]
      exact ⟨hname, hfit⟩
    · simp only [List.mem_cons, forall_eq_or_imp]
      exact ⟨hnew, fun other hmem hseen => hfresh other hmem (List.mem_cons_of_mem _ hseen)⟩
    · rw [List.map_cons, List.nodup_cons]
      refine ⟨fun hmem => ?_, hdistinct⟩
      obtain ⟨other, hother, hsame⟩ := List.mem_map.mp hmem
      exact hfresh other hother (hsame ▸ List.mem_cons_self)
    · simp only [List.mem_cons, forall_eq_or_imp]
      exact ⟨hunit, hunits⟩

theorem validateMetrics_eq_ok_iff :
    WriterConfig.validateMetrics format seen entries = .ok () ↔ Orderly format seen entries := by
  induction entries generalizing seen with
  | nil => exact iff_of_true rfl orderly_nil
  | cons entry entries ih =>
      rw [WriterConfig.validateMetrics, orderly_cons, ← ih]
      by_cases hseen : entry.name ∈ seen
      · simp [Outcome.bind_eq_ok, hseen, ConfigurationError.refuse]
      · simp [Outcome.bind_eq_ok, hseen, Unique.exists_iff]

theorem validate_eq_ok_iff {config : WriterConfig} :
    config.validate = .ok () ↔
      config.queueCapacity ≠ 0 ∧ Orderly config.format [] config.metrics := by
  rw [← validateMetrics_eq_ok_iff, WriterConfig.validate]
  split
  · rename_i hzero
    simp [hzero, ConfigurationError.refuse]
  · rename_i hroomy
    simp [hroomy]

end Entries

section Registration

variable {seen : List String} {writer : Writer} {entry : MetricConfig}
  {entries : List MetricConfig}

theorem ready_ofPath (path : String) (format : FileFormat) : Ready [] (.ofPath path format) :=
  ⟨rfl, rfl, fun name => by simp [Writer.index?, Writer.ofPath]⟩

theorem Ready.enlist (hready : Ready seen writer) (metric : Metric) :
    Ready (metric.name :: seen) (enlisted writer metric) := by
  refine ⟨hready.phase, hready.handlers, fun name => ?_⟩
  simp only [Writer.index?, enlisted, List.lookup_cons, List.mem_cons]
  by_cases hsame : name = metric.name
  · simp [hsame]
  · have hindex := hready.index name
    rw [Writer.index?] at hindex
    rw [beq_eq_false_iff_ne.mpr hsame, hindex]
    exact (or_iff_right hsame).symm

theorem addMetric_eq_ok_iff (hready : Ready seen writer) (volume : Volume) (unit : PhysicalUnit) :
    (writer.addMetric volume entry.name unit entry.semantics entry.initial).result = .ok () ↔
      writer.format.validateName entry.name = .ok () ∧ entry.name ∉ seen := by
  have hfound := hready.index entry.name
  simp only [Writer.addMetric, ensureUnstarted_eq_ok.mpr hready.phase, Registry.resolve,
    hready.handlers, get?_standard, Writer.insert, bind, Except.bind]
  cases hname : writer.format.validateName entry.name with
  | error fault => simp [Writer.answer]
  | ok =>
      by_cases hseen : entry.name ∈ seen
      · simp [hfound.mpr hseen, hseen, Writer.answer, ConfigurationError.refuse]
      · simp [mt hfound.mp hseen, hseen, Writer.answer, pure, Except.pure]

theorem writer_addMetric (hready : Ready seen writer) (volume : Volume) (unit : PhysicalUnit)
    (hok : (writer.addMetric volume entry.name unit entry.semantics entry.initial).result =
      .ok ()) :
    (writer.addMetric volume entry.name unit entry.semantics entry.initial).writer =
      enlisted writer (metricOf entry unit) := by
  obtain ⟨hname, hnew⟩ := (addMetric_eq_ok_iff hready volume unit).mp hok
  have hnone : ¬ (writer.index? entry.name).isSome = true := mt (hready.index entry.name).mp hnew
  simp [Writer.addMetric, ensureUnstarted_eq_ok.mpr hready.phase, Registry.resolve,
    hready.handlers, get?_standard, Writer.insert, hname, hnone, bind, Except.bind, Writer.answer,
    pure, Except.pure, enlisted, metricOf]

theorem addAll_cons_eq_ok_iff (hready : Ready seen writer) (volume : Volume) {next : Writer} :
    (∃ events, writer.addAll volume (entry :: entries) = .ok (next, events)) ↔
      ∃ unit, PhysicalUnit.parse entry.unit = .ok unit ∧
        (writer.format.validateName entry.name = .ok () ∧ entry.name ∉ seen) ∧
        ∃ events, (enlisted writer (metricOf entry unit)).addAll volume entries =
          .ok (next, events) := by
  constructor
  · rintro ⟨events, hall⟩
    simp only [Writer.addAll, Outcome.bind_eq_ok] at hall
    obtain ⟨unit, hunit, _, hok, ⟨last, later⟩, hlater, hnext⟩ := hall
    cases hnext
    rw [writer_addMetric hready volume unit hok] at hlater
    exact ⟨unit, hunit, (addMetric_eq_ok_iff hready volume unit).mp hok, later, hlater⟩
  · rintro ⟨unit, hunit, htaken, later, hlater⟩
    have hok := (addMetric_eq_ok_iff hready volume unit).mpr htaken
    rw [← writer_addMetric hready volume unit hok] at hlater
    simp only [Writer.addAll, Outcome.bind_eq_ok]
    exact ⟨_, unit, hunit, (), hok, (next, later), hlater, rfl⟩

theorem exists_addAll_iff (hready : Ready seen writer) (volume : Volume) :
    (∃ next events, writer.addAll volume entries = .ok (next, events)) ↔
      Orderly writer.format seen entries := by
  induction entries generalizing seen writer with
  | nil => exact iff_of_true ⟨writer, [], rfl⟩ orderly_nil
  | cons entry entries ih =>
      simp only [addAll_cons_eq_ok_iff hready volume, orderly_cons]
      constructor
      · rintro ⟨next, unit, hunit, ⟨hname, hnew⟩, hlater⟩
        have hrest := (ih (hready.enlist (metricOf entry unit))).mp ⟨next, hlater⟩
        exact ⟨hname, hnew, ⟨unit, hunit⟩, hrest⟩
      · rintro ⟨hname, hnew, ⟨unit, hunit⟩, hrest⟩
        obtain ⟨next, hlater⟩ := (ih (hready.enlist (metricOf entry unit))).mpr hrest
        exact ⟨next, unit, hunit, ⟨hname, hnew⟩, hlater⟩

/-- What registering leaves as it is, and the metrics that it appends. -/
structure Extends (entries : List MetricConfig) (before after : Writer) : Prop where
  path : after.path = before.path
  format : after.format = before.format
  phase : after.phase = before.phase
  handlers : after.handlers = before.handlers
  metrics : ∃ metrics, List.Forall₂ Describes entries metrics ∧
    after.metrics = before.metrics ++ metrics

theorem extends_of_addAll (hready : Ready seen writer) {volume : Volume} {next : Writer}
    {events : List Event} (hall : writer.addAll volume entries = .ok (next, events)) :
    Extends entries writer next := by
  induction entries generalizing seen writer events with
  | nil =>
      cases hall
      exact ⟨rfl, rfl, rfl, rfl, [], .nil, by rw [List.append_nil]⟩
  | cons entry entries ih =>
      obtain ⟨unit, hunit, -, later, hlater⟩ :=
        (addAll_cons_eq_ok_iff hready volume).mp ⟨events, hall⟩
      obtain ⟨hpath, hformat, hphase, hhandlers, metrics, hmetrics, hnext⟩ :=
        ih (hready.enlist (metricOf entry unit)) hlater
      refine ⟨hpath, hformat, hphase, hhandlers, metricOf entry unit :: metrics,
        .cons ⟨unit, hunit, rfl⟩ hmetrics, ?_⟩
      rw [hnext, enlisted, List.append_assoc, List.singleton_append]

end Registration

/-- The unstarted writer of a configuration. -/
structure Built (config : WriterConfig) (writer : Writer) : Prop where
  path : writer.path = config.path
  format : writer.format = config.format
  phase : writer.phase = .unstarted
  handlers : writer.handlers = .standard
  metrics : List.Forall₂ Describes config.metrics writer.metrics

/-- How a check of a configuration and its registration agree. -/
structure CheckedAlike (config : WriterConfig) : Prop where
  orderly : config.validate = .ok () ↔
    config.queueCapacity ≠ 0 ∧ Orderly config.format [] config.metrics
  /-- Registration alone takes the same entries. -/
  registered : (∃ writer events, (Writer.ofPath config.path config.format).addAll .empty
    config.metrics = .ok (writer, events)) ↔ Orderly config.format [] config.metrics
  accepted : (∃ writer events, Writer.ofConfig config = .ok (writer, events)) ↔
    config.validate = .ok ()
  refused : ∀ fault, Writer.ofConfig config = .error fault ↔ config.validate = .error fault
  built : ∀ writer events, Writer.ofConfig config = .ok (writer, events) → Built config writer
  /-- What was read from a file is registered whole. -/
  read : ∀ volume path, WriterConfig.ofFile volume path = .ok config →
    ∃ writer events, Writer.ofConfig config = .ok (writer, events)

theorem exists_ofConfig {config : WriterConfig} (hvalid : config.validate = .ok ()) :
    ∃ writer events, Writer.ofConfig config = .ok (writer, events) ∧ Built config writer := by
  have hready := ready_ofPath config.path config.format
  obtain ⟨writer, events, hall⟩ :=
    (exists_addAll_iff hready .empty).mpr (validate_eq_ok_iff.mp hvalid).2
  obtain ⟨hpath, hformat, hphase, hhandlers, metrics, hmetrics, hnext⟩ :=
    extends_of_addAll hready hall
  refine ⟨writer, events, Outcome.bind_eq_ok.mpr ⟨(), hvalid, hall⟩, hpath, hformat, hphase,
    hhandlers, ?_⟩
  rw [hnext]
  exact hmetrics

theorem ofConfig_eq_error_iff {config : WriterConfig} {fault : Fault} :
    Writer.ofConfig config = .error fault ↔ config.validate = .error fault := by
  cases hvalidate : config.validate with
  | ok =>
      obtain ⟨writer, events, hmade, -⟩ := exists_ofConfig hvalidate
      simp [hmade]
  | error found => simp [Writer.ofConfig, hvalidate, bind, Except.bind]

theorem validate_of_ofConfig {config : WriterConfig} {answer : Writer × List Event}
    (hmade : Writer.ofConfig config = .ok answer) : config.validate = .ok () := by
  obtain ⟨_, hvalid, _⟩ := Outcome.bind_eq_ok.mp hmade
  exact hvalid

theorem validate_of_ofFile {volume : Volume} {path : String} {config : WriterConfig}
    (hread : WriterConfig.ofFile volume path = .ok config) : config.validate = .ok () := by
  simp only [WriterConfig.ofFile] at hread
  split at hread
  · cases hread
  · split at hread
    · cases hread
    · split at hread
      · cases hread
      · obtain ⟨_, hvalid, hconfig⟩ := Outcome.bind_eq_ok.mp hread
        cases hconfig
        exact hvalid

/-- A configuration becomes a writer if and only if it passes the check; the writer has the metrics
that the entries describe, in their order, and what is refused is refused for what the check found
first. -/
theorem checkedAlike_of_config (config : WriterConfig) : CheckedAlike config := by
  constructor
  · exact validate_eq_ok_iff
  · exact exists_addAll_iff (ready_ofPath _ _) _
  · refine ⟨fun ⟨_, _, hmade⟩ => validate_of_ofConfig hmade, fun hvalid => ?_⟩
    obtain ⟨writer, events, hmade, -⟩ := exists_ofConfig hvalid
    exact ⟨writer, events, hmade⟩
  · exact fun fault => ofConfig_eq_error_iff
  · intro writer events hmade
    obtain ⟨other, later, hother, hbuilt⟩ := exists_ofConfig (validate_of_ofConfig hmade)
    rw [hmade] at hother
    cases hother
    exact hbuilt
  · intro volume path hread
    obtain ⟨writer, events, hmade, -⟩ := exists_ofConfig (validate_of_ofFile hread)
    exact ⟨writer, events, hmade⟩

end MappedMetrics.Proofs.ConfiguredWriters
