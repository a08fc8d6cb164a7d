import MappedMetrics.Proofs.RegisteredKinds
import MappedMetrics.Proofs.WriterStates

namespace MappedMetrics.Proofs.InlineWidths

open MappedMetrics
open MappedMetrics.Layout
open MappedMetrics.Proofs.SelfDescribingLayout
open MappedMetrics.Proofs.WriterCalls
open MappedMetrics.Proofs.WriterStates
open MappedMetrics.Proofs.RegisteredKinds

/-- Values fit neither a record nor have slots of their own. -/
def Wide (handler : Handler) : Prop :=
  handler.large = false ∧ 16 < handler.dataLength.toNat

instance : DecidablePred Wide := fun handler =>
  inferInstanceAs (Decidable (handler.large = false ∧ 16 < handler.dataLength.toNat))

/-- The first of metrics whose handler is wide. -/
def FirstWide (metrics : List Metric) (metric : Metric) : Prop :=
  Wide metric.handler ∧ ∃ before after, metrics = before ++ metric :: after ∧
    ∀ other ∈ before, ¬ Wide other.handler

section Plan

variable {metrics : List Metric} {metric : Metric}

theorem oversized?_eq (metrics : List Metric) :
    FileFormat.Described.oversized? metrics =
      (metrics.find? fun metric => Wide metric.handler).map Metric.handler := by
  rw [FileFormat.Described.oversized?, List.find?_map]
  congr 2
  funext metric
  rw [Function.comp_apply, Bool.eq_iff_iff, Bool.and_eq_true, Bool.not_eq_true',
    decide_eq_true_eq, decide_eq_true_eq, UInt64.lt_iff_toNat_lt]
  rfl

theorem find?_eq_some_iff : (metrics.find? fun metric => Wide metric.handler) = some metric ↔
    FirstWide metrics metric := by
  simp only [List.find?_eq_some_iff_append, decide_eq_true_eq, Bool.not_eq_true',
    decide_eq_false_iff_not]
  rfl

theorem exists_firstWide (hmem : metric ∈ metrics) (hwide : Wide metric.handler) :
    ∃ first, FirstWide metrics first := by
  have hsome : (metrics.find? fun metric => Wide metric.handler).isSome := by
    rw [List.find?_isSome]
    exact ⟨metric, hmem, decide_eq_true hwide⟩
  obtain ⟨first, hfirst⟩ := Option.isSome_iff_exists.mp hsome
  exact ⟨first, find?_eq_some_iff.mp hfirst⟩

theorem FirstWide.append (hfirst : FirstWide metrics metric) (later : List Metric) :
    FirstWide (metrics ++ later) metric := by
  obtain ⟨hwide, before, after, rfl, hnone⟩ := hfirst
  exact ⟨hwide, before, after ++ later, by simp, hnone⟩

theorem plan_of_firstWide (hfirst : FirstWide metrics metric) :
    FileFormat.mmv.plan metrics = (ConfigurationError.slotSize 16 (width metric)).refuse := by
  simp only [FileFormat.plan, oversized?_eq, find?_eq_some_iff.mpr hfirst, Option.map_some]
  rfl

theorem plan_of_not_wide (hnone : ∀ metric ∈ metrics, ¬ Wide metric.handler) :
    FileFormat.mmv.plan metrics =
      (FileFormat.Described.plan? metrics).getD (.error (.halted .overflow)) := by
  have hfind : (metrics.find? fun metric => Wide metric.handler) = none := by
    rw [List.find?_eq_none]
    intro metric hmem hwide
    exact hnone metric hmem (of_decide_eq_true hwide)
  simp only [FileFormat.plan, oversized?_eq, hfind, Option.map_none]

/-- What a plan of metrics gives, none of which is wide: only their length matters. -/
structure Planned (metrics : List Metric) (planned : Outcome Layout) : Prop where
  short : finish metrics ≤ maxLength →
    ∃ layout, planned = .ok layout ∧ layout.length = finish metrics
  long : maxLength < finish metrics → finish metrics + 8 < 2 ^ 64 →
    planned = (MappingError.tooLarge (finish metrics)).refuse
  /-- The sums leave the word, or the offsets can still be added up. -/
  endless : 2 ^ 64 ≤ finish metrics + 8 → planned = .error (.halted .overflow) ∨
    planned = (MappingError.tooLarge (finish metrics)).refuse

theorem plan_of_plan? (hnone : ∀ metric ∈ metrics, ¬ Wide metric.handler)
    {outcome : Outcome Layout} (hplanned : FileFormat.Described.plan? metrics = some outcome) :
    FileFormat.mmv.plan metrics = ofParts (finish metrics) ((places metrics).map Place.narrowed)
      (blocks metrics) := by
  rw [plan_of_not_wide hnone, hplanned, Option.getD_some, eq_ofParts_of_plan? hplanned]

theorem plan_of_long (hnone : ∀ metric ∈ metrics, ¬ Wide metric.handler)
    {outcome : Outcome Layout} (hplanned : FileFormat.Described.plan? metrics = some outcome)
    (hlong : maxLength < finish metrics) :
    FileFormat.mmv.plan metrics = (MappingError.tooLarge (finish metrics)).refuse := by
  rw [plan_of_plan? hnone hplanned, ofParts, dif_neg (Nat.not_le.mpr hlong)]

theorem planned_of_not_wide (hnone : ∀ metric ∈ metrics, ¬ Wide metric.handler) :
    Planned metrics (FileFormat.mmv.plan metrics) := by
  constructor
  · intro hshort
    have hbound : finish metrics + 8 < 2 ^ 64 :=
      Nat.lt_of_le_of_lt (Nat.add_le_add_right hshort 8) (by decide)
    obtain ⟨outcome, hplanned⟩ := exists_plan? hbound
    have hok : FileFormat.mmv.plan metrics =
        .ok ⟨finish metrics, (places metrics).map Place.narrowed, blocks metrics, hshort⟩ := by
      rw [plan_of_plan? hnone hplanned, ofParts, dif_pos hshort]
    exact ⟨_, hok, rfl⟩
  · intro hlong hbound
    obtain ⟨outcome, hplanned⟩ := exists_plan? hbound
    exact plan_of_long hnone hplanned hlong
  · intro hbound
    cases hplanned : FileFormat.Described.plan? metrics with
    | none =>
        rw [plan_of_not_wide hnone, hplanned]
        exact .inl rfl
    | some outcome =>
        have hmax : maxLength + 8 < 2 ^ 64 := by decide
        exact .inr (plan_of_long hnone hplanned (by omega))

/-- A plan is refused for the configuration only where a handler is wide. -/
theorem plan_eq_refuse_iff {cause : ConfigurationError} :
    FileFormat.mmv.plan metrics = cause.refuse ↔
      ∃ metric, FirstWide metrics metric ∧ cause = .slotSize 16 (width metric) := by
  constructor
  · intro hplan
    by_cases hwide : ∃ metric ∈ metrics, Wide metric.handler
    · obtain ⟨metric, hmem, hmetric⟩ := hwide
      obtain ⟨first, hfirst⟩ := exists_firstWide hmem hmetric
      rw [plan_of_firstWide hfirst] at hplan
      cases hplan
      exact ⟨first, hfirst, rfl⟩
    · rw [plan_of_not_wide fun metric hmem hmetric => hwide ⟨metric, hmem, hmetric⟩] at hplan
      exact absurd hplan described_ne_configuration
  · rintro ⟨metric, hfirst, rfl⟩
    exact plan_of_firstWide hfirst

end Plan

section Stuck

variable {metric : Metric} {writer : Writer}

/-- An unstarted writer of a self-describing file whose first wide handler is a given metric's. -/
structure Stuck (metric : Metric) (writer : Writer) : Prop where
  phase : writer.phase = .unstarted
  format : writer.format = .mmv
  first : FirstWide writer.metrics metric

theorem Stuck.plan (hstuck : Stuck metric writer) : writer.format.plan writer.metrics =
    (ConfigurationError.slotSize 16 (width metric)).refuse := by
  rw [hstuck.format]
  exact plan_of_firstWide hstuck.first

theorem Stuck.startOn (hstuck : Stuck metric writer) (host : Host) (volume : Volume)
    (generation : UInt64) : writer.startOn host volume generation =
      ⟨writer, volume, [], (ConfigurationError.slotSize 16 (width metric)).refuse⟩ := by
  simp only [Writer.startOn, Writer.startBy, hstuck.phase, hstuck.plan]
  rfl

theorem stuck_of_change {volume : Volume} {made : Call} {reply : Writer.Reply}
    (hstuck : Stuck metric writer) (hchange : Change writer volume made reply) :
    Stuck metric reply.writer := by
  cases hchange with
  | failed _ hsame | kept _ _ hsame =>
      rw [hsame]
      exact hstuck
  | handled _ _ hnext =>
      rw [hnext]
      exact ⟨hstuck.phase, hstuck.format, hstuck.first⟩
  | registered _ _ _ _ _ hnext =>
      rw [hnext]
      exact ⟨hstuck.phase, hstuck.format, hstuck.first.append _⟩
  | started _ _ hplan =>
      rw [hstuck.plan] at hplan
      cases hplan
  | stopped hphase =>
      rw [hstuck.phase] at hphase
      cases hphase

theorem stuck_after (hstuck : Stuck metric writer) (turns : List Turn) :
    Stuck metric (after writer turns) := by
  induction turns generalizing writer with
  | nil => exact hstuck
  | cons turn turns ih => exact ih (stuck_of_change hstuck (change_of_call turn.host turn.made))

end Stuck

/-- A call hands over a handler. -/
inductive Brings : Call → Handler → Prop
  | registerHandler (kind : Kind) (handler : Handler) :
      Brings (.registerHandler kind handler) handler
  | addMetricWithHandler (name : String) (unit : PhysicalUnit) (semantics : Semantics)
      (handler : Handler) (initial : MetricValue) :
      Brings (.addMetricWithHandler name unit semantics handler initial) handler

/-- An unstarted writer of a self-describing file with handlers of some sort only. -/
structure Filled (allowed : Handler → Prop) (writer : Writer) : Prop where
  phase : writer.phase = .unstarted
  format : writer.format = .mmv
  handlers : ∀ kind handler, writer.handlers.get? kind = some handler → allowed handler
  metrics : ∀ metric ∈ writer.metrics, allowed metric.handler

section Filled

variable {allowed : Handler → Prop} {writer : Writer}

theorem Filled.enlist {metric : Metric} (hfilled : Filled allowed writer)
    (hmetric : allowed metric.handler) : Filled allowed (enlisted writer metric) :=
  ⟨hfilled.phase, hfilled.format, hfilled.handlers, forall_mem_enlisted hfilled.metrics hmetric⟩

theorem filled_of_entry {made : Call} {next : Writer} (hfilled : Filled allowed writer)
    (hbrings : ∀ handler, Brings made handler → allowed handler)
    (hentry : Entry writer made next) : Filled allowed next := by
  cases hentry with
  | refused => exact hfilled
  | handled kind handler =>
      refine ⟨hfilled.phase, hfilled.format, ?_, hfilled.metrics⟩
      intro other found hfound
      rcases get?_register_cases hfound with ⟨rfl, rfl⟩ | ⟨_, hfound⟩
      · exact hbrings found (.registerHandler other found)
      · exact hfilled.handlers other found hfound
  | resolved hfound => exact hfilled.enlist (hfilled.handlers _ _ hfound)
  | own => exact hfilled.enlist (hbrings _ (.addMetricWithHandler ..))

theorem filled_of_calls (volume : Volume) {calls : List Call} (hfilled : Filled allowed writer)
    (hcalls : ∀ made ∈ calls, Registers made)
    (hbrings : ∀ made ∈ calls, ∀ handler, Brings made handler → allowed handler) :
    Filled allowed (registered writer volume calls) := by
  induction calls generalizing writer with
  | nil => exact hfilled
  | cons made calls ih =>
      have hentry := entry_of_call hfilled.phase volume (hcalls made List.mem_cons_self)
      exact ih (filled_of_entry hfilled (hbrings made List.mem_cons_self) hentry)
        (fun other hmem => hcalls other (List.mem_cons_of_mem _ hmem))
        (fun other hmem => hbrings other (List.mem_cons_of_mem _ hmem))

end Filled

theorem not_wide_of_standard {kind : Kind} {handler : Handler}
    (hstandard : Registry.standard.get? kind = some handler) : ¬ Wide handler := by
  cases kind with
  | _ =>
      cases hstandard
      decide

/-- What becomes of handlers that are too wide for a record and take no slot of their own. -/
structure WidthsChecked (calls : List Call) (writer : Writer) : Prop where
  /-- The layout is refused for the configuration if and only if there is such a handler. -/
  refused : ∀ cause : ConfigurationError, writer.format.plan writer.metrics = cause.refuse ↔
    ∃ metric, FirstWide writer.metrics metric ∧ cause = .slotSize 16 (width metric)
  planned : (∀ metric ∈ writer.metrics, ¬ Wide metric.handler) →
    Planned writer.metrics (writer.format.plan writer.metrics)
  /-- None of the standard handlers is one. -/
  brought : ∀ metric ∈ writer.metrics, Wide metric.handler →
    ∃ made ∈ calls, Brings made metric.handler
  /-- With one of them no call ever leads to a start that succeeds. -/
  stuck : ∀ metric, FirstWide writer.metrics metric → ∀ turns host volume generation,
    (after writer turns).startOn host volume generation =
      ⟨after writer turns, volume, [], (ConfigurationError.slotSize 16 (width metric)).refuse⟩

/-- No call that registers looks at the width of a handler. So a self-describing file is refused for
the configuration if and only if there is a handler wider than the room in a record without a slot
of its own, and then at every start. -/
theorem widthsChecked_of_calls {calls : List Call} (hcalls : ∀ made ∈ calls, Registers made)
    (path : String) (volume : Volume) :
    WidthsChecked calls (registered (.ofPath path .mmv) volume calls) := by
  have hempty : Filled (fun handler => Wide handler → ∃ made ∈ calls, Brings made handler)
      (.ofPath path .mmv) :=
    ⟨rfl, rfl, fun _ _ hstandard hwide => absurd hwide (not_wide_of_standard hstandard),
      fun _ hmem => nomatch hmem⟩
  have hfilled := filled_of_calls volume hempty hcalls
    fun made hmem handler hbrings _ => ⟨made, hmem, hbrings⟩
  constructor
  · intro cause
    rw [hfilled.format]
    exact plan_eq_refuse_iff
  · intro hnone
    rw [hfilled.format]
    exact planned_of_not_wide hnone
  · exact hfilled.metrics
  · intro metric hfirst turns host other generation
    have hstuck : Stuck metric (registered (.ofPath path .mmv) volume calls) :=
      ⟨hfilled.phase, hfilled.format, hfirst⟩
    exact (stuck_after hstuck turns).startOn host other generation

/-- Texts of at most 19 bytes that are to stand inside a record. -/
def shortText : Handler :=
  { Handler.text 20 with large := false }

/-- A count with its standard handler, and then a text that no record has room for. -/
def countAndShortText : List Call :=
  [.addMetric "count" .item .counter (.i64 0),
    .addMetricWithHandler "text" .item .discrete shortText (.str "idle")]

theorem registers_countAndShortText : ∀ made ∈ countAndShortText, Registers made := by
  simp [countAndShortText, Registers]

theorem widthsChecked_countAndShortText :
    (∀ made ∈ countAndShortText, Registers made) ∧
      WidthsChecked countAndShortText (registered (.ofPath "m" .mmv) .empty countAndShortText) :=
  ⟨registers_countAndShortText, widthsChecked_of_calls registers_countAndShortText "m" .empty⟩

/-- A writer can accept a metric that its plan, and so its start, refuses for the configuration. -/
theorem not_carried_countAndShortText : ¬ ∀ calls path volume,
    (∀ made ∈ calls, Registers made) → ∀ cause : ConfigurationError,
      FileFormat.mmv.plan (registered (.ofPath path .mmv) volume calls).metrics ≠ cause.refuse ∧
      ∀ generation,
        ((registered (.ofPath path .mmv) volume calls).start volume generation).result ≠
          cause.refuse := by
  intro hall
  have hplan : FileFormat.mmv.plan
      (registered (.ofPath "m" .mmv) .empty countAndShortText).metrics =
        (ConfigurationError.slotSize 16 20).refuse := rfl
  exact (hall countAndShortText "m" .empty registers_countAndShortText _).1 hplan

end MappedMetrics.Proofs.InlineWidths
