import MappedMetrics.Proofs.SingleReadings
import MappedMetrics.Proofs.SpanReadings

namespace MappedMetrics.Proofs.ConfigReading

open MappedMetrics
open MappedMetrics.Json
open MappedMetrics.Decimal
open MappedMetrics.Proofs.BinaryRounding
open MappedMetrics.Proofs.DoubleArithmetic
open MappedMetrics.Proofs.DoubleRounding
open MappedMetrics.Proofs.FloatReadings
open MappedMetrics.Proofs.JsonText
open MappedMetrics.Proofs.JsonNumbers
open MappedMetrics.Proofs.JsonFloats

/-- The value that is read where a value was written. -/
def rereadValue? : MetricValue → Option MetricValue
  | .f32 bits => (Json.ofSingle bits).numberValue?.map fun x => .f32 x.toSingle
  | .f64 bits => (Json.ofDouble bits).numberValue?.map fun x => .f64 x.toDouble
  | value => some value

def rereadMetric? (metric : MetricConfig) : Option MetricConfig :=
  (rereadValue? metric.initial).map fun initial => { metric with initial }

def reread? (config : WriterConfig) : Option WriterConfig := do
  let interval ← SpanReadings.reread? config.interval
  let metrics ← config.metrics.mapM rereadMetric?
  some { config with interval, metrics }

section Records

variable {keys : List String} {members : List (String × Json)}

theorem knownFields?_written (hknown : ∀ member ∈ members, member.1 ∈ keys)
    (hdistinct : (members.map Prod.fst).Nodup) :
    knownFields? keys (members.map fun member => (some member.1, member.2)) = some members := by
  induction members with
  | nil => rfl
  | cons member members ih =>
      obtain ⟨hmember, hmembers⟩ := List.forall_mem_cons.mp hknown
      obtain ⟨hfresh, hrest⟩ := List.nodup_cons.mp hdistinct
      have hother : ¬ members.any (·.1 == member.1) = true := by
        simpa using hfresh
      simp only [List.map_cons, knownFields?, ih hmembers hrest, Option.bind_eq_bind,
        Option.bind_some, List.contains_iff_mem.mpr hmember, if_true, if_neg hother]

theorem fields?_obj (hkeys : members.map Prod.fst = keys) (hdistinct : keys.Nodup) :
    (Json.obj members).fields? keys = some ⟨members⟩ := by
  subst hkeys
  have hknown : ∀ member ∈ members, member.1 ∈ members.map Prod.fst :=
    fun member hmem => List.mem_map_of_mem hmem
  rw [Json.obj, fields?, knownFields?_written hknown hdistinct, Option.map_some]

end Records

section Values

@[simp]
theorem text?_str (text : String) : (Json.str text).text? = some text :=
  rfl

theorem plain_ofNat (n : Nat) : Plain (Json.ofNat n) := by
  rw [ofNat_eq]
  exact plain_ofInt n

theorem plain_content (value : MetricValue) : Plain value.content := by
  cases value with
  | bool b => trivial
  | i32 n => exact plain_ofInt _
  | u32 n => exact plain_ofNat _
  | i64 n => exact plain_ofInt _
  | u64 n => exact plain_ofNat _
  | f32 bits => exact plain_ofSingle bits
  | f64 bits => exact plain_ofDouble bits
  | str text => rfl

theorem plain_value (value : MetricValue) : Plain value.toJson :=
  ⟨rfl, rfl, rfl, plain_content value, trivial⟩

theorem ofContent?_content (value : MetricValue) :
    MetricValue.ofContent? value.kind value.content = rereadValue? value := by
  cases value with
  | bool b => rfl
  | i32 n =>
      have hread : (Json.ofInt n.toInt).integer? (-2 ^ 31) (2 ^ 31 - 1) = some n.toInt :=
        integer?_ofInt (by decide) (by decide) ⟨n.le_toInt, Int.le_sub_one_of_lt n.toInt_lt⟩
      simp only [MetricValue.ofContent?, MetricValue.kind, MetricValue.content, hread,
        Option.map_some, Int32.ofInt_toInt, rereadValue?]
  | u32 n =>
      have hlt := n.toNat_lt
      have hread : (Json.ofNat n.toNat).integer? 0 (2 ^ 32 - 1) = some (n.toNat : Int) :=
        integer?_ofNat (by decide) (by decide) (by omega)
      simp only [MetricValue.ofContent?, MetricValue.kind, MetricValue.content, hread,
        Option.map_some, Int.toNat_natCast, UInt32.ofNat_toNat, rereadValue?]
  | i64 n =>
      have hread : (Json.ofInt n.toInt).integer? (-2 ^ 63) (2 ^ 63 - 1) = some n.toInt :=
        integer?_ofInt (by decide) (by decide) ⟨n.le_toInt, Int.le_sub_one_of_lt n.toInt_lt⟩
      simp only [MetricValue.ofContent?, MetricValue.kind, MetricValue.content, hread,
        Option.map_some, Int64.ofInt_toInt, rereadValue?]
  | u64 n =>
      have hlt := n.toNat_lt
      have hread : (Json.ofNat n.toNat).integer? 0 (2 ^ 64 - 1) = some (n.toNat : Int) :=
        integer?_ofNat (by decide) (by decide) (by omega)
      simp only [MetricValue.ofContent?, MetricValue.kind, MetricValue.content, hread,
        Option.map_some, Int.toNat_natCast, UInt64.ofNat_toNat, rereadValue?]
  | f32 bits => rfl
  | f64 bits => rfl
  | str text => rfl

theorem ofJson?_value (value : MetricValue) :
    MetricValue.ofJson? value.toJson = rereadValue? value := by
  have hkind : Kind.ofJson? (Json.str value.kind.name) = some value.kind :=
    Kind.ofName?_name value.kind
  have hread : MetricValue.ofJson? value.toJson = (do
      let fields ← value.toJson.fields? ["kind", "value"]
      let kind ← (fields.get? "kind").bind Kind.ofJson?
      let content ← fields.get? "value"
      MetricValue.ofContent? kind content) := rfl
  rw [hread, MetricValue.toJson, fields?_obj, ← ofContent?_content]
  · simp [Fields.get?, hkind]
  · rfl
  · decide

end Values

section Configs

theorem plain_metric (metric : MetricConfig) : Plain metric.toJson :=
  ⟨rfl, rfl, rfl, rfl, rfl, rfl, rfl, plain_value metric.initial, trivial⟩

theorem ofJson?_metric (metric : MetricConfig) :
    MetricConfig.ofJson? metric.toJson = rereadMetric? metric := by
  have hsemantics : Semantics.ofJson? (Json.str metric.semantics.name) = some metric.semantics :=
    Semantics.ofName?_name metric.semantics
  rw [MetricConfig.ofJson?, MetricConfig.toJson, fields?_obj]
  · simp [Fields.get?, Fields.orElse?, text?_str, hsemantics, ofJson?_value, rereadMetric?,
      Option.map_eq_bind]
  · rfl
  · decide

theorem plainItems_metrics (metrics : List MetricConfig) :
    PlainItems (metrics.map MetricConfig.toJson) := by
  induction metrics with
  | nil => trivial
  | cons metric metrics ih => exact ⟨plain_metric metric, ih⟩

theorem list?_metrics (metrics : List MetricConfig) :
    Json.list? MetricConfig.ofJson? (.array (metrics.map MetricConfig.toJson)) =
      metrics.mapM rereadMetric? := by
  have hread : MetricConfig.ofJson? ∘ MetricConfig.toJson = rereadMetric? :=
    funext ofJson?_metric
  rw [Json.list?, List.mapM_map, hread]

theorem plain_config (config : WriterConfig) : Plain config.toJson :=
  ⟨rfl, rfl, rfl, rfl, rfl, plain_ofNat _, rfl, plain_ofDouble _, rfl,
    plainItems_metrics config.metrics, trivial⟩

theorem ofText?_text {config : WriterConfig} (hcapacity : config.queueCapacity < 2 ^ 64) :
    WriterConfig.ofText? config.text = reread? config := by
  rw [WriterConfig.ofText?, WriterConfig.text, parse?_compact (plain_config config),
    Option.bind_some]
  have hformat : FileFormat.ofJson? (Json.str config.format.name) = some config.format := by
    cases config.format <;> rfl
  have hcount : (Json.ofNat config.queueCapacity).integer? 0 (2 ^ 64 - 1) =
      some (config.queueCapacity : Int) :=
    integer?_ofNat (by decide) (by decide) (by omega)
  rw [WriterConfig.ofJson?, WriterConfig.toJson, fields?_obj]
  · simp [Fields.get?, Fields.orElse?, text?_str, hformat, hcount, list?_metrics, reread?,
      SpanReadings.reread?, -Int.reducePow, -Int.reduceSub]
  · rfl
  · decide

end Configs

section Floats

theorem ofNat_split (bits : UInt64) :
    UInt64.ofNat (bits.toNat / 2 ^ 63 * 2 ^ 63 + bits.toNat % 2 ^ 63) = bits := by
  rw [Nat.div_add_mod', UInt64.ofNat_toNat]

/-- Whether a value is neither an infinity nor NaN. -/
def Finite : MetricValue → Prop
  | .f32 bits => bits.toNat % 2 ^ 31 < binary32.infinityCode
  | .f64 bits => bits.toNat % 2 ^ 63 < binary64.infinityCode
  | _ => True

instance (value : MetricValue) : Decidable (Finite value) :=
  match value with
  | .f32 bits => inferInstanceAs (Decidable (bits.toNat % 2 ^ 31 < binary32.infinityCode))
  | .f64 bits => inferInstanceAs (Decidable (bits.toNat % 2 ^ 63 < binary64.infinityCode))
  | .bool _ | .i32 _ | .u32 _ | .i64 _ | .u64 _ | .str _ => instDecidableTrue

theorem rereadValue?_of_not_finite {value : MetricValue} (hvalue : ¬ Finite value) :
    rereadValue? value = none := by
  cases value with
  | f32 bits =>
      have hnull : Json.ofSingle bits = .null := if_neg hvalue
      rw [rereadValue?, hnull]
      rfl
  | f64 bits =>
      have hnull : Json.ofDouble bits = .null := if_neg hvalue
      rw [rereadValue?, hnull]
      rfl
  | _ => exact absurd trivial hvalue

theorem narrow_of_finite {bits : UInt64} (hfinite : bits.toNat % 2 ^ 63 < binary64.infinityCode) :
    narrow bits = UInt32.ofNat
      (bits.toNat / 2 ^ 63 * 2 ^ 31 + narrowed (bits.toNat % 2 ^ 63)) := by
  have hdenominator : 0 < (binary64.quotient (bits.toNat % 2 ^ 63)).2 := Nat.two_pow_pos _
  rw [narrow, narrowed, ← quotient_eq, ← roundQuotient_eq _ hdenominator]
  exact congrArg (fun nearest => UInt32.ofNat (bits.toNat / 2 ^ 63 * 2 ^ 31 + nearest))
    (if_pos hfinite)

theorem toNat_ofNat_parts {sign read : Nat} (hsign : sign < 2)
    (hread : read < binary64.infinityCode) :
    (UInt64.ofNat (sign * 2 ^ 63 + read)).toNat / 2 ^ 63 = sign ∧
      (UInt64.ofNat (sign * 2 ^ 63 + read)).toNat % 2 ^ 63 = read := by
  have htop := infinityCode_binary64
  rw [UInt64.toNat_ofNat']
  omega

theorem rereadValue?_single {bits : UInt32} (hfinite : Finite (.f32 bits)) :
    rereadValue? (.f32 bits) = some (.f32 bits) := by
  obtain ⟨read, hreads, hnarrowed⟩ := SingleReadings.exists_reads_single hfinite
  have hsign : bits.toNat / 2 ^ 31 < 2 := by
    have hlt := bits.toNat_lt
    omega
  have hround : narrow (UInt64.ofNat (bits.toNat / 2 ^ 31 * 2 ^ 63 + read)) = bits := by
    obtain ⟨hleft, hright⟩ := toNat_ofNat_parts hsign hreads.finite
    rw [narrow_of_finite (lt_of_eq_of_lt hright hreads.finite), hleft, hright, hnarrowed,
      Nat.div_add_mod', UInt32.ofNat_toNat]
  simp only [rereadValue?, hreads.numberValue?_ofSingle hfinite, Option.map_some,
    Number.toSingle, hround]

/-- A double that is read has the sign of the one that was written and is close to it. It is the
same if the literal was short. -/
def Resembles : MetricValue → MetricValue → Prop
  | .f64 bits, .f64 read =>
      read.toNat / 2 ^ 63 = bits.toNat / 2 ^ 63 ∧
        read.toNat % 2 ^ 63 < binary64.infinityCode ∧
        Close (read.toNat % 2 ^ 63) (bits.toNat % 2 ^ 63) ∧
        (Brief (bits.toNat % 2 ^ 63) → read = bits)
  | value, read => read = value

theorem exists_rereadValue {value : MetricValue} (hvalue : Finite value) :
    ∃ read, rereadValue? value = some read ∧ Resembles value read := by
  cases value with
  | f32 bits => exact ⟨_, rereadValue?_single hvalue, rfl⟩
  | f64 bits =>
      obtain ⟨read, hreads, hclose, hbrief⟩ := exists_reads_double hvalue
      have hsign : bits.toNat / 2 ^ 63 < 2 := by
        have hlt := bits.toNat_lt
        omega
      obtain ⟨hleft, hright⟩ := toNat_ofNat_parts hsign hreads.finite
      refine ⟨.f64 (UInt64.ofNat (bits.toNat / 2 ^ 63 * 2 ^ 63 + read)), ?_, hleft, ?_, ?_, ?_⟩
      · rw [rereadValue?, hreads.numberValue?_ofDouble hvalue]
        rfl
      · rw [hright]
        exact hreads.finite
      · rwa [hright]
      · intro hshort
        rw [hbrief hshort, ofNat_split]
  | _ => exact ⟨_, rfl, rfl⟩

end Floats

section Metrics

/-- A metric that is read differs from the one that was written in its double alone. -/
def ResemblesMetric (metric read : MetricConfig) : Prop :=
  read = { metric with initial := read.initial } ∧ Resembles metric.initial read.initial

/-- Whether a value is no double or one with a short literal. -/
def Short : MetricValue → Prop
  | .f64 bits => Brief (bits.toNat % 2 ^ 63)
  | _ => True

instance (value : MetricValue) : Decidable (Short value) :=
  match value with
  | .f64 bits => inferInstanceAs (Decidable (Brief (bits.toNat % 2 ^ 63)))
  | .bool _ | .i32 _ | .u32 _ | .i64 _ | .u64 _ | .f32 _ | .str _ => instDecidableTrue

theorem Resembles.eq {value read : MetricValue} (hread : Resembles value read)
    (hshort : Short value) : read = value := by
  cases value with
  | f64 bits =>
      cases read with
      | f64 other => exact congrArg MetricValue.f64 (hread.2.2.2 hshort)
      | _ => exact hread
  | _ => exact hread

theorem ResemblesMetric.eq {metric read : MetricConfig} (hread : ResemblesMetric metric read)
    (hshort : Short metric.initial) : read = metric := by
  rw [hread.1, hread.2.eq hshort]

theorem exists_rereadMetric {metric : MetricConfig} (hfinite : Finite metric.initial) :
    ∃ read, rereadMetric? metric = some read ∧ ResemblesMetric metric read := by
  obtain ⟨initial, hread, hresembles⟩ := exists_rereadValue hfinite
  exact ⟨{ metric with initial }, by rw [rereadMetric?, hread, Option.map_some], rfl, hresembles⟩

variable {metrics : List MetricConfig}

theorem mapM_rereadMetric?_eq_none (hlost : ∃ metric ∈ metrics, ¬ Finite metric.initial) :
    metrics.mapM rereadMetric? = none := by
  induction metrics with
  | nil => simp at hlost
  | cons metric metrics ih =>
      rw [List.mapM_cons]
      by_cases hmetric : Finite metric.initial
      · have hrest : ∃ metric ∈ metrics, ¬ Finite metric.initial := by
          obtain ⟨lost, hmem, hvalue⟩ := hlost
          rcases List.mem_cons.mp hmem with rfl | hmem
          · exact absurd hmetric hvalue
          · exact ⟨lost, hmem, hvalue⟩
        simp only [ih hrest, Option.bind_eq_bind, Option.bind_none, Option.bind_fun_none]
      · have hnone : rereadMetric? metric = none := by
          rw [rereadMetric?, rereadValue?_of_not_finite hmetric, Option.map_none]
        rw [hnone]
        rfl

theorem exists_mapM_rereadMetric? (hfinite : ∀ metric ∈ metrics, Finite metric.initial) :
    ∃ reads, metrics.mapM rereadMetric? = some reads ∧
      List.Forall₂ ResemblesMetric metrics reads := by
  induction metrics with
  | nil => exact ⟨[], rfl, .nil⟩
  | cons metric metrics ih =>
      obtain ⟨hmetric, hmetrics⟩ := List.forall_mem_cons.mp hfinite
      obtain ⟨read, hread, hresembles⟩ := exists_rereadMetric hmetric
      obtain ⟨reads, hreads, hall⟩ := ih hmetrics
      refine ⟨read :: reads, ?_, .cons hresembles hall⟩
      rw [List.mapM_cons, hread, hreads]
      rfl

theorem eq_of_short {reads : List MetricConfig}
    (hreads : List.Forall₂ ResemblesMetric metrics reads)
    (hshort : ∀ metric ∈ metrics, Short metric.initial) : reads = metrics := by
  induction hreads with
  | nil => rfl
  | cons hread _ ih =>
      obtain ⟨hmetric, hmetrics⟩ := List.forall_mem_cons.mp hshort
      rw [hread.eq hmetric, ih hmetrics]

end Metrics

section Survival

/-- A configuration of one metric that stands for a double. -/
def ofRatio (bits : UInt64) : WriterConfig :=
  { WriterConfig.ofPath "ratio.mmv" .mmv with
    metrics := [⟨"ratio", "count", .instant, .f64 bits⟩] }

/-- A configuration with a metric of each kind. -/
def ofEveryKind : WriterConfig :=
  { WriterConfig.ofPath "every\\kind.mmv" .legacy with
    queueCapacity := 2 ^ 64 - 1
    interval := ⟨1, by decide⟩
    metrics := [⟨"flag", "count", .discrete, .bool true⟩,
      ⟨"low", "count", .instant, .i32 (-2 ^ 31)⟩,
      ⟨"high", "byte", .counter, .u32 (2 ^ 32 - 1)⟩, ⟨"lowest", "second", .instant, .i64 (-2 ^ 63)⟩,
      ⟨"highest", "byte/second", .unspecified, .u64 (2 ^ 64 - 1)⟩,
      ⟨"single", "count", .instant, .f32 0x00000001⟩,
      ⟨"tenth", "count", .instant, .f64 0xbfb999999999999a⟩,
      ⟨"line\n\t\x01\"é", "count", .discrete, .str "\\\x7f\u2028"⟩] }

/-- A configuration whose warnings are as far apart as the nanoseconds say. -/
def ofRareWarnings (nanoseconds : Nat) (hfits : nanoseconds < 2 ^ 64 * 10 ^ 9) : WriterConfig :=
  { WriterConfig.ofPath "rare.mmv" .mmv with interval := ⟨nanoseconds, hfits⟩ }

/-- Infinity is written as null and refused, a whole number near 2⁵³ is read as the one before
it, an interval a little above 194 days loses a nanosecond, and the longest one is refused. -/
theorem not_survives :
    ((ofRatio 0x7ff0000000000000).validate = .ok () ∧
      WriterConfig.ofText? (ofRatio 0x7ff0000000000000).text = none) ∧
    ((ofRatio 0x433fffffffffffff).validate = .ok () ∧
      WriterConfig.ofText? (ofRatio 0x433fffffffffffff).text =
        some (ofRatio 0x433ffffffffffffe)) ∧
    ((ofRareWarnings (2 ^ 24 * 10 ^ 9 + 1) (by decide)).validate = .ok () ∧
      WriterConfig.ofText? (ofRareWarnings (2 ^ 24 * 10 ^ 9 + 1) (by decide)).text =
        some (ofRareWarnings (2 ^ 24 * 10 ^ 9) (by decide))) ∧
    (ofRareWarnings (2 ^ 64 * 10 ^ 9 - 1) (by decide)).validate = .ok () ∧
      WriterConfig.ofText? (ofRareWarnings (2 ^ 64 * 10 ^ 9 - 1) (by decide)).text = none := by
  refine ⟨⟨by decide +kernel, ?_⟩, ⟨by decide +kernel, ?_⟩, ⟨by decide +kernel, ?_⟩,
    by decide +kernel, ?_⟩
  all_goals rw [ofText?_text (by decide)]
  all_goals decide +kernel

/-- A configuration is read from its text unless it holds an infinity or a NaN or has an interval
next to the longest one. What is read is the same but for doubles with long literals and for
intervals of more than a week, which are close to what they were. -/
theorem text_survives {config : WriterConfig} (hcapacity : config.queueCapacity < 2 ^ 64) :
    ((∃ metric ∈ config.metrics, ¬ Finite metric.initial) →
      WriterConfig.ofText? config.text = none) ∧
    ((∀ metric ∈ config.metrics, Finite metric.initial) →
      config.interval.nanoseconds ≤ (2 ^ 64 - 2 ^ 14) * 10 ^ 9 →
      ∃ interval metrics,
        WriterConfig.ofText? config.text = some { config with interval, metrics } ∧
        |(interval.nanoseconds : ℚ) - config.interval.nanoseconds| ≤
          config.interval.nanoseconds / 2 ^ 50 + 1 / 2 ∧
        (config.interval.nanoseconds ≤ 7 * 24 * 3600 * 10 ^ 9 → interval = config.interval) ∧
        List.Forall₂ ResemblesMetric config.metrics metrics ∧
        ((∀ metric ∈ config.metrics, Short metric.initial) → metrics = config.metrics)) := by
  rw [ofText?_text hcapacity]
  refine ⟨fun hlost => ?_, fun hfinite hlong => ?_⟩
  · rw [reread?, mapM_rereadMetric?_eq_none hlost]
    cases SpanReadings.reread? config.interval <;> rfl
  · obtain ⟨interval, hinterval, hclose, hweek⟩ := SpanReadings.exists_reread_near hlong
    obtain ⟨metrics, hmetrics, hresembles⟩ := exists_mapM_rereadMetric? hfinite
    refine ⟨interval, metrics, ?_, hclose, hweek, hresembles, eq_of_short hresembles⟩
    rw [reread?, hinterval, hmetrics]
    rfl

theorem text_survives_kinds :
    WriterConfig.ofText? (ofRatio 0xfff8000000000000).text = none ∧
      WriterConfig.ofText? ofEveryKind.text = some ofEveryKind ∧
      ∃ read, WriterConfig.ofText? (ofRatio 0x433fffffffffffff).text = some read ∧
        List.Forall₂ ResemblesMetric (ofRatio 0x433fffffffffffff).metrics read.metrics := by
  have hkinds := (text_survives (show ofEveryKind.queueCapacity < 2 ^ 64 by decide)).2
    (by decide) (by decide)
  have hratio := (text_survives
    (show (ofRatio 0x433fffffffffffff).queueCapacity < 2 ^ 64 by decide)).2 (by decide) (by decide)
  refine ⟨?_, ?_, ?_⟩
  · exact (text_survives (show (ofRatio 0xfff8000000000000).queueCapacity < 2 ^ 64 by decide)).1
      (by decide)
  · obtain ⟨interval, metrics, hread, -, hweek, -, hsame⟩ := hkinds
    rw [hread, hweek (by decide), hsame (by decide +kernel)]
  · obtain ⟨interval, metrics, hread, -, -, hresembles, -⟩ := hratio
    exact ⟨_, hread, hresembles⟩

end Survival

end MappedMetrics.Proofs.ConfigReading
