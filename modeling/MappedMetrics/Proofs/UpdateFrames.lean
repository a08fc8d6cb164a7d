import MappedMetrics.Proofs.HandlerEncodings
import MappedMetrics.Proofs.LaneStores
import MappedMetrics.Proofs.StartedFiles
import MappedMetrics.Proofs.WriterCalls

namespace MappedMetrics.Proofs.UpdateFrames

open MappedMetrics
open MappedMetrics.Proofs.Spans
open MappedMetrics.Proofs.WriteRuns
open MappedMetrics.Proofs.PackedLayout
open MappedMetrics.Proofs.ValueSlots
open MappedMetrics.Proofs.StartedFiles
open MappedMetrics.Proofs.WriterCalls
open MappedMetrics.Proofs.HandlerEncodings

abbrev Update := String × MetricValue

/-- What updates leave, each made on what the one before it left. -/
def run (writer : Writer) (volume : Volume) : List Update → Writer × Volume
  | [] => (writer, volume)
  | (name, value) :: rest =>
      let reply := writer.updateMetric volume name value
      run reply.writer reply.volume rest

/-- The value of the last update under a name that succeeds, or else another value. -/
def latest (writer : Writer) (volume : Volume) (name : String) (value : MetricValue) :
    List Update → MetricValue
  | [] => value
  | (updated, next) :: rest =>
      let reply := writer.updateMetric volume updated next
      latest reply.writer reply.volume name
        (if updated = name ∧ reply.result.isOk then next else value) rest

def mapped (writer : Writer) (volume : Volume) : Bytes :=
  match writer.file with
  | some file => (file.contents volume).toBytes
  | none => []

def mappedAfter (writer : Writer) (volume : Volume) (updates : List Update) : Bytes :=
  mapped (run writer volume updates).1 (run writer volume updates).2

/-- What a metric's handler makes of zeros for a value. -/
def zeroed (metric : Metric) (value : MetricValue) : Outcome Patch :=
  metric.handler.putBytes metric.handler.dataLength.toNat (fun _ => 0) value

/-- Bytes in which each slot has what its metric's value leaves in zeros, and all else is as it was
in others. -/
structure Shows (metrics : List Metric) (layout : Layout) (first bytes : Bytes)
    (values : Metric → MetricValue) : Prop where
  length : bytes.length = first.length
  slots : ∀ entry ∈ metrics.zip layout.offsets, ∃ laid, zeroed entry.1 (values entry.1) = .ok laid ∧
    Bytes.slice bytes (slotOf entry).start (slotOf entry).length = laid.bytes
  frame : ∀ i, (∀ entry ∈ metrics.zip layout.offsets, ¬ (slotOf entry).Holds i) →
    bytes[i]? = first[i]?

/-- A writer with a mapped file in which each metric has its slot. -/
structure Running (writer : Writer) (layout : Layout) (file : MappedFile) : Prop where
  laidOut : writer.layout = some layout
  mapped : writer.file = some file
  length : file.length = layout.length
  place : file.place.isAbove = false
  slotted : Slotted writer.format writer.metrics layout
  indexed : Indexed writer

variable {writer : Writer} {layout : Layout} {file : MappedFile}

theorem mapped_of_running (hrunning : Running writer layout file) (volume : Volume) :
    mapped writer volume = (file.contents volume).toBytes := by
  rw [mapped, hrunning.mapped]

theorem zeroed_cases (metric : Metric) (offsets : Offsets) (value : MetricValue) :
    (∃ laid, zeroed metric value = .ok laid ∧
      metric.slot offsets value = .ok (offsets.value.toNat, laid.bytes)) ∨
      ∃ fault, zeroed metric value = .error fault ∧ metric.slot offsets value = .error fault := by
  rw [Metric.slot]
  cases hput : zeroed metric value with
  | ok laid =>
      refine .inl ⟨laid, rfl, ?_⟩
      rw [zeroed] at hput
      rw [hput]
      rfl
  | error fault =>
      refine .inr ⟨fault, rfl, ?_⟩
      rw [zeroed] at hput
      rw [hput]
      rfl

theorem length_of_zeroed {metric : Metric} {value : MetricValue} {laid : Patch}
    (hput : zeroed metric value = .ok laid) :
    laid.bytes.length = metric.handler.dataLength.toNat := by
  rw [Patch.length_bytes]
  exact Handler.width_putBytes hput

theorem encoded_cases (hrunning : Running writer layout file) (name : String) :
    (∃ entry ∈ writer.metrics.zip layout.offsets, entry.1.name = name ∧
      ∀ value, writer.encoded name value = entry.1.slot entry.2 value) ∨
      name ∉ writer.metrics.map Metric.name ∧
        ∀ value, writer.encoded name value = (UpdateError.unknownMetric name).refuse := by
  cases hindex : writer.index? name with
  | none =>
      refine .inr ⟨name_ne_of_index?_eq_none hrunning.indexed hindex, fun value => ?_⟩
      rw [Writer.encoded, hindex]
  | some i =>
      obtain ⟨metric, hmetric, hname⟩ :=
        Option.map_eq_some_iff.mp ((hrunning.indexed name i).mp hindex)
      obtain ⟨hi, rfl⟩ := List.getElem?_eq_some_iff.mp hmetric
      have hoffset : i < layout.offsets.length := by rwa [hrunning.slotted.each]
      have hoffsets : layout.offsets[i]? = some layout.offsets[i] :=
        List.getElem?_eq_getElem hoffset
      refine .inl ⟨(writer.metrics[i], layout.offsets[i]), ?_, hname, fun value => ?_⟩
      · have hzip : i < (writer.metrics.zip layout.offsets).length := by
          rw [List.length_zip]
          omega
        rw [← List.getElem_zip (h := hzip)]
        exact List.getElem_mem hzip
      · simp only [Writer.encoded, hindex, hrunning.laidOut, Option.bind_some, hoffsets, hmetric]

theorem eq_or_apart (hrunning : Running writer layout file) :
    ∀ ⦃first⦄, first ∈ writer.metrics.zip layout.offsets →
      ∀ ⦃second⦄, second ∈ writer.metrics.zip layout.offsets →
        first = second ∨ first.1.name ≠ second.1.name ∧ (slotOf first).Apart (slotOf second) := by
  have hnames : (writer.metrics.zip layout.offsets).Pairwise fun a b => a.1.name ≠ b.1.name := by
    have hnodup := nodup_names hrunning.indexed
    rw [← List.map_fst_zip (Nat.le_of_eq hrunning.slotted.each.symm), List.map_map] at hnodup
    exact List.pairwise_map.mp hnodup
  refine eq_or_of_pairwise ?_ (hnames.and hrunning.slotted.apart)
  rintro a b ⟨hname, hapart⟩
  exact ⟨hname.symm, hapart.symm⟩

theorem encoded_of_entry (hrunning : Running writer layout file) {entry : Metric × Offsets}
    (hmem : entry ∈ writer.metrics.zip layout.offsets) (value : MetricValue) :
    writer.encoded entry.1.name value = entry.1.slot entry.2 value := by
  rcases encoded_cases hrunning entry.1.name with ⟨found, hfound, hname, hencoded⟩ | ⟨hnone, _⟩
  · rcases eq_or_apart hrunning hfound hmem with rfl | ⟨hne, _⟩
    · exact hencoded value
    · exact absurd hname hne
  · exact absurd (List.mem_map_of_mem (List.of_mem_zip hmem).1) hnone

theorem exists_entry (hrunning : Running writer layout file) {metric : Metric}
    (hmem : metric ∈ writer.metrics) :
    ∃ offsets, (metric, offsets) ∈ writer.metrics.zip layout.offsets := by
  rw [← List.map_fst_zip (Nat.le_of_eq hrunning.slotted.each.symm)] at hmem
  obtain ⟨⟨found, offsets⟩, hentry, rfl⟩ := List.mem_map.mp hmem
  exact ⟨offsets, hentry⟩

/-- An update puts bytes into one slot, or fails and leaves the files as they are. -/
theorem updateMetric_cases (hrunning : Running writer layout file) (volume : Volume)
    (name : String) (value : MetricValue) :
    (∃ entry ∈ writer.metrics.zip layout.offsets, entry.1.name = name ∧
      ∃ laid, zeroed entry.1 value = .ok laid ∧
        writer.encoded name value = .ok ((slotOf entry).start, laid.bytes) ∧
        writer.updateMetric volume name value = ⟨writer,
          file.replace volume (MappedFile.storeLanes (file.contents volume)
            (slotOf entry).start laid.bytes), [], .ok ()⟩) ∨
      ∃ fault, writer.encoded name value = .error fault ∧
        writer.updateMetric volume name value = ⟨writer, volume, [], .error fault⟩ := by
  have hupdated : writer.updated volume name value = writer.storedIn file volume name value := by
    rw [Writer.updated, hrunning.mapped]
  have hfailed : ∀ fault, writer.encoded name value = .error fault →
      writer.updateMetric volume name value = ⟨writer, volume, [], .error fault⟩ := by
    intro fault hencoded
    rw [Writer.updateMetric, hupdated, Writer.storedIn, hencoded]
    rfl
  rcases encoded_cases hrunning name with ⟨entry, hmem, hname, hencoded⟩ | ⟨_, hencoded⟩
  · rcases zeroed_cases entry.1 entry.2 value with ⟨laid, hput, hslot⟩ | ⟨fault, _, hslot⟩
    · rw [← hencoded] at hslot
      refine .inl ⟨entry, hmem, hname, laid, hput, hslot, ?_⟩
      -- The slot lies in the mapping, so that the store's own check always passes.
      have hinside : (slotOf entry).start + laid.bytes.length ≤ file.length := by
        rw [length_of_zeroed hput, hrunning.length]
        exact hrunning.slotted.inside entry hmem
      have hstore : file.store volume (slotOf entry).start laid.bytes = .ok (file.replace volume
          (MappedFile.storeLanes (file.contents volume) (slotOf entry).start laid.bytes)) := by
        rw [MappedFile.store, MappedFile.checkBounds, if_pos hinside]
      have hstored : writer.storedIn file volume name value =
          file.store volume (slotOf entry).start laid.bytes := by
        rw [Writer.storedIn, hslot]
        rfl
      rw [Writer.updateMetric, hupdated, hstored, hstore]
    · rw [← hencoded] at hslot
      exact .inr ⟨fault, hslot, hfailed fault hslot⟩
  · exact .inr ⟨_, hencoded value, hfailed _ (hencoded value)⟩

theorem result_updateMetric (hrunning : Running writer layout file) (volume : Volume)
    (name : String) (value : MetricValue) :
    (writer.updateMetric volume name value).result =
      (writer.encoded name value).map fun _ => () := by
  rcases updateMetric_cases hrunning volume name value with
    ⟨entry, _, _, laid, _, hencoded, hreply⟩ | ⟨fault, hencoded, hreply⟩
  · rw [hreply, hencoded]
    rfl
  · rw [hreply, hencoded]
    rfl

theorem writer_updateMetric (writer : Writer) (volume : Volume) (name : String)
    (value : MetricValue) : (writer.updateMetric volume name value).writer = writer := by
  rw [Writer.updateMetric]
  split <;> rfl

theorem writer_run (writer : Writer) (volume : Volume) (updates : List Update) :
    (run writer volume updates).1 = writer := by
  induction updates generalizing volume with
  | nil => rfl
  | cons update rest ih =>
      obtain ⟨name, value⟩ := update
      rw [run, writer_updateMetric]
      exact ih _

theorem volume_of_error {writer : Writer} {volume : Volume} {name : String} {value : MetricValue}
    {fault : Fault} (herror : (writer.updateMetric volume name value).result = .error fault) :
    (writer.updateMetric volume name value).volume = volume := by
  rw [Writer.updateMetric] at herror ⊢
  split at herror
  · cases herror
  · rfl

theorem refusal_of_zeroed {metric : Metric} {value : MetricValue} {fault : Fault}
    (hput : zeroed metric value = .error fault) :
    fault = .refused (.configuration (.typeMismatch metric.handler.kind value.kind)) ∨
      metric.handler.encode value metric.handler.dataLength.toNat (fun _ => 0) = .error fault := by
  rw [zeroed, Handler.putBytes, if_neg (fun hne => hne rfl)] at hput
  split at hput
  · exact .inl (Except.error.inj hput).symm
  · exact .inr hput

theorem refusal_of_encoded (hrunning : Running writer layout file) {name : String}
    {value : MetricValue} {fault : Fault} (herror : writer.encoded name value = .error fault) :
    fault = .refused (.update (.unknownMetric name)) ∨
      ∃ metric ∈ writer.metrics, metric.name = name ∧ zeroed metric value = .error fault := by
  rcases encoded_cases hrunning name with ⟨entry, hmem, hname, hencoded⟩ | ⟨_, hencoded⟩
  · rw [hencoded] at herror
    rcases zeroed_cases entry.1 entry.2 value with ⟨laid, _, hslot⟩ | ⟨refused, hput, hslot⟩
    · rw [hslot] at herror
      cases herror
    · rw [hslot] at herror
      cases herror
      exact .inr ⟨entry.1, (List.of_mem_zip hmem).1, hname, hput⟩
  · rw [hencoded] at herror
    exact .inl (Except.error.inj herror).symm

theorem encode_of_boundsViolation (hrunning : Running writer layout file) {volume : Volume}
    {name : String} {value : MetricValue} {offset length size : Nat}
    (herror : (writer.updateMetric volume name value).result =
      (MappingError.boundsViolation offset length size).refuse) :
    ∃ metric ∈ writer.metrics, metric.name = name ∧
      metric.handler.encode value metric.handler.dataLength.toNat (fun _ => 0) =
        (MappingError.boundsViolation offset length size).refuse := by
  rw [result_updateMetric hrunning] at herror
  cases hencoded : writer.encoded name value with
  | ok =>
      rw [hencoded] at herror
      cases herror
  | error fault =>
      rw [hencoded] at herror
      cases herror
      rcases refusal_of_encoded hrunning hencoded with hunknown | ⟨metric, hmem, hname, hput⟩
      · cases hunknown
      · rcases refusal_of_zeroed hput with hkind | hencode
        · cases hkind
        · exact ⟨metric, hmem, hname, hencode⟩

theorem length_mapped (hrunning : Running writer layout file) (volume : Volume) :
    (mapped writer volume).length = (file.contents volume).length := by
  rw [mapped_of_running hrunning, Image.length_toBytes]

theorem mapped_store (hrunning : Running writer layout file) {volume : Volume}
    (hlength : (mapped writer volume).length = layout.length) {entry : Metric × Offsets}
    (hmem : entry ∈ writer.metrics.zip layout.offsets) {data : Bytes}
    (hdata : data.length = (slotOf entry).length) :
    mapped writer (file.replace volume (MappedFile.storeLanes (file.contents volume)
        (slotOf entry).start data)) =
      Bytes.overwrite (mapped writer volume) (slotOf entry).start data := by
  rw [length_mapped hrunning] at hlength
  rw [mapped_of_running hrunning, mapped_of_running hrunning,
    contents_replace _ _ hrunning.place, LaneStores.toBytes_storeLanes]
  rw [hdata, hlength]
  exact hrunning.slotted.inside entry hmem

namespace Shows

variable {metrics : List Metric} {first bytes other : Bytes} {values : Metric → MetricValue}

/-- The bytes are determined by the values of the metrics. -/
theorem eq_of_values {next : Metric → MetricValue}
    (hbytes : Shows metrics layout first bytes values)
    (hother : Shows metrics layout first other next)
    (hvalues : ∀ metric ∈ metrics, values metric = next metric) : bytes = other := by
  apply List.ext_getElem?
  intro i
  -- In a slot the values decide, and elsewhere the bytes are the first ones on both sides.
  by_cases hslot : ∃ entry ∈ metrics.zip layout.offsets, (slotOf entry).Holds i
  · obtain ⟨entry, hmem, hholds⟩ := hslot
    obtain ⟨laid, hput, hslice⟩ := hbytes.slots entry hmem
    obtain ⟨patch, hpatch, hread⟩ := hother.slots entry hmem
    rw [← hvalues entry.1 (List.of_mem_zip hmem).1, hput] at hpatch
    cases hpatch
    rw [← getElem?_slice_of_holds hholds, ← getElem?_slice_of_holds hholds, hslice, hread]
  · have houtside : ∀ entry ∈ metrics.zip layout.offsets, ¬ (slotOf entry).Holds i :=
      fun entry hmem hholds => hslot ⟨entry, hmem, hholds⟩
    rw [hbytes.frame i houtside, hother.frame i houtside]

end Shows

theorem shows_overwrite (hrunning : Running writer layout file) {first bytes : Bytes}
    {values : Metric → MetricValue} (hfirst : first.length = layout.length)
    (hshows : Shows writer.metrics layout first bytes values) {entry : Metric × Offsets}
    (hmem : entry ∈ writer.metrics.zip layout.offsets) {value : MetricValue} {laid : Patch}
    (hput : zeroed entry.1 value = .ok laid) :
    Shows writer.metrics layout first (Bytes.overwrite bytes (slotOf entry).start laid.bytes)
      fun metric => if entry.1.name = metric.name then value else values metric := by
  have hdata : laid.bytes.length = (slotOf entry).length := length_of_zeroed hput
  have hfits : (slotOf entry).start + laid.bytes.length ≤ bytes.length := by
    rw [hdata, hshows.length, hfirst]
    exact hrunning.slotted.inside entry hmem
  have houtside : ∀ i, ¬ (slotOf entry).Holds i →
      (Bytes.overwrite bytes (slotOf entry).start laid.bytes)[i]? = bytes[i]? := by
    intro i hnot
    refine Bytes.getElem?_overwrite_of_not_mem hfits ?_
    rw [hdata]
    simp only [Span.Holds, Span.finish] at hnot
    omega
  refine ⟨?_, ?_, ?_⟩
  · rw [Bytes.length_overwrite hfits, hshows.length]
  · intro found hfound
    rcases eq_or_apart hrunning hmem hfound with rfl | ⟨hname, hapart⟩
    · refine ⟨laid, by rw [if_pos rfl, hput], ?_⟩
      rw [← hdata]
      exact Bytes.slice_overwrite hfits
    · rw [if_neg hname]
      obtain ⟨kept, hkept, hslice⟩ := hshows.slots found hfound
      refine ⟨kept, hkept, ?_⟩
      rw [← hslice]
      exact slice_congr fun i hholds => houtside i (hapart.symm.not_holds hholds)
  · intro i hnot
    rw [houtside i (hnot entry hmem), hshows.frame i hnot]

theorem shows_updateMetric (hrunning : Running writer layout file) {first : Bytes}
    {values : Metric → MetricValue} {volume : Volume} (hfirst : first.length = layout.length)
    (hshows : Shows writer.metrics layout first (mapped writer volume) values) (name : String)
    (value : MetricValue) :
    Shows writer.metrics layout first
      (mapped writer (writer.updateMetric volume name value).volume) fun metric =>
        if name = metric.name ∧ (writer.updateMetric volume name value).result.isOk then value
        else values metric := by
  rcases updateMetric_cases hrunning volume name value with
    ⟨entry, hmem, rfl, laid, hput, _, hreply⟩ | ⟨fault, _, hreply⟩
  · rw [hreply]
    have hlength := hshows.length.trans hfirst
    simp only [mapped_store hrunning hlength hmem (length_of_zeroed hput), Except.isOk,
      Except.toBool, and_true]
    exact shows_overwrite hrunning hfirst hshows hmem hput
  · rw [hreply]
    simp only [Except.isOk, Except.toBool, Bool.false_eq_true, and_false, if_false]
    exact hshows

/-- After any updates each metric shows the value of the last one that succeeded. -/
theorem shows_run (hrunning : Running writer layout file) {first : Bytes}
    {values : Metric → MetricValue} {volume : Volume} (hfirst : first.length = layout.length)
    (hshows : Shows writer.metrics layout first (mapped writer volume) values)
    (updates : List Update) :
    Shows writer.metrics layout first (mappedAfter writer volume updates) fun metric =>
      latest writer volume metric.name (values metric) updates := by
  -- The values vary with the files: the first update changes both for the rest.
  induction updates generalizing volume values with
  | nil => exact hshows
  | cons update rest ih =>
      obtain ⟨name, value⟩ := update
      have hnext := ih (shows_updateMetric hrunning hfirst hshows name value)
      simp only [mappedAfter, run, latest, writer_updateMetric]
      exact hnext

theorem latest_eq (hrunning : Running writer layout file) (volume : Volume) (name : String)
    (value : MetricValue) (updates : List Update) :
    latest writer volume name value updates = updates.foldl (fun shown update =>
      if update.1 = name ∧ (writer.encoded update.1 update.2).isOk then update.2 else shown)
        value := by
  induction updates generalizing volume value with
  | nil => rfl
  | cons update rest ih =>
      obtain ⟨updated, next⟩ := update
      have hresult : (writer.updateMetric volume updated next).result.isOk =
          (writer.encoded updated next).isOk := by
        rw [result_updateMetric hrunning]
        cases writer.encoded updated next <;> rfl
      simp only [latest, writer_updateMetric, hresult]
      exact ih _ _

structure Fresh (writer : Writer) (volume : Volume) (layout : Layout) (file : MappedFile) :
    Prop where
  running : Running writer layout file
  length : (mapped writer volume).length = layout.length
  shown : Shows writer.metrics layout (mapped writer volume) (mapped writer volume) Metric.initial

theorem running_of_started {writer next : Writer} {generation : UInt64} {volume : Volume}
    (hindexed : Indexed writer) (hstarted : Started writer next layout generation file volume) :
    Running next layout file := by
  have hpublished := hstarted.published
  refine ⟨hstarted.laidOut, hstarted.mapped, hpublished.length, hpublished.place, ?_, ?_⟩
  · rw [hstarted.format, hstarted.metrics]
    exact slotted_of_plan hstarted.plan
  · exact indexed_of_same hindexed ⟨hstarted.metrics, hstarted.index⟩

theorem fresh_of_started {writer next : Writer} {generation : UInt64} {volume : Volume}
    (hreachable : Reachable writer)
    (hstarted : Started writer next layout generation file volume) :
    Fresh next volume layout file := by
  have hslotted := slotted_of_plan hstarted.plan
  have hpublished := hstarted.published
  have hrunning := running_of_started (indexed_of_reachable hreachable) hstarted
  refine ⟨hrunning, ?_, rfl, ?_, fun _ _ => rfl⟩
  · rw [length_mapped hrunning, hpublished.length_contents]
  · intro entry hmem
    rw [hstarted.metrics] at hmem
    rw [mapped_of_running hrunning]
    exact hpublished.read_slot hslotted hmem

namespace Fresh

variable {volume : Volume}

theorem mappedAfter_congr (hfresh : Fresh writer volume layout file)
    {updates others : List Update}
    (hlatest : ∀ metric ∈ writer.metrics,
      latest writer volume metric.name metric.initial updates =
        latest writer volume metric.name metric.initial others) :
    mappedAfter writer volume updates = mappedAfter writer volume others :=
  (shows_run hfresh.running hfresh.length hfresh.shown updates).eq_of_values
    (shows_run hfresh.running hfresh.length hfresh.shown others) hlatest

theorem commute (hfresh : Fresh writer volume layout file) (updates : List Update)
    {first second : Update} (hne : first.1 ≠ second.1) :
    mappedAfter writer volume (updates ++ [first, second]) =
      mappedAfter writer volume (updates ++ [second, first]) := by
  refine hfresh.mappedAfter_congr fun metric _ => ?_
  simp only [latest_eq hfresh.running, List.foldl_append, List.foldl_cons, List.foldl_nil]
  by_cases hfirst : first.1 = metric.name
  · have hsecond : ¬ second.1 = metric.name := fun hname => hne (hfirst.trans hname.symm)
    simp only [hsecond, false_and, if_false]
  · simp only [hfirst, false_and, if_false]

theorem idempotent (hfresh : Fresh writer volume layout file) (updates : List Update)
    (update : Update) :
    mappedAfter writer volume (updates ++ [update, update]) =
      mappedAfter writer volume (updates ++ [update]) := by
  refine hfresh.mappedAfter_congr fun metric _ => ?_
  simp only [latest_eq hfresh.running, List.foldl_append, List.foldl_cons, List.foldl_nil]
  split <;> rfl

theorem initial (hfresh : Fresh writer volume layout file) {metric : Metric}
    (hmem : metric ∈ writer.metrics) :
    (writer.updateMetric volume metric.name metric.initial).result = .ok () ∧
      mappedAfter writer volume [(metric.name, metric.initial)] = mapped writer volume := by
  obtain ⟨offsets, hentry⟩ := exists_entry hfresh.running hmem
  constructor
  · obtain ⟨laid, hput, _⟩ := hfresh.shown.slots _ hentry
    rw [result_updateMetric hfresh.running, encoded_of_entry hfresh.running hentry]
    rcases zeroed_cases metric offsets metric.initial with ⟨_, _, hslot⟩ | ⟨fault, hfault, _⟩
    · rw [hslot]
      rfl
    · rw [hput] at hfault
      cases hfault
  · change _ = mappedAfter writer volume []
    refine hfresh.mappedAfter_congr fun other hother => ?_
    simp only [latest_eq hfresh.running, List.foldl_cons, List.foldl_nil]
    by_cases hname : metric.name = other.name
    · obtain ⟨_, hfound⟩ := exists_entry hfresh.running hother
      rcases eq_or_apart hfresh.running hentry hfound with hsame | ⟨hne, _⟩
      · cases hsame
        split <;> rfl
      · exact absurd hname hne
    · simp only [hname, false_and, if_false]

end Fresh

def replyAfter (writer : Writer) (volume : Volume) (updates : List Update) (name : String)
    (value : MetricValue) : Writer.Reply :=
  (run writer volume updates).1.updateMetric (run writer volume updates).2 name value

/-- What updates leave in the mapped file of a writer that was just started, and what the next
ones would do. -/
structure Framed (writer : Writer) (volume : Volume) (layout : Layout) (updates : List Update) :
    Prop where
  shown : Shows writer.metrics layout (mapped writer volume) (mappedAfter writer volume updates)
    fun metric => latest writer volume metric.name metric.initial updates
  failing : ∀ name value fault,
    (replyAfter writer volume updates name value).result = .error fault →
    (replyAfter writer volume updates name value).volume = (run writer volume updates).2
  /-- Only what a handler answers by itself can be a refusal of a range. -/
  bounded : ∀ name value offset length size,
    (replyAfter writer volume updates name value).result =
        (MappingError.boundsViolation offset length size).refuse →
      ∃ metric ∈ writer.metrics, metric.name = name ∧ ¬ BuiltIn metric.handler ∧
        metric.handler.encode value metric.handler.dataLength.toNat (fun _ => 0) =
          (MappingError.boundsViolation offset length size).refuse
  commute : ∀ first second : Update, first.1 ≠ second.1 →
    mappedAfter writer volume (updates ++ [first, second]) =
      mappedAfter writer volume (updates ++ [second, first])
  idempotent : ∀ update : Update, mappedAfter writer volume (updates ++ [update, update]) =
    mappedAfter writer volume (updates ++ [update])

theorem Fresh.framed {volume : Volume} (hfresh : Fresh writer volume layout file)
    (updates : List Update) : Framed writer volume layout updates := by
  refine ⟨shows_run hfresh.running hfresh.length hfresh.shown updates, ?_, ?_, ?_, ?_⟩
  · exact fun name value fault herror => volume_of_error herror
  · intro name value offset length size herror
    rw [replyAfter, writer_run] at herror
    obtain ⟨metric, hmem, hname, hencode⟩ := encode_of_boundsViolation hfresh.running herror
    refine ⟨metric, hmem, hname, fun hbuiltIn => ?_, hencode⟩
    exact encode_ne_mapping hbuiltIn _ _ _ _ hencode
  · exact fun first second hne => hfresh.commute updates hne
  · exact fun update => hfresh.idempotent updates update

/-- Updates of a started writer, as many as there may be, change the slots of their metrics and
nothing else. -/
theorem framed_of_start {writer : Writer} {volume : Volume} {generation : UInt64}
    (hreachable : Reachable writer)
    (hstart : (writer.start volume generation).result = .ok ()) :
    let started := (writer.start volume generation).writer
    let published := (writer.start volume generation).volume
    started.metrics = writer.metrics ∧ ∃ layout, started.layout = some layout ∧
      Slotted writer.format writer.metrics layout ∧
      (mapped started published).length = layout.length ∧
      (∀ updates, Framed started published layout updates) ∧
      ∀ metric ∈ writer.metrics,
        (replyAfter started published [] metric.name metric.initial).result = .ok () ∧
        mappedAfter started published [(metric.name, metric.initial)] =
          mapped started published := by
  obtain ⟨layout, file, hstarted⟩ := started_of_start hstart
  have hfresh := fresh_of_started hreachable hstarted
  refine ⟨hstarted.metrics, layout, hstarted.laidOut, slotted_of_plan hstarted.plan,
    hfresh.length, hfresh.framed, fun metric hmem => ?_⟩
  rw [← hstarted.metrics] at hmem
  exact hfresh.initial hmem

def countAndState : Writer :=
  (call (call (.ofPath "m" .mmv) .empty
    (.addMetricWithHandler "count" .item .counter (.numeric .i32) (.i32 3))).writer .empty
    (.addMetricWithHandler "state" .item .discrete (.text 10) (.str "idle"))).writer

theorem reachable_countAndState : Reachable countAndState :=
  .call _ _ (.call _ _ (.ofPath "m" .mmv))

def planned : Layout :=
  ⟨290, [⟨some 80, some 232, 240⟩, ⟨some 156, some 256, 280⟩],
    [⟨.metrics, 80, 2⟩, ⟨.values, 232, 2⟩, ⟨.strings, 280, 1⟩], by decide⟩

theorem plan_countAndState : countAndState.format.plan countAndState.metrics = .ok planned := rfl

theorem start_countAndState : (countAndState.start .empty 7).result = .ok () := by
  have hphase : countAndState.phase = .unstarted := rfl
  have hpath : countAndState.path = "m" := rfl
  rw [Writer.start, Writer.startBy, hphase, plan_countAndState]
  simp only [Writer.publish, hpath, create_m (show planned.length ≤ Volume.maxLength by decide)]
  rfl

theorem framed_countAndState :
    ∃ layout, (countAndState.start .empty 7).writer.layout = some layout ∧
      ∀ updates, Framed (countAndState.start .empty 7).writer
        (countAndState.start .empty 7).volume layout updates := by
  obtain ⟨_, layout, hlayout, _, _, hframed, _⟩ :=
    framed_of_start reachable_countAndState start_countAndState
  exact ⟨layout, hlayout, hframed⟩

end MappedMetrics.Proofs.UpdateFrames
