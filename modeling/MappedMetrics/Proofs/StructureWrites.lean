import MappedMetrics.Proofs.SelfDescribingLayout
import MappedMetrics.Proofs.WriteRuns

namespace MappedMetrics.Proofs.StructureWrites

open MappedMetrics
open MappedMetrics.Layout
open MappedMetrics.Proofs.Spans
open MappedMetrics.Proofs.SlotPacking
open MappedMetrics.Proofs.SelfDescribingLayout
open MappedMetrics.Proofs.WriteRuns

@[simp] theorem range_word (offset : Nat) (n : UInt32) : range (.word offset n) = ⟨offset, 4⟩ := by
  rw [Write.word, range, Bytes.length_ofNat]

@[simp] theorem range_wide (offset : Nat) (n : UInt64) : range (.wide offset n) = ⟨offset, 8⟩ := by
  rw [Write.wide, range, Bytes.length_ofNat]

@[simp] theorem range_field (offset width : Nat) (data : Bytes) :
    range (.field offset width data) = ⟨offset, width⟩ := rfl

def descriptorWrites (metric : Metric) (place : Place) : List Write :=
  [.field place.descriptor 64 (Text.utf8 metric.name),
    .word (place.descriptor + 64) (UInt32.ofNat metric.handler.wireType.code),
    .word (place.descriptor + 68) FileFormat.Described.noInstances,
    .word (place.descriptor + 72) metric.mapping.dimensionWord]

def headWrites (place : Place) : List Write :=
  [.word place.record (narrow place.descriptor), .word (place.record + 4) 0]

/-- What a record has before the initial values are written. -/
def payloadWrites (metric : Metric) (place : Place) : List Write :=
  .blank (place.record + 8) 16 ::
    if metric.handler.large then [.wide (place.record + 8) (narrow place.value).toUInt64] else []

def recordWrites (metric : Metric) (place : Place) : List Write :=
  descriptorWrites metric place ++ (headWrites place ++ payloadWrites metric place)

def slotWrite (metric : Metric) (place : Place) : Write :=
  .slot place.value metric.handler metric.initial

def writesAt (layout : Layout) (generation : UInt64) (entries : List (Metric × Place)) :
    List Write :=
  FileFormat.Described.header layout generation ++ FileFormat.Described.entries layout ++
    entries.flatMap (fun entry => recordWrites entry.1 entry.2) ++
    entries.map fun entry => slotWrite entry.1 entry.2

section Exact

variable {metrics : List Metric} {layout : Layout}

def entries (metrics : List Metric) : List (Metric × Place) :=
  metrics.zip (places metrics)

theorem le_maxLength (hexact : Exact metrics layout) {place : Place}
    (hmem : place ∈ places metrics) :
    place.descriptor ≤ maxLength ∧ place.record ≤ maxLength ∧ place.value ≤ maxLength := by
  obtain ⟨hdescriptor, hrecord, hvalue⟩ := le_finish hmem
  have hlength := layout.length_le
  rw [hexact.length] at hlength
  omega

theorem records_narrowed (hexact : Exact metrics layout) {entry : Metric × Place}
    (hmem : entry ∈ entries metrics) :
    FileFormat.Described.records entry.1 entry.2.narrowed = recordWrites entry.1 entry.2 := by
  obtain ⟨hdescriptor, hrecord, _⟩ := le_maxLength hexact (List.of_mem_zip hmem).2
  simp only [FileFormat.Described.records, Place.narrowed, toNat_narrow hdescriptor,
    toNat_narrow hrecord]
  rfl

theorem zip_offsets (hexact : Exact metrics layout) :
    metrics.zip layout.offsets =
      (entries metrics).map fun entry => (entry.1, entry.2.narrowed) := by
  rw [hexact.offsets, List.zip_map_right]
  rfl

theorem flatMap_records (hexact : Exact metrics layout) :
    ((metrics.zip layout.offsets).flatMap fun entry =>
      FileFormat.Described.records entry.1 entry.2) =
      (entries metrics).flatMap fun entry => recordWrites entry.1 entry.2 := by
  rw [zip_offsets hexact, List.flatMap_map]
  exact congrArg List.flatten (List.map_congr_left fun entry => records_narrowed hexact)

theorem initialValues_eq (hexact : Exact metrics layout) :
    FileFormat.initialValues layout metrics =
      (entries metrics).map fun entry => slotWrite entry.1 entry.2 := by
  rw [FileFormat.initialValues, zip_offsets hexact, List.map_map]
  refine List.map_congr_left fun entry hmem => ?_
  obtain ⟨_, _, hvalue⟩ := le_maxLength hexact (List.of_mem_zip hmem).2
  simp only [Function.comp_apply, Place.narrowed, toNat_narrow hvalue]
  rfl

theorem structureWrites_eq (hexact : Exact metrics layout) (generation : UInt64) :
    FileFormat.mmv.structureWrites layout metrics generation =
      writesAt layout generation (entries metrics) := by
  rw [writesAt, ← initialValues_eq hexact, ← flatMap_records hexact]
  rfl

end Exact

theorem stacked_header (layout : Layout) (generation : UInt64) :
    Stacked 0 ((FileFormat.Described.header layout generation).map range) 32 := by
  simp only [FileFormat.Described.header, List.map_cons, List.map_nil, range_word, range_wide]
  simp only [range, Stacked, Span.finish, FileFormat.Described.magic, List.length_cons,
    List.length_nil]
  decide

theorem stacked_entry (index : Nat) (block : Block) :
    Stacked (32 + 16 * index) ((FileFormat.Described.entry index block).map range)
      (32 + 16 * (index + 1)) := by
  simp only [FileFormat.Described.entry, FileFormat.Described.headerLength,
    FileFormat.Described.entryLength, List.map_cons, List.map_nil, range_word, Stacked, Span.finish,
    UInt64.reduceToNat]
  omega

theorem stacked_entries (index : Nat) (blocks : List Block) :
    Stacked (32 + 16 * index) (((blocks.zipIdx index).flatMap fun (block, index) =>
      FileFormat.Described.entry index block).map range) (32 + 16 * (index + blocks.length)) := by
  induction blocks generalizing index with
  | nil => exact Nat.le_refl _
  | cons block rest ih =>
      have hlength : index + (block :: rest).length = index + 1 + rest.length := by
        rw [List.length_cons]
        omega
      rw [List.zipIdx_cons, List.flatMap_cons, List.map_append, hlength]
      exact (stacked_entry index block).append (ih (index + 1))

theorem stacked_front (layout : Layout) (generation : UInt64) :
    Stacked 0 ((FileFormat.Described.header layout generation ++
      FileFormat.Described.entries layout).map range) (32 + 16 * layout.blocks.length) := by
  have hentries := stacked_entries 0 layout.blocks
  rw [Nat.zero_add] at hentries
  rw [List.map_append]
  exact (stacked_header layout generation).append hentries

theorem stacked_descriptorWrites (metric : Metric) (place : Place) :
    Stacked place.descriptor ((descriptorWrites metric place).map range)
      (place.descriptor + 76) := by
  simp only [descriptorWrites, List.map_cons, List.map_nil, range_field, range_word, Stacked,
    Span.finish]
  omega

theorem stacked_headWrites (place : Place) :
    Stacked place.record ((headWrites place).map range) (place.record + 8) := by
  simp only [headWrites, List.map_cons, List.map_nil, range_word, Stacked, Span.finish]
  omega

theorem mem_payloadWrites {metric : Metric} {place : Place} {write : Write}
    (hmem : write ∈ payloadWrites metric place) :
    write = .blank (place.record + 8) 16 ∨
      metric.handler.large = true ∧
        write = .wide (place.record + 8) (narrow place.value).toUInt64 := by
  rcases List.mem_cons.mp hmem with hblank | hmem
  · exact .inl hblank
  · split at hmem
    · rename_i hlarge
      exact .inr ⟨hlarge, List.mem_singleton.mp hmem⟩
    · cases hmem

theorem within_payloadSpan {metric : Metric} {place : Place} {write : Write}
    (hmem : write ∈ payloadWrites metric place) : (range write).Within place.payloadSpan := by
  rcases mem_payloadWrites hmem with rfl | ⟨_, rfl⟩
  · exact .refl _
  · rw [range_wide]
    exact ⟨Nat.le_refl _, by simp only [Span.finish, Place.payloadSpan]; omega⟩

theorem within_descriptorSpan {metric : Metric} {place : Place} {write : Write}
    (hmem : write ∈ descriptorWrites metric place) : (range write).Within place.descriptorSpan :=
  (stacked_descriptorWrites metric place).mem_bounds (List.mem_map_of_mem hmem)

theorem payloadSpan_within (place : Place) : place.payloadSpan.Within place.recordSpan :=
  ⟨Nat.le_add_right _ _, Nat.le_refl _⟩

theorem bounds_of_mem {metrics : List Metric} {entry : Metric × Place}
    (hmem : entry ∈ entries metrics) :
    descriptorsStart metrics ≤ entry.2.descriptor ∧
    entry.2.descriptor + 76 ≤ recordsStart metrics ∧
    recordsStart metrics ≤ entry.2.record ∧ entry.2.record + 24 ≤ slotsStart metrics ∧
    (entry.1.handler.large = true → slotsStart metrics ≤ entry.2.value ∧
      entry.2.value + width entry.1 ≤ finish metrics) := by
  have hplace := (List.of_mem_zip hmem).2
  obtain ⟨hdescriptor, hdescriptorEnd⟩ :=
    stacked_descriptors.mem_bounds (List.mem_map_of_mem hplace)
  obtain ⟨hrecord, hrecordEnd⟩ := stacked_records.mem_bounds (List.mem_map_of_mem hplace)
  have hrecordsStart : descriptorsStart metrics + 76 * metrics.length ≤ recordsStart metrics :=
    le_roundUp _ (by decide)
  refine ⟨hdescriptor, Nat.le_trans hdescriptorEnd hrecordsStart, hrecord, hrecordEnd, ?_⟩
  intro hlarge
  have hslot : entry.2.slotSpan entry.1 ∈ slotSpans (entries metrics) :=
    List.mem_filterMap.mpr ⟨entry, hmem, by rw [if_pos hlarge]⟩
  exact stacked_slots.mem_bounds hslot

theorem slotSpan_within {metrics : List Metric} {layout : Layout} (hexact : Exact metrics layout)
    {entry : Metric × Place} (hmem : entry ∈ entries metrics)
    (hinline : entry.1.handler.large = false) :
    (entry.2.slotSpan entry.1).Within entry.2.payloadSpan := by
  have hvalue := value_of_inline entry hmem hinline
  have hwidth := hexact.inline_le entry.1 (List.of_mem_zip hmem).1 hinline
  refine ⟨Nat.le_of_eq hvalue.symm, ?_⟩
  change entry.2.value + width entry.1 ≤ entry.2.record + 8 + 16
  omega

theorem map_snd_entries (metrics : List Metric) :
    (entries metrics).map Prod.snd = places metrics :=
  List.map_snd_zip (Nat.le_of_eq length_placesFrom)

theorem pairwise_descriptors (metrics : List Metric) :
    (entries metrics).Pairwise fun a b => a.2.descriptorSpan.Apart b.2.descriptorSpan := by
  have hspans :
      (((entries metrics).map Prod.snd).map Place.descriptorSpan).Pairwise Span.Apart := by
    rw [map_snd_entries]
    exact stacked_descriptors.pairwise
  rwa [List.pairwise_map, List.pairwise_map] at hspans

theorem pairwise_records (metrics : List Metric) :
    (entries metrics).Pairwise fun a b => a.2.recordSpan.Apart b.2.recordSpan := by
  have hspans : (((entries metrics).map Prod.snd).map Place.recordSpan).Pairwise Span.Apart := by
    rw [map_snd_entries]
    exact stacked_records.pairwise
  rwa [List.pairwise_map, List.pairwise_map] at hspans

theorem pairwise_slots {metrics : List Metric} {layout : Layout} (hexact : Exact metrics layout) :
    (entries metrics).Pairwise fun a b => (a.2.slotSpan a.1).Apart (b.2.slotSpan b.1) := by
  have hlarge : (entries metrics).Pairwise fun a b => a.1.handler.large = true →
      b.1.handler.large = true → (a.2.slotSpan a.1).Apart (b.2.slotSpan b.1) := by
    have hspans : (slotSpans (entries metrics)).Pairwise Span.Apart := stacked_slots.pairwise
    refine (List.pairwise_filterMap.mp hspans).imp fun hapart hfirst hsecond => ?_
    exact hapart _ (by rw [if_pos hfirst]) _ (by rw [if_pos hsecond])
  have hboth := hlarge.and (pairwise_records metrics)
  refine hboth.imp_of_mem fun {a b} ha hb hapart => ?_
  obtain ⟨_, _, _, harecord, haslot⟩ := bounds_of_mem ha
  obtain ⟨_, _, _, hbrecord, hbslot⟩ := bounds_of_mem hb
  have hainline := slotSpan_within hexact ha
  have hbinline := slotSpan_within hexact hb
  cases hafirst : a.1.handler.large with
  | true =>
      cases hbfirst : b.1.handler.large with
      | true => exact hapart.1 hafirst hbfirst
      | false =>
          have hwithin := (hbinline hbfirst).trans (payloadSpan_within b.2)
          exact .inr (Nat.le_trans hwithin.2 (Nat.le_trans hbrecord (haslot hafirst).1))
  | false =>
      have hwithin := (hainline hafirst).trans (payloadSpan_within a.2)
      cases hbfirst : b.1.handler.large with
      | true => exact .inl (Nat.le_trans hwithin.2 (Nat.le_trans harecord (hbslot hbfirst).1))
      | false => exact hapart.2.mono hwithin ((hbinline hbfirst).trans (payloadSpan_within b.2))

theorem follows_of_pairwise_apart {writes : List Write}
    (hpairwise : (writes.map range).Pairwise Span.Apart) : writes.Pairwise Follows := by
  rw [List.pairwise_map] at hpairwise
  exact hpairwise.imp .inr

theorem within_recordSpan {metric : Metric} {place : Place} {write : Write}
    (hmem : write ∈ headWrites place ++ payloadWrites metric place) :
    (range write).Within place.recordSpan := by
  rcases List.mem_append.mp hmem with hhead | hpayload
  · obtain ⟨hstart, hfinish⟩ := (stacked_headWrites place).mem_bounds (List.mem_map_of_mem hhead)
    have hhalf : place.record + 8 ≤ place.record + 24 := Nat.add_le_add_left (by decide) _
    exact ⟨hstart, Nat.le_trans hfinish hhalf⟩
  · exact (within_payloadSpan hpayload).trans (payloadSpan_within place)

theorem within_of_mem_recordWrites {metric : Metric} {place : Place} {write : Write}
    (hmem : write ∈ recordWrites metric place) :
    (range write).Within place.descriptorSpan ∨ (range write).Within place.recordSpan :=
  (List.mem_append.mp hmem).imp within_descriptorSpan within_recordSpan

theorem descriptor_apart_record {metrics : List Metric} {first second : Metric × Place}
    (hfirst : first ∈ entries metrics) (hsecond : second ∈ entries metrics) :
    first.2.descriptorSpan.Apart second.2.recordSpan := by
  obtain ⟨_, hdescriptor, _⟩ := bounds_of_mem hfirst
  obtain ⟨_, _, hrecord, _⟩ := bounds_of_mem hsecond
  exact .inl (Nat.le_trans hdescriptor hrecord)

theorem descriptorsStart_le (metrics : List Metric) :
    descriptorsStart metrics ≤ recordsStart metrics :=
  Nat.le_trans (Nat.le_add_right _ _) (le_roundUp _ (by decide))

theorem le_start_of_mem {metrics : List Metric} {entry : Metric × Place}
    (hmem : entry ∈ entries metrics) {write : Write}
    (hwrite : write ∈ recordWrites entry.1 entry.2) :
    descriptorsStart metrics ≤ (range write).start := by
  obtain ⟨hdescriptor, _, hrecord, _⟩ := bounds_of_mem hmem
  rcases within_of_mem_recordWrites hwrite with hwithin | hwithin
  · exact Nat.le_trans hdescriptor hwithin.1
  · exact Nat.le_trans (descriptorsStart_le metrics) (Nat.le_trans hrecord hwithin.1)

theorem pairwise_recordWrites {metrics : List Metric} {entry : Metric × Place}
    (hmem : entry ∈ entries metrics) : (recordWrites entry.1 entry.2).Pairwise Follows := by
  rw [recordWrites, List.pairwise_append, List.pairwise_append]
  refine ⟨?_, ⟨?_, ?_, ?_⟩, ?_⟩
  · exact follows_of_pairwise_apart (stacked_descriptorWrites _ _).pairwise
  · exact follows_of_pairwise_apart (stacked_headWrites _).pairwise
  · refine .cons (fun later _ => .inl ⟨_, _, rfl⟩) ?_
    split
    · exact List.pairwise_singleton _ _
    · exact .nil
  · intro head hhead later hlater
    have hbefore := ((stacked_headWrites _).mem_bounds (List.mem_map_of_mem hhead)).2
    exact .inr (.inl (Nat.le_trans hbefore (within_payloadSpan hlater).1))
  · intro first hfirst later hlater
    exact .inr ((descriptor_apart_record hmem hmem).mono (within_descriptorSpan hfirst)
      (within_recordSpan hlater))

theorem pairwise_allRecordWrites (metrics : List Metric) :
    ((entries metrics).flatMap fun entry => recordWrites entry.1 entry.2).Pairwise Follows := by
  rw [List.pairwise_flatMap]
  refine ⟨fun entry hmem => pairwise_recordWrites hmem, ?_⟩
  have hboth := (pairwise_descriptors metrics).and (pairwise_records metrics)
  refine hboth.imp_of_mem fun {a b} ha hb hapart => ?_
  intro first hfirst second hsecond
  rcases within_of_mem_recordWrites hfirst with hfirst | hfirst <;>
    rcases within_of_mem_recordWrites hsecond with hsecond | hsecond
  · exact .inr (hapart.1.mono hfirst hsecond)
  · exact .inr ((descriptor_apart_record ha hb).mono hfirst hsecond)
  · exact .inr ((descriptor_apart_record hb ha).symm.mono hfirst hsecond)
  · exact .inr (hapart.2.mono hfirst hsecond)

theorem recordsStart_le_slot {metrics : List Metric} {layout : Layout}
    (hexact : Exact metrics layout) {entry : Metric × Place} (hmem : entry ∈ entries metrics) :
    recordsStart metrics ≤ (entry.2.slotSpan entry.1).start := by
  obtain ⟨_, _, hrecord, _, hslot⟩ := bounds_of_mem hmem
  cases hlarge : entry.1.handler.large with
  | true => exact Nat.le_trans (Nat.le_add_right _ _) (hslot hlarge).1
  | false =>
      have hwithin := slotSpan_within hexact hmem hlarge
      exact Nat.le_trans hrecord (Nat.le_trans (Nat.le_add_right _ 8) hwithin.1)

theorem follows_slotWrite {metrics : List Metric} {layout : Layout} (hexact : Exact metrics layout)
    {first second : Metric × Place} (hfirst : first ∈ entries metrics)
    (hsecond : second ∈ entries metrics) {write : Write}
    (hwrite : write ∈ recordWrites first.1 first.2) :
    Follows write (slotWrite second.1 second.2) := by
  obtain ⟨_, hdescriptor, _, hrecord, _⟩ := bounds_of_mem hfirst
  obtain ⟨_, _, _, _, hslot⟩ := bounds_of_mem hsecond
  rcases List.mem_append.mp hwrite with hmem | hmem
  · have hwithin := within_descriptorSpan hmem
    exact .inr (.inl (Nat.le_trans hwithin.2
      (Nat.le_trans hdescriptor (recordsStart_le_slot hexact hsecond))))
  · have hwithin := within_recordSpan hmem
    cases hlarge : second.1.handler.large with
    | true => exact .inr (.inl (Nat.le_trans hwithin.2 (Nat.le_trans hrecord (hslot hlarge).1)))
    | false =>
        have hinside := slotSpan_within hexact hsecond hlarge
        rcases eq_or_of_pairwise (fun _ _ => Span.Apart.symm) (pairwise_records metrics) hfirst
          hsecond with rfl | hapart
        · rcases List.mem_append.mp hmem with hhead | hpayload
          · have hbefore := ((stacked_headWrites _).mem_bounds (List.mem_map_of_mem hhead)).2
            exact .inr (.inl (Nat.le_trans hbefore hinside.1))
          · rcases mem_payloadWrites hpayload with hblank | ⟨hother, _⟩
            · exact .inl ⟨_, _, hblank⟩
            · rw [hlarge] at hother
              cases hother
        · exact .inr (hapart.mono hwithin (hinside.trans (payloadSpan_within _)))

/-- In the order of the writes, none goes where an earlier one went that was more than a blank. -/
theorem pairwise_writesAt {metrics : List Metric} {layout : Layout} (hexact : Exact metrics layout)
    (generation : UInt64) : (writesAt layout generation (entries metrics)).Pairwise Follows := by
  have hfront := stacked_front layout generation
  have hend : 32 + 16 * layout.blocks.length = descriptorsStart metrics := by
    rw [hexact.blocks, length_blocks, descriptorsStart]
  have hbefore : ∀ write ∈ FileFormat.Described.header layout generation ++
      FileFormat.Described.entries layout, (range write).finish ≤ descriptorsStart metrics :=
    fun write hmem => hend ▸ (hfront.mem_bounds (List.mem_map_of_mem hmem)).2
  rw [writesAt, List.pairwise_append, List.pairwise_append, List.pairwise_map]
  refine ⟨⟨follows_of_pairwise_apart hfront.pairwise, pairwise_allRecordWrites metrics, ?_⟩, ?_, ?_⟩
  · intro first hfirst second hsecond
    obtain ⟨entry, hentry, hwrite⟩ := List.mem_flatMap.mp hsecond
    exact .inr (.inl (Nat.le_trans (hbefore first hfirst) (le_start_of_mem hentry hwrite)))
  · exact (pairwise_slots hexact).imp .inr
  · intro first hfirst second hsecond
    obtain ⟨entry, hentry, rfl⟩ := List.mem_map.mp hsecond
    rcases List.mem_append.mp hfirst with hmem | hmem
    · exact .inr (.inl (Nat.le_trans (hbefore first hmem)
        (Nat.le_trans (descriptorsStart_le metrics) (recordsStart_le_slot hexact hentry))))
    · obtain ⟨other, hother, hwrite⟩ := List.mem_flatMap.mp hmem
      exact follows_slotWrite hexact hother hentry hwrite

theorem slot_finish_le {metrics : List Metric} {layout : Layout} (hexact : Exact metrics layout)
    {entry : Metric × Place} (hmem : entry ∈ entries metrics) :
    (entry.2.slotSpan entry.1).finish ≤ finish metrics := by
  obtain ⟨_, _, _, hrecord, hslot⟩ := bounds_of_mem hmem
  cases hlarge : entry.1.handler.large with
  | true => exact (hslot hlarge).2
  | false =>
      have hwithin := (slotSpan_within hexact hmem hlarge).trans (payloadSpan_within _)
      exact Nat.le_trans hwithin.2 (Nat.le_trans hrecord (slotsStart_le_finish metrics))

theorem exists_region_of_mem {metrics : List Metric} {layout : Layout}
    (hexact : Exact metrics layout) {generation : UInt64} {write : Write}
    (hmem : write ∈ writesAt layout generation (entries metrics)) :
    ∃ span ∈ regions metrics layout.blocks.length (places metrics),
      (range write).Within span := by
  have hheader := stacked_header layout generation
  have hentries := stacked_entries 0 layout.blocks
  rw [Nat.zero_add] at hentries
  simp only [writesAt, List.mem_append, List.mem_flatMap, List.mem_map, or_assoc] at hmem
  rcases hmem with hmem | hmem | ⟨entry, hentry, hmem⟩ | ⟨entry, hentry, rfl⟩
  · obtain ⟨hstart, hfinish⟩ := hheader.mem_bounds (List.mem_map_of_mem hmem)
    exact ⟨⟨0, 32⟩, by simp [regions], hstart, hfinish⟩
  · obtain ⟨hstart, hfinish⟩ := hentries.mem_bounds (List.mem_map_of_mem hmem)
    exact ⟨⟨32, 16 * layout.blocks.length⟩, by simp [regions], hstart, hfinish⟩
  · have hplace := (List.of_mem_zip hentry).2
    rcases within_of_mem_recordWrites hmem with hwithin | hwithin
    · refine ⟨entry.2.descriptorSpan, ?_, hwithin⟩
      exact List.mem_append_left _ (List.mem_append_left _ (List.mem_append_right _
        (List.mem_map_of_mem hplace)))
    · refine ⟨entry.2.recordSpan, ?_, hwithin⟩
      exact List.mem_append_left _ (List.mem_append_right _ (List.mem_map_of_mem hplace))
  · cases hlarge : entry.1.handler.large with
    | true =>
        refine ⟨entry.2.slotSpan entry.1, List.mem_append_right _ ?_, .refl _⟩
        exact List.mem_filterMap.mpr ⟨entry, hentry, by rw [if_pos hlarge]⟩
    | false =>
        refine ⟨entry.2.recordSpan, ?_, ?_⟩
        · exact List.mem_append_left _ (List.mem_append_right _
            (List.mem_map_of_mem (List.of_mem_zip hentry).2))
        · exact (slotSpan_within hexact hentry hlarge).trans (payloadSpan_within _)

theorem range_finish_le {metrics : List Metric} {layout : Layout} (hexact : Exact metrics layout)
    {generation : UInt64} {write : Write}
    (hmem : write ∈ writesAt layout generation (entries metrics)) :
    (range write).finish ≤ layout.length := by
  obtain ⟨span, hspan, hwithin⟩ := exists_region_of_mem hexact hmem
  have hcount : layout.blocks.length = blockCount metrics := by
    rw [hexact.blocks, length_blocks]
  rw [hcount] at hspan
  rw [hexact.length]
  exact Nat.le_trans hwithin.2 ((stacked_regions metrics).mem_bounds hspan).2

theorem exists_lays_of_mem_front {metrics : List Metric} {layout : Layout} {generation : UInt64}
    (hnames : ∀ metric ∈ metrics, (Text.utf8 metric.name).length ≤ 64) {write : Write}
    (hmem : write ∈ FileFormat.Described.header layout generation ++
      FileFormat.Described.entries layout ++
        (entries metrics).flatMap fun entry => recordWrites entry.1 entry.2) :
    ∃ data, Lays write data := by
  simp only [List.mem_append, List.mem_flatMap, or_assoc] at hmem
  rcases hmem with hmem | hmem | ⟨entry, hentry, hmem⟩
  · simp only [FileFormat.Described.header, List.mem_cons, List.not_mem_nil, or_false] at hmem
    rcases hmem with rfl | rfl | rfl | rfl | rfl | rfl <;> exact ⟨_, lays_bytes _ _⟩
  · obtain ⟨⟨block, index⟩, _, hmem⟩ := List.mem_flatMap.mp hmem
    simp only [FileFormat.Described.entry, List.mem_cons, List.not_mem_nil, or_false] at hmem
    rcases hmem with rfl | rfl | rfl | rfl <;> exact ⟨_, lays_bytes _ _⟩
  · have hname := hnames entry.1 (List.of_mem_zip hentry).1
    simp only [recordWrites, descriptorWrites, headWrites, List.cons_append, List.nil_append,
      List.mem_cons] at hmem
    rcases hmem with rfl | rfl | rfl | rfl | rfl | rfl | hmem
    · exact ⟨_, lays_field hname⟩
    iterate 5 exact ⟨_, lays_bytes _ _⟩
    rcases mem_payloadWrites hmem with rfl | ⟨_, rfl⟩
    · exact ⟨_, lays_field (Nat.zero_le _)⟩
    · exact ⟨_, lays_bytes _ _⟩

theorem exists_lays_of_mem {metrics : List Metric} {layout : Layout} {generation : UInt64}
    (hnames : ∀ metric ∈ metrics, (Text.utf8 metric.name).length ≤ 64)
    (hvalues : ∀ entry ∈ entries metrics, ∃ data, Lays (slotWrite entry.1 entry.2) data)
    {write : Write} (hmem : write ∈ writesAt layout generation (entries metrics)) :
    ∃ data, Lays write data := by
  rcases List.mem_append.mp hmem with hmem | hmem
  · exact exists_lays_of_mem_front hnames hmem
  · obtain ⟨entry, hentry, rfl⟩ := List.mem_map.mp hmem
    exact hvalues entry hentry

end MappedMetrics.Proofs.StructureWrites
