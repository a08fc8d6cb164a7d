import MappedMetrics.Proofs.InlineWidths
import MappedMetrics.Proofs.PackedLayout

namespace MappedMetrics.Proofs.PlanningSums

open MappedMetrics
open MappedMetrics.Layout
open MappedMetrics.Proofs.SlotPacking
open MappedMetrics.Proofs.SelfDescribingLayout
open MappedMetrics.Proofs.PackedLayout
open MappedMetrics.Proofs.InlineWidths

/-- All sums of packing slots: of an offset and its alignment, and of a slot's offset and width. -/
def packedSums : Nat → List (UInt64 × UInt64) → List Nat
  | _, [] => []
  | start, (width, align) :: rest =>
      (start + align.toNat) :: (roundUp start align.toNat + width.toNat) ::
        packedSums (roundUp start align.toNat + width.toNat) rest

section Packing

variable {slots : List (UInt64 × UInt64)}

theorem isSome_add? {a b : UInt64} : (add? a b).isSome = true ↔ a.toNat + b.toNat < 2 ^ 64 := by
  rw [add?]
  split
  · exact iff_of_true rfl ‹_›
  · exact iff_of_false Bool.false_ne_true ‹_›

theorem isSome_alignUp? {offset align : UInt64} {k : Nat} (halign : align.toNat = 2 ^ k) :
    (alignUp? offset align).isSome = true ↔ offset.toNat + align.toNat < 2 ^ 64 := by
  have hzero : align ≠ 0 := by
    rintro rfl
    exact absurd halign (Nat.ne_of_lt (Nat.two_pow_pos k))
  rw [alignUp?, if_neg hzero, Option.isSome_map, isSome_add?]

theorem toNat_of_packSlots? {start finish : UInt64} {offsets : List UInt64}
    (halign : Aligned slots) (hpacked : packSlots? start slots = some (offsets, finish)) :
    finish.toNat = packedEnd start.toNat slots :=
  (exact_of_packSlots? halign hpacked).2.trans (freeAfter_spansFrom _ _)

theorem isSome_packSlots? (hpowers : PowerAligned slots) {start : UInt64} :
    (packSlots? start slots).isSome = true ↔
      ∀ sum ∈ packedSums start.toNat slots, sum < 2 ^ 64 := by
  induction slots generalizing start with
  | nil => simp [packSlots?, packedSums]
  | cons slot rest ih =>
      obtain ⟨width, align⟩ := slot
      obtain ⟨k, hk⟩ := hpowers _ List.mem_cons_self
      have hrest : PowerAligned rest := fun other hmem =>
        hpowers other (List.mem_cons_of_mem _ hmem)
      have hup : (alignUp? start align).isSome = true ↔ start.toNat + align.toNat < 2 ^ 64 :=
        isSome_alignUp? hk
      simp only [packedSums, List.forall_mem_cons]
      constructor
      · intro hsome
        obtain ⟨⟨offsets, finish⟩, hpacked⟩ := Option.isSome_iff_exists.mp hsome
        simp only [packSlots?, Option.bind_eq_bind, Option.bind_eq_some_iff] at hpacked
        obtain ⟨offset, hoffset, next, hnext, ⟨later, last⟩, hlater, -⟩ := hpacked
        have hexact := toNat_of_alignUp? hk hoffset
        have hsum := toNat_of_add? hnext
        rw [← hexact, ← hsum]
        exact ⟨hup.mp (by rw [hoffset]; rfl), next.toNat_lt,
          (ih hrest).mp (by rw [hlater]; rfl)⟩
      · rintro ⟨hfirst, hsecond, hlater⟩
        obtain ⟨offset, hoffset, hexact⟩ := exists_alignUp? start hk hfirst
        rw [← hexact] at hsecond hlater
        obtain ⟨next, hnext, hsum⟩ := exists_add? hsecond
        rw [← hsum] at hlater
        obtain ⟨⟨offsets, finish⟩, hpacked⟩ :=
          Option.isSome_iff_exists.mp ((ih hrest).mpr hlater)
        simp only [packSlots?, hoffset, hnext, hpacked, Option.bind_eq_bind, Option.bind_some,
          Option.isSome_some]

theorem le_of_mem_packedSums (halign : Aligned slots) (start : Nat) :
    ∀ sum ∈ packedSums start slots, sum ≤ packedEnd start slots + 8 := by
  induction slots generalizing start with
  | nil => exact fun sum hmem => nomatch hmem
  | cons slot rest ih =>
      obtain ⟨width, align⟩ := slot
      obtain ⟨k, hle, hk⟩ := halign _ List.mem_cons_self
      have hrest : Aligned rest := fun other hmem => halign other (List.mem_cons_of_mem _ hmem)
      have height : align.toNat ≤ 2 ^ 3 := by
        rw [hk]
        exact Nat.pow_le_pow_right (by decide) hle
      have hstart : start ≤ packedEnd start ((width, align) :: rest) := le_packedEnd halign start
      have hnext : roundUp start align.toNat + width.toNat ≤
          packedEnd start ((width, align) :: rest) := le_packedEnd hrest _
      simp only [packedSums, List.forall_mem_cons]
      exact ⟨by omega, by omega, ih hrest _⟩

theorem packedEnd_mem_packedSums (hslots : slots ≠ []) (start : Nat) :
    packedEnd start slots ∈ packedSums start slots := by
  induction slots generalizing start with
  | nil => exact absurd rfl hslots
  | cons slot rest ih =>
      obtain ⟨width, align⟩ := slot
      rw [packedSums, packedEnd]
      rcases rest with _ | ⟨next, rest⟩
      · exact List.mem_cons_of_mem _ List.mem_cons_self
      · exact List.mem_cons_of_mem _ (List.mem_cons_of_mem _ (ih (List.cons_ne_nil _ _) _))

end Packing

section Plans

variable (metrics : List Metric)

def descriptorSlots : List (UInt64 × UInt64) :=
  metrics.map fun _ => (FileFormat.Described.descriptorLength, narrowAlign)

def recordSlots : List (UInt64 × UInt64) :=
  metrics.map fun _ => (FileFormat.Described.recordLength, wideAlign)

def largeSlots : List (UInt64 × UInt64) :=
  (metrics.filter fun metric => metric.handler.large).map fun metric =>
    (metric.handler.dataLength, wideAlign)

/-- All sums of planning a self-describing file: descriptors, records and slots are packed, each
from a multiple of eight on. -/
def describedSums : List Nat :=
  packedSums (descriptorsStart metrics) (descriptorSlots metrics) ++
    (descriptorsStart metrics + 76 * metrics.length + 8) ::
      (packedSums (recordsStart metrics) (recordSlots metrics) ++
        (slotsStart metrics + 8) :: packedSums (slotsStart metrics) (largeSlots metrics))

/-- All sums that a plan works out, where numbers have no bound. -/
def planningSums : FileFormat → List Nat
  | .legacy => packedSums 9 (FileFormat.Packed.slots metrics)
  | .mmv => describedSums metrics

/-- The length of a file, where numbers have no bound. -/
def exactEnd : FileFormat → Nat
  | .legacy => packedEnd 9 (FileFormat.Packed.slots metrics)
  | .mmv => finish metrics

variable {metrics}

theorem toNat_slotsStart {records : UInt64} (hrecords : records.toNat = slotsStart metrics)
    {second : UInt64} (hsecond : alignUp? records wideAlign = some second) :
    second.toNat = slotsStart metrics := by
  have height : 8 ∣ slotsStart metrics :=
    (Nat.dvd_add_right (dvd_roundUp _ _)).mpr (Nat.dvd_mul_right_of_dvd (by decide) _)
  rw [toNat_of_alignUp? (show wideAlign.toNat = 2 ^ 3 from rfl) hsecond, hrecords]
  exact roundUp_eq_self (by decide) height

theorem lt_of_plan? {outcome : Outcome Layout}
    (hplan : FileFormat.Described.plan? metrics = some outcome) :
    ∀ sum ∈ describedSums metrics, sum < 2 ^ 64 := by
  have hstart := toNat_tableEnd metrics
  simp only [FileFormat.Described.plan?, Option.bind_eq_bind, Option.bind_eq_some_iff] at hplan
  generalize FileFormat.Described.headerLength + FileFormat.Described.entryLength *
    (if (metrics.filter fun metric => metric.handler.large).isEmpty then 2 else 3) = start
    at hplan hstart
  obtain ⟨⟨descriptors, descriptorsEnd⟩, hdescriptors, first, hfirst, ⟨records, recordsEnd⟩,
    hrecords, second, hsecond, ⟨slots, slotsEnd⟩, hslots, -⟩ := hplan
  have hdescriptorsEnd := toNat_of_packSlots? (aligned_narrow metrics) hdescriptors
  rw [hstart, packedEnd_descriptors] at hdescriptorsEnd
  have hfirstStart : first.toNat = recordsStart metrics := by
    rw [toNat_of_alignUp? (show wideAlign.toNat = 2 ^ 3 from rfl) hfirst, hdescriptorsEnd]
    rfl
  have hrecordsEnd := toNat_of_packSlots? (aligned_wide _ metrics) hrecords
  rw [hfirstStart, packedEnd_records] at hrecordsEnd
  have hsecondStart := toNat_slotsStart hrecordsEnd hsecond
  simp only [describedSums, List.forall_mem_append, List.forall_mem_cons]
  rw [← hstart, ← hfirstStart, ← hsecondStart]
  refine ⟨?_, ?_, ?_, ?_, ?_⟩
  · exact (isSome_packSlots? (aligned_narrow metrics).powers).mp (by rw [hdescriptors]; rfl)
  · rw [hstart, ← hdescriptorsEnd]
    exact (isSome_alignUp? (show wideAlign.toNat = 2 ^ 3 from rfl)).mp (by rw [hfirst]; rfl)
  · exact (isSome_packSlots? (aligned_wide _ metrics).powers).mp (by rw [hrecords]; rfl)
  · rw [hsecondStart, ← hrecordsEnd]
    exact (isSome_alignUp? (show wideAlign.toNat = 2 ^ 3 from rfl)).mp (by rw [hsecond]; rfl)
  · exact (isSome_packSlots? (aligned_wide _ _).powers).mp (by rw [hslots]; rfl)

theorem exists_plan?_of_lt (hsums : ∀ sum ∈ describedSums metrics, sum < 2 ^ 64) :
    ∃ outcome, FileFormat.Described.plan? metrics = some outcome := by
  have hstart := toNat_tableEnd metrics
  simp only [describedSums, List.forall_mem_append, List.forall_mem_cons] at hsums
  obtain ⟨hfirstSums, hfirstRoom, hsecondSums, hsecondRoom, hthirdSums⟩ := hsums
  simp only [FileFormat.Described.plan?]
  generalize FileFormat.Described.headerLength + FileFormat.Described.entryLength *
    (if (metrics.filter fun metric => metric.handler.large).isEmpty then 2 else 3) = start
    at hstart ⊢
  rw [← hstart] at hfirstSums
  obtain ⟨⟨descriptors, descriptorsEnd⟩, hdescriptors⟩ :=
    Option.isSome_iff_exists.mp ((isSome_packSlots? (aligned_narrow metrics).powers).mpr hfirstSums)
  have hdescriptorsEnd := toNat_of_packSlots? (aligned_narrow metrics) hdescriptors
  rw [hstart, packedEnd_descriptors] at hdescriptorsEnd
  obtain ⟨first, hfirst, hfirstStart⟩ := exists_alignUp? descriptorsEnd
    (show wideAlign.toNat = 2 ^ 3 from rfl) (by rw [hdescriptorsEnd]; exact hfirstRoom)
  have hfirstStart : first.toNat = recordsStart metrics := by
    rw [hfirstStart, hdescriptorsEnd]
    rfl
  rw [← hfirstStart] at hsecondSums
  obtain ⟨⟨records, recordsEnd⟩, hrecords⟩ :=
    Option.isSome_iff_exists.mp
      ((isSome_packSlots? (aligned_wide _ metrics).powers).mpr hsecondSums)
  have hrecordsEnd := toNat_of_packSlots? (aligned_wide _ metrics) hrecords
  rw [hfirstStart, packedEnd_records] at hrecordsEnd
  obtain ⟨second, hsecond, -⟩ := exists_alignUp? recordsEnd
    (show wideAlign.toNat = 2 ^ 3 from rfl) (by rw [hrecordsEnd]; exact hsecondRoom)
  rw [← toNat_slotsStart hrecordsEnd hsecond] at hthirdSums
  obtain ⟨⟨slots, slotsEnd⟩, hslots⟩ :=
    Option.isSome_iff_exists.mp ((isSome_packSlots? (aligned_wide _ _).powers).mpr hthirdSums)
  simp only [hdescriptors, hfirst, hrecords, hsecond, hslots, Option.bind_eq_bind,
    Option.bind_some]
  exact ⟨_, rfl⟩

theorem packed_plan?_eq {values : List UInt64} {last : UInt64}
    (hpacked : packSlots? FileFormat.Packed.headerLength (FileFormat.Packed.slots metrics) =
      some (values, last)) :
    ∃ offsets blocks, FileFormat.Packed.plan? metrics =
      some (Layout.ofParts (exactEnd metrics .legacy) offsets blocks) := by
  have hlast : last.toNat = exactEnd metrics .legacy :=
    toNat_of_packSlots? (aligned_slots metrics) hpacked
  rw [FileFormat.Packed.plan?, hpacked, ← hlast]
  exact ⟨_, _, rfl⟩

end Plans

/-- Some sum of a plan leaves the word. -/
def Overflows (format : FileFormat) (metrics : List Metric) : Prop :=
  ∃ sum ∈ planningSums metrics format, 2 ^ 64 ≤ sum

/-- A self-describing file cannot carry one of the metrics. -/
def Refused (format : FileFormat) (metrics : List Metric) : Prop :=
  format = .mmv ∧ ∃ metric ∈ metrics, Wide metric.handler

/-- What a plan gives. -/
inductive Verdict (format : FileFormat) (metrics : List Metric) : Outcome Layout → Prop
  | wide {metric : Metric} : format = .mmv → FirstWide metrics metric →
      Verdict format metrics (ConfigurationError.slotSize 16 (width metric)).refuse
  | overflow : ¬ Refused format metrics → Overflows format metrics →
      Verdict format metrics (.error (.halted .overflow))
  | tooLarge : ¬ Refused format metrics → ¬ Overflows format metrics →
      maxLength < exactEnd metrics format →
      Verdict format metrics (MappingError.tooLarge (exactEnd metrics format)).refuse
  | planned {layout : Layout} : ¬ Refused format metrics → ¬ Overflows format metrics →
      exactEnd metrics format ≤ maxLength → layout.length = exactEnd metrics format →
      Verdict format metrics (.ok layout)

/-- What becomes of a plan depends on its sums, none of which is far from the exact length. -/
structure Reckoned (format : FileFormat) (metrics : List Metric) : Prop where
  verdict : Verdict format metrics (format.plan metrics)
  near : ∀ sum ∈ planningSums metrics format, sum ≤ exactEnd metrics format + 8
  endless : 2 ^ 64 ≤ exactEnd metrics format → Overflows format metrics

section Verdict

variable {format : FileFormat} {metrics : List Metric}

theorem not_overflows_iff :
    ¬ Overflows format metrics ↔ ∀ sum ∈ planningSums metrics format, sum < 2 ^ 64 := by
  constructor
  · exact fun hnone sum hmem => Nat.lt_of_not_le fun hle => hnone ⟨sum, hmem, hle⟩
  · rintro hall ⟨sum, hmem, hle⟩
    exact Nat.not_lt.mpr hle (hall sum hmem)

theorem verdict_of_ofParts (hcarried : ¬ Refused format metrics)
    (hsums : ¬ Overflows format metrics) (offsets : List Offsets) (blocks : List Block) :
    Verdict format metrics (Layout.ofParts (exactEnd metrics format) offsets blocks) := by
  rw [Layout.ofParts]
  split
  · exact .planned hcarried hsums ‹_› rfl
  · exact .tooLarge hcarried hsums (Nat.lt_of_not_le ‹_›)

theorem verdict_legacy : Verdict .legacy metrics (FileFormat.legacy.plan metrics) := by
  have hcarried : ¬ Refused .legacy metrics := fun hrefused => nomatch hrefused.1
  have hsome :
      (packSlots? FileFormat.Packed.headerLength (FileFormat.Packed.slots metrics)).isSome = true ↔
        ∀ sum ∈ planningSums metrics .legacy, sum < 2 ^ 64 :=
    isSome_packSlots? (aligned_slots metrics).powers
  cases hpacked : packSlots? FileFormat.Packed.headerLength (FileFormat.Packed.slots metrics) with
  | none =>
      rw [hpacked] at hsome
      have hplan : FileFormat.legacy.plan metrics = .error (.halted .overflow) := by
        rw [FileFormat.plan, FileFormat.Packed.plan?, hpacked]
        rfl
      rw [hplan]
      exact .overflow hcarried (Classical.not_not.mp fun hnot =>
        Bool.false_ne_true (hsome.mpr (not_overflows_iff.mp hnot)))
  | some packed =>
      rw [hpacked] at hsome
      obtain ⟨offsets, blocks, hplan⟩ := packed_plan?_eq hpacked
      rw [FileFormat.plan, hplan, Option.getD_some]
      exact verdict_of_ofParts hcarried (not_overflows_iff.mpr (hsome.mp rfl)) offsets blocks

theorem verdict_mmv : Verdict .mmv metrics (FileFormat.mmv.plan metrics) := by
  by_cases hwide : ∃ metric ∈ metrics, Wide metric.handler
  · obtain ⟨metric, hmem, hmetric⟩ := hwide
    obtain ⟨first, hfirst⟩ := exists_firstWide hmem hmetric
    rw [plan_of_firstWide hfirst]
    exact .wide rfl hfirst
  · have hcarried : ¬ Refused .mmv metrics := fun hrefused => hwide hrefused.2
    have hnone : ∀ metric ∈ metrics, ¬ Wide metric.handler :=
      fun metric hmem hmetric => hwide ⟨metric, hmem, hmetric⟩
    by_cases hsums : Overflows .mmv metrics
    · have hplan : FileFormat.Described.plan? metrics = none := by
        cases hplanned : FileFormat.Described.plan? metrics with
        | none => rfl
        | some outcome => exact absurd hsums (not_overflows_iff.mpr (lt_of_plan? hplanned))
      rw [plan_of_not_wide hnone, hplan]
      exact .overflow hcarried hsums
    · obtain ⟨outcome, hplanned⟩ := exists_plan?_of_lt (not_overflows_iff.mp hsums)
      rw [plan_of_plan? hnone hplanned]
      exact verdict_of_ofParts hcarried hsums _ _

theorem near_mmv : ∀ sum ∈ describedSums metrics, sum ≤ finish metrics + 8 := by
  have hslots := slotsStart_le_finish metrics
  have hrecords : recordsStart metrics ≤ slotsStart metrics := Nat.le_add_right _ _
  have hdescriptors : descriptorsStart metrics + 76 * metrics.length ≤ recordsStart metrics :=
    le_roundUp _ (by decide)
  have hfirst := le_of_mem_packedSums (aligned_narrow metrics) (descriptorsStart metrics)
  have hsecond := le_of_mem_packedSums
    (aligned_wide (fun _ => FileFormat.Described.recordLength) metrics)
    (recordsStart metrics)
  have hthird := le_of_mem_packedSums
    (aligned_wide (fun metric : Metric => metric.handler.dataLength)
      (metrics.filter fun metric => metric.handler.large))
    (slotsStart metrics)
  rw [packedEnd_descriptors] at hfirst
  rw [packedEnd_records] at hsecond
  rw [packedEnd_large] at hthird
  simp only [describedSums, List.forall_mem_append, List.forall_mem_cons]
  refine ⟨fun sum hmem => ?_, by omega, fun sum hmem => ?_, by omega, hthird⟩
  · have hle := hfirst sum hmem
    omega
  · have hle := hsecond sum hmem
    omega

theorem overflows_of_endless (hendless : 2 ^ 64 ≤ exactEnd metrics format) :
    Overflows format metrics := by
  cases format with
  | legacy =>
      change 2 ^ 64 ≤ packedEnd 9 (FileFormat.Packed.slots metrics) at hendless
      by_cases hnone : FileFormat.Packed.slots metrics = []
      · rw [hnone, packedEnd] at hendless
        omega
      · exact ⟨_, packedEnd_mem_packedSums hnone 9, hendless⟩
  | mmv =>
      have hend : packedEnd (slotsStart metrics) (largeSlots metrics) = finish metrics :=
        packedEnd_large metrics _
      by_cases hnone : largeSlots metrics = []
      · -- Without slots of their own the file ends with the records, and eight more are added up.
        rw [hnone] at hend
        refine ⟨slotsStart metrics + 8, ?_, ?_⟩
        · simp [planningSums, describedSums]
        · change 2 ^ 64 ≤ finish metrics at hendless
          rw [← hend] at hendless
          exact Nat.le_add_right_of_le hendless
      · refine ⟨finish metrics, ?_, hendless⟩
        have hmem := packedEnd_mem_packedSums hnone (slotsStart metrics)
        rw [hend] at hmem
        simp [planningSums, describedSums, hmem]

/-- A plan is exact as long as none of its sums leaves the word: it gives a layout of the exact
length, or refuses that length as too large. It is stopped by the first sum beyond the word, which
happens wherever the exact length does not fit the word, and at most one alignment before that. -/
theorem reckoned_of_plan (format : FileFormat) (metrics : List Metric) :
    Reckoned format metrics := by
  refine ⟨?_, ?_, overflows_of_endless⟩
  · cases format with
    | legacy => exact verdict_legacy
    | mmv => exact verdict_mmv
  · cases format with
    | legacy => exact le_of_mem_packedSums (aligned_slots metrics) 9
    | mmv => exact near_mmv

end Verdict

/-- A text whose slot is as wide as a word can tell. -/
def endlessText : List Metric :=
  [⟨"text", .discrete, .item, .text 0xFFFFFFFFFFFFFFFF, .str "idle"⟩]

/-- Slots of every width are accepted, but not every plan is a layout or a refusal. -/
theorem not_refused_endlessText : ¬ ∀ format metrics,
    (∃ layout, FileFormat.plan format metrics = .ok layout ∧
      layout.length = exactEnd metrics format ∧ exactEnd metrics format ≤ maxLength) ∨
    (∃ length, FileFormat.plan format metrics = (MappingError.tooLarge length).refuse) ∨
    ∃ cause : ConfigurationError, FileFormat.plan format metrics = cause.refuse := by
  intro hall
  have hplan : FileFormat.mmv.plan endlessText = .error (.halted .overflow) := rfl
  rcases hall .mmv endlessText with ⟨layout, hok, -⟩ | ⟨length, hlong⟩ | ⟨cause, hcause⟩
  · rw [hplan] at hok
    cases hok
  · rw [hplan] at hlong
    cases hlong
  · rw [hplan] at hcause
    cases hcause

end MappedMetrics.Proofs.PlanningSums
