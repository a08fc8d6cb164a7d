import Mathlib.Data.List.Forall2
import MappedMetrics.Proofs.ReadinessMarks
import MappedMetrics.Proofs.RegisteredKinds
import MappedMetrics.Proofs.WriterStates

namespace MappedMetrics.Proofs.FailedCalls

open MappedMetrics
open MappedMetrics.FileFormat
open MappedMetrics.Proofs.Spans
open MappedMetrics.Proofs.WriteRuns
open MappedMetrics.Proofs.ValueSlots
open MappedMetrics.Proofs.StartedFiles
open MappedMetrics.Proofs.WriterCalls
open MappedMetrics.Proofs.RegisteredKinds (registered)
open MappedMetrics.Proofs.UpdateFrames
open MappedMetrics.Proofs.WriterStates
open MappedMetrics.Proofs.SidecarFiles
open MappedMetrics.Proofs.ReadinessMarks

/-- Where a file holds its generation. -/
def stamps : FileFormat → List Span
  | .legacy => [⟨0, 8⟩]
  | .mmv => [⟨8, 8⟩, ⟨16, 8⟩]

def Unstamped (format : FileFormat) (i : Nat) : Prop :=
  ∀ span ∈ stamps format, ¬ span.Holds i

/-- Images that differ at most where a generation stands. -/
structure Alike (format : FileFormat) (image other : Image) : Prop where
  length : image.length = other.length
  same : ∀ i, Unstamped format i → image.toBytes[i]? = other.toBytes[i]?

/-- Two writes that are the same, or put two generations in the same place. -/
inductive Twin (format : FileFormat) : Write → Write → Prop
  | stamp {start : Nat} (generation later : UInt64) :
      ⟨start, 8⟩ ∈ stamps format → Twin format (.wide start generation) (.wide start later)
  | same {write : Write} :
      (∀ offset handler value, write = .slot offset handler value →
        ∀ span ∈ stamps format, (range write).Apart span) → Twin format write write

section Images

variable {format : FileFormat} {image other : Image}

theorem patch_congr {write : Write} (hlength : image.length = other.length)
    (hheld : ∀ offset handler value, write = .slot offset handler value →
      ∀ i, (range write).Holds i → image.toBytes[i]? = other.toBytes[i]?) :
    write.patch image = write.patch other := by
  cases write with
  | bytes offset data => simp only [Write.patch, hlength]
  | field offset width data => simp only [Write.patch, hlength]
  | slot offset handler value =>
      have hbytes : (fun i : Fin handler.dataLength.toNat => image.byte (offset + i)) =
          fun i : Fin handler.dataLength.toNat => other.byte (offset + i) := by
        funext i
        have hholds : (range (.slot offset handler value)).Holds (offset + i) :=
          ⟨Nat.le_add_right _ _, Nat.add_lt_add_left i.isLt _⟩
        rw [Image.byte_eq, Image.byte_eq, List.getD_eq_getElem?_getD, List.getD_eq_getElem?_getD,
          hheld offset handler value rfl _ hholds]
      simp only [Write.patch, hlength, hbytes]

theorem Alike.lay {write twin : Write} {offset start : Nat} {laid patch : Patch}
    (halike : Alike format image other) (hpatch : write.patch image = .ok (offset, laid))
    (htwin : twin.patch other = .ok (start, patch)) (hrange : range write = range twin)
    (hinside : ∀ i, (range write).Holds i → Unstamped format i → laid.bytes = patch.bytes) :
    Alike format (image.lay offset laid) (other.lay start patch) := by
  refine ⟨by rw [Image.length_lay, Image.length_lay, halike.length], fun i hi => ?_⟩
  by_cases hholds : (range write).Holds i
  · rw [getElem?_of_holds hholds, read_lay_of_patch hpatch, hinside i hholds hi,
      ← read_lay_of_patch htwin, hrange, ← getElem?_of_holds (hrange ▸ hholds)]
  · rw [getElem?_lay_of_patch hpatch hholds, getElem?_lay_of_patch htwin (hrange ▸ hholds),
      halike.same i hi]

theorem alike_patch {write twin : Write} (halike : Alike format image other)
    (htwin : Twin format write twin) :
    (∃ fault, write.patch image = .error fault ∧ twin.patch other = .error fault) ∨
      ∃ offset laid start patch, write.patch image = .ok (offset, laid) ∧
        twin.patch other = .ok (start, patch) ∧
        Alike format (image.lay offset laid) (other.lay start patch) := by
  cases htwin with
  | @stamp start generation later hstamp =>
      by_cases hfits : start + 8 ≤ image.length
      · obtain ⟨laid, hpatch, _⟩ :=
          lays_bytes start (Bytes.ofNat 8 generation.toNat) image hfits
        obtain ⟨patch, htwin, _⟩ :=
          lays_bytes start (Bytes.ofNat 8 later.toNat) other (halike.length ▸ hfits)
        refine .inr ⟨_, laid, _, patch, hpatch, htwin, halike.lay hpatch htwin rfl ?_⟩
        intro i hholds hi
        exact absurd hholds (hi _ hstamp)
      · refine .inl ⟨.halted .outOfBounds, if_neg hfits, if_neg ?_⟩
        rwa [← halike.length]
  | same hslot =>
      have hcongr : write.patch image = write.patch other := by
        refine patch_congr halike.length fun offset handler value hwrite i hholds => ?_
        refine halike.same i fun span hmem => ?_
        exact (hslot offset handler value hwrite span hmem).not_holds hholds
      cases hpatch : write.patch image with
      | error fault => exact .inl ⟨fault, rfl, hcongr ▸ hpatch⟩
      | ok laid =>
          rw [hcongr] at hpatch
          exact .inr ⟨laid.1, laid.2, laid.1, laid.2, rfl, hpatch,
            halike.lay (hcongr.trans hpatch) hpatch rfl fun _ _ _ => rfl⟩

theorem alike_run {writes twins : List Write} (htwins : List.Forall₂ (Twin format) writes twins)
    (halike : Alike format image other) :
    Alike format (Write.run image writes).1 (Write.run other twins).1 := by
  induction htwins generalizing image other with
  | nil => exact halike
  | cons htwin _ ih =>
      rw [Write.run_cons, Write.run_cons]
      rcases alike_patch halike htwin with
        ⟨fault, hpatch, htwin⟩ | ⟨offset, laid, start, patch, hpatch, htwin, hlaid⟩
      · rw [hpatch, htwin]
        exact halike
      · rw [hpatch, htwin]
        exact ih hlaid

end Images

section Files

variable {format : FileFormat} {metrics : List Metric} {layout : Layout}

theorem slot_apart_stamps (hplan : format.plan metrics = .ok layout) {write : Write}
    (hvalue : write ∈ initialValues layout metrics) {span : Span} (hspan : span ∈ stamps format) :
    (range write).Apart span := by
  have hfollows := (slotted_of_plan hplan).follows 0
  have hword : ∃ front start, format.structureWrites layout metrics 0 =
      front ++ initialValues layout metrics ∧ .wide start 0 ∈ front ∧ span = ⟨start, 8⟩ := by
    cases format with
    | legacy =>
        refine ⟨_, 0, rfl, by simp [Packed.header], by simpa [stamps] using hspan⟩
    | mmv =>
        simp only [stamps, List.mem_cons, List.not_mem_nil, or_false] at hspan
        rcases hspan with rfl | rfl
        · exact ⟨_, 8, rfl, by simp [Described.header], rfl⟩
        · exact ⟨_, 16, rfl, by simp [Described.header], rfl⟩
  obtain ⟨front, start, hwrites, hmem, rfl⟩ := hword
  rw [hwrites] at hfollows
  rcases (List.pairwise_append.mp hfollows).2.2 _ hmem write hvalue with ⟨_, _, hblank⟩ | hapart
  · cases hblank
  · exact hapart.symm

theorem Twin.of_bytes {write : Write}
    (hwrite : ∀ offset handler value, write ≠ .slot offset handler value) :
    Twin format write write :=
  .same fun offset handler value hslot => absurd hslot (hwrite offset handler value)

theorem ne_slot_of_mem_records {metric : Metric} {offsets : Offsets} {write : Write}
    (hmem : write ∈ Described.records metric offsets) (offset : Nat) (handler : Handler)
    (value : MetricValue) : write ≠ .slot offset handler value := by
  rintro rfl
  rw [Described.records] at hmem
  split at hmem
  · rcases List.mem_append.mp hmem with hmem | hmem
    · simp [Write.word, Write.blank] at hmem
    · split at hmem <;> simp [Write.wide] at hmem
  · cases hmem

theorem ne_slot_of_mem_entries {write : Write} (hmem : write ∈ Described.entries layout)
    (offset : Nat) (handler : Handler) (value : MetricValue) :
    write ≠ .slot offset handler value := by
  rintro rfl
  obtain ⟨⟨block, index⟩, _, hentry⟩ := List.mem_flatMap.mp hmem
  simp [Described.entry, Write.word] at hentry

/-- Two generations make a difference to nothing but the words where they stand. -/
theorem twins_structureWrites (hplan : format.plan metrics = .ok layout)
    (generation later : UInt64) :
    List.Forall₂ (Twin format) (format.structureWrites layout metrics generation)
      (format.structureWrites layout metrics later) := by
  have hvalues : List.Forall₂ (Twin format) (initialValues layout metrics)
      (initialValues layout metrics) :=
    List.forall₂_same.mpr fun write hmem =>
      .same fun _ _ _ _ span hspan => slot_apart_stamps hplan hmem hspan
  cases format with
  | legacy =>
      refine List.rel_append (List.forall₂_same.mpr fun write hmem => ?_) hvalues
      refine .of_bytes ?_
      rintro offset handler value rfl
      simp [Packed.header, Write.wide] at hmem
  | mmv =>
      have hheader : List.Forall₂ (Twin .mmv) (Described.header layout generation)
          (Described.header layout later) := by
        -- Of the writes of the header only the one of the generation differs.
        refine .cons (.of_bytes ?_) <| .cons (.of_bytes ?_) <| .cons (.stamp _ _ ?_) <|
          List.forall₂_same.mpr ?_
        · exact fun _ _ _ hslot => Write.noConfusion hslot
        · exact fun _ _ _ hslot => Write.noConfusion hslot
        · exact List.mem_cons_self
        · intro write hmem
          refine .of_bytes ?_
          rintro offset handler value rfl
          simp [Write.wide, Write.word] at hmem
      refine List.rel_append (List.rel_append (List.rel_append hheader ?_) ?_) hvalues
      · exact List.forall₂_same.mpr fun write hmem => .of_bytes (ne_slot_of_mem_entries hmem)
      · refine List.forall₂_same.mpr fun write hmem => ?_
        obtain ⟨entry, _, hrecord⟩ := List.mem_flatMap.mp hmem
        exact .of_bytes (ne_slot_of_mem_records hrecord)

theorem twins_publishWrite (format : FileFormat) (generation later : UInt64) :
    List.Forall₂ (Twin format) [format.publishWrite generation] [format.publishWrite later] := by
  refine .cons ?_ .nil
  cases format with
  | legacy => exact .stamp _ _ (by simp [stamps])
  | mmv => exact .stamp _ _ (by simp [stamps])

end Files

theorem exists_sidecarText (layout : Layout) (metrics : List Metric) :
    ∃ head tail, ∀ generation : UInt64,
      Packed.sidecarText layout metrics generation = head ++ toString generation ++ tail := by
  refine ⟨s!"version={Packed.version}\ngeneration=", "\n" ++ String.join
    ((metrics.zip layout.offsets).map fun entry => Packed.sidecarLine entry.1 entry.2), ?_⟩
  intro generation
  rw [Packed.sidecarText]
  simp only [String.append_assoc]
  rfl

/-- What two starts of a writer leave differs at most in the generations. -/
structure SameFiles (writer : Writer) (generation later : UInt64)
    (first second : Writer.Reply) : Prop where
  data : ∃ image other, first.volume.read writer.path = .ok image ∧
    second.volume.read writer.path = .ok other ∧ Alike writer.format image other ∧
    ∀ span ∈ stamps writer.format, read image span = Bytes.ofNat 8 generation.toNat ∧
      read other span = Bytes.ofNat 8 later.toNat
  sidecar : first.writer.sidecar = second.writer.sidecar
  beside : ∀ path, first.writer.sidecar = some path → ∃ head tail : String,
    first.volume.read path =
        .ok (.ofBytes (Text.utf8 (head ++ toString generation ++ tail))) ∧
      second.volume.read path = .ok (.ofBytes (Text.utf8 (head ++ toString later ++ tail)))

section Starts

variable {writer : Writer} {layout : Layout} {volume next : Volume} {generation later : UInt64}

theorem publish_of_publishOn {host : Host} {made : MappedFile × Option String}
    (hpublish : writer.publishOn host volume layout generation = (next, .ok made)) :
    writer.publish volume layout generation = (next, .ok made) := by
  simp only [Writer.publishOn] at hpublish
  split at hpublish
  · obtain ⟨_, hrefused⟩ := Prod.mk.inj hpublish
    obtain ⟨_, _, hrefused⟩ := Outcome.bind_eq_ok.mp hrefused
    cases hrefused
  · obtain ⟨rfl, hresult⟩ := Prod.mk.inj hpublish
    obtain ⟨published, hpublished, hflushed⟩ := Outcome.bind_eq_ok.mp hresult
    obtain ⟨_, _, hmade⟩ := Outcome.bind_eq_ok.mp hflushed
    obtain rfl : published = made := Except.ok.inj hmade
    exact Prod.ext rfl hpublished

theorem start_of_startOn {host : Host}
    (hstart : (writer.startOn host volume generation).result = .ok ()) :
    writer.startOn host volume generation = writer.start volume generation := by
  simp only [Writer.startOn, Writer.start, Writer.startBy] at hstart ⊢
  split at hstart
  · cases hstart
  · cases hstart
  · split at hstart
    · cases hstart
    · split at hstart
      · cases hstart
      · rename_i hpublish
        simp only [publish_of_publishOn hpublish]

theorem unstarted_of_start (hstart : (writer.start volume generation).result = .ok ()) :
    writer.phase = .unstarted := by
  simp only [Writer.start, Writer.startBy] at hstart
  split at hstart
  · cases hstart
  · cases hstart
  · assumption

theorem sidecar_of_publish {file : MappedFile} {sidecar : Option String}
    (hpublish : writer.publish volume layout generation = (next, .ok (file, sidecar))) :
    sidecar = (writer.format.sidecar? writer.path layout writer.metrics generation).map
      Prod.fst := by
  simp only [Writer.publish] at hpublish
  split at hpublish
  · cases hpublish
  · rename_i created made hcreate
    obtain ⟨_, hplace, _⟩ := create_ok hcreate
    split at hpublish
    · cases hpublish
    · split at hpublish
      · rename_i hnone
        obtain ⟨_, rfl, _⟩ := made_of_mark hplace hpublish
        rw [hnone]
        rfl
      · rename_i hsome
        split at hpublish
        · cases hpublish
        · obtain ⟨_, rfl, _⟩ := made_of_mark hplace hpublish
          rw [hsome]
          rfl

theorem sidecar_of_start (hplan : writer.format.plan writer.metrics = .ok layout)
    (hstart : (writer.start volume generation).result = .ok ()) :
    (writer.start volume generation).writer.sidecar =
      (writer.format.sidecar? writer.path layout writer.metrics generation).map Prod.fst := by
  simp only [Writer.start, Writer.startBy] at hstart ⊢
  split at hstart
  · cases hstart
  · cases hstart
  · simp only [hplan] at hstart ⊢
    split at hstart
    · cases hstart
    · rename_i hpublish
      simp only [sidecar_of_publish hpublish]

theorem laid_of_start (hplan : writer.format.plan writer.metrics = .ok layout)
    (hstart : (writer.start volume generation).result = .ok ()) :
    ∃ file image laid accompanied, Laid writer layout generation volume file image laid ∧
      Accompanied (sidecarBytes? writer layout generation) laid accompanied ∧
      (writer.start volume generation).volume =
        file.replace accompanied (Write.run image [writer.format.publishWrite generation]).1 := by
  have hphase := unstarted_of_start hstart
  rcases start_cases hphase hplan with
    ⟨file, image, laid, accompanied, hlaid, haccompanied⟩ | ⟨hfailed, _⟩
  · exact ⟨file, image, laid, accompanied, hlaid, haccompanied,
      (start_of_accompanied hphase hplan hlaid haccompanied).2⟩
  · exact absurd hstart hfailed

theorem read_stamps {file : MappedFile} {image : Image} {laid : Volume}
    (hplan : writer.format.plan writer.metrics = .ok layout)
    (hlaid : Laid writer layout generation volume file image laid) {span : Span}
    (hspan : span ∈ stamps writer.format) :
    read (Write.run image [writer.format.publishWrite generation]).1 span =
      Bytes.ofNat 8 generation.toNat := by
  have hlate := hlaid.read_late hplan
  cases hformat : writer.format with
  | legacy =>
      rw [hformat] at hspan hlate
      obtain rfl : span = ⟨0, 8⟩ := List.mem_singleton.mp hspan
      exact hlate
  | mmv =>
      have hearly := hlaid.read_early hplan hformat
      rw [hformat] at hspan hlate hearly
      simp only [stamps, List.mem_cons, List.not_mem_nil, or_false] at hspan
      rcases hspan with rfl | rfl
      · exact hearly
      · exact hlate

theorem exists_sidecar {path : String}
    (hsidecar : (writer.format.sidecar? writer.path layout writer.metrics generation).map Prod.fst =
      some path) : ∃ head tail, ∀ stamp : UInt64,
      writer.format.sidecar? writer.path layout writer.metrics stamp =
        some (path, head ++ toString stamp ++ tail) := by
  obtain ⟨head, tail, htext⟩ := exists_sidecarText layout writer.metrics
  refine ⟨head, tail, fun stamp => ?_⟩
  cases hformat : writer.format with
  | legacy =>
      rw [hformat] at hsidecar
      rw [← htext stamp, ← Option.some.inj hsidecar]
      rfl
  | mmv =>
      rw [hformat] at hsidecar
      cases hsidecar

theorem sameFiles_of_starts {other : Volume}
    (hfirst : (writer.start volume generation).result = .ok ())
    (hsecond : (writer.start other later).result = .ok ()) :
    SameFiles writer generation later (writer.start volume generation)
      (writer.start other later) := by
  obtain ⟨layout, _, hstarted⟩ := started_of_start hfirst
  have hplan := hstarted.plan
  have hpath := sidecar_of_start hplan hfirst
  have hother := sidecar_of_start hplan hsecond
  obtain ⟨file, image, laid, accompanied, hlaid, haccompanied, hvolume⟩ :=
    laid_of_start hplan hfirst
  obtain ⟨twin, copy, beside, followed, htwin, hfollowed, hnext⟩ := laid_of_start hplan hsecond
  constructor
  · refine ⟨_, _, ?_, ?_, ?_, fun span hspan => ⟨read_stamps hplan hlaid hspan,
      read_stamps hplan htwin hspan⟩⟩
    · rw [hvolume]
      exact ((hlaid.stands_accompanied haccompanied).put_self _).read
    · rw [hnext]
      exact ((htwin.stands_accompanied hfollowed).put_self _).read
    · have hzeros : Alike writer.format (.zeros layout.length) (.zeros layout.length) :=
        ⟨rfl, fun _ _ => rfl⟩
      have halike := alike_run (twins_structureWrites hplan generation later) hzeros
      rw [hlaid.written, htwin.written] at halike
      exact alike_run (twins_publishWrite writer.format generation later) halike
  · rw [hpath, hother]
    cases writer.format <;> rfl
  · intro path hsidecar
    obtain ⟨head, tail, hbeside⟩ := exists_sidecar (hpath ▸ hsidecar)
    refine ⟨head, tail, ?_, ?_⟩
    · rw [hvolume]
      exact read_beside hlaid haccompanied (hbeside generation) _
    · rw [hnext]
      exact read_beside htwin hfollowed (hbeside later) _

end Starts

/-- The calls of a history that succeed. -/
def kept (writer : Writer) : List Turn → List Call
  | [] => []
  | turn :: turns =>
      let later := kept (turn.reply writer).writer turns
      match (turn.reply writer).result with
      | .ok () => turn.made :: later
      | .error _ => later

/-- Registrations that all succeed, one after the other. -/
def AllRegister (writer : Writer) : List Call → Prop
  | [] => True
  | made :: rest => Registration made ∧ (call writer .empty made).result = .ok () ∧
      AllRegister (call writer .empty made).writer rest

section Histories

variable {writer : Writer}

theorem unchanged_of_error (hagrees : Agrees writer) {turn : Turn} {fault : Fault}
    (hmade : turn.made ≠ .stop) (hfailed : (turn.reply writer).result = .error fault) :
    (turn.reply writer).writer = writer ∧
      mapped writer (turn.reply writer).volume = mapped writer turn.volume := by
  have hchange : Change writer turn.volume turn.made (turn.reply writer) :=
    change_of_call turn.host turn.made
  generalize turn.reply writer = reply at hchange hfailed
  generalize hcall : turn.made = made at hchange hmade
  cases hchange with
  | failed _ hsame hvolume =>
      refine ⟨hsame, ?_⟩
      rcases hvolume with hphase | hvolume
      · have hfile : writer.file = none := by
          rw [← Option.not_isSome_iff_eq_none, hagrees.mapped, hphase]
          decide
        simp only [mapped, hfile]
      · rw [hvolume]
  | kept _ hok | handled _ hok | registered _ _ hok | started _ hok =>
      rw [hok] at hfailed
      cases hfailed
  | stopped => exact absurd rfl hmade

theorem reply_of_registration {made : Call} (hmade : Registration made) (host : Host)
    (volume : Volume) :
    (callOn host writer volume made).writer = (call writer .empty made).writer ∧
      (callOn host writer volume made).result = (call writer .empty made).result := by
  have hanswer : ∀ outcome, (writer.answer volume outcome).writer =
      (writer.answer .empty outcome).writer ∧
      (writer.answer volume outcome).result = (writer.answer .empty outcome).result := by
    rintro (fault | ⟨next, events⟩) <;> exact ⟨rfl, rfl⟩
  cases made with
  | registerHandler | addMetric | addMetricWithHandler => exact hanswer _
  | addMonitor monitor unit semantics =>
      simp only [callOn, call, Writer.addMonitor]
      split
      · exact hanswer _
      · exact ⟨rfl, rfl⟩
  | start | updateMetric | flush | stop => cases hmade

theorem registration_or_same (hagrees : Agrees writer) {turn : Turn}
    (hphase : (turn.reply writer).writer.phase = .unstarted) :
    (Registration turn.made ∧ (turn.reply writer).result = .ok ()) ∨
      (∃ fault, (turn.reply writer).result = .error fault) ∧
        (turn.reply writer).writer = writer := by
  have hchange : Change writer turn.volume turn.made (turn.reply writer) :=
    change_of_call turn.host turn.made
  generalize turn.reply writer = reply at hchange hphase
  generalize turn.made = made at hchange
  cases hchange with
  | failed hfailed hsame => exact .inr ⟨⟨_, hfailed⟩, hsame⟩
  | kept hactive _ hsame =>
      rw [hsame] at hphase
      rw [hagrees.mapped, hphase] at hactive
      rcases hactive with hactive | hactive <;> cases hactive
  | handled _ hok => exact .inl ⟨trivial, hok⟩
  | registered hmade _ hok => exact .inl ⟨hmade, hok⟩
  | started _ _ _ hnext | stopped _ hnext =>
      rw [hnext] at hphase
      cases hphase

theorem kept_of_error {turn : Turn} {fault : Fault} (turns : List Turn)
    (hfailed : (turn.reply writer).result = .error fault)
    (hsame : (turn.reply writer).writer = writer) :
    kept writer (turn :: turns) = kept writer turns := by
  rw [kept, hsame]
  simp only [hfailed]

theorem registered_kept (hagrees : Agrees writer) (turns : List Turn)
    (hphase : (after writer turns).phase = .unstarted) :
    AllRegister writer (kept writer turns) ∧
      registered writer .empty (kept writer turns) = after writer turns := by
  induction turns generalizing writer with
  | nil => exact ⟨trivial, rfl⟩
  | cons turn turns ih =>
      -- The phase never goes back, so no call on the way has started the writer.
      have hstill : (turn.reply writer).writer.phase = .unstarted := by
        refine Decidable.byContradiction fun hstarted => ?_
        exact phase_after hstarted turns hphase
      have hnext : Agrees (turn.reply writer).writer :=
        agrees_of_change turn.stamped hagrees (change_of_call turn.host turn.made)
      obtain ⟨hall, hcalls⟩ := ih hnext hphase
      rw [after]
      rcases registration_or_same hagrees hstill with ⟨hmade, hok⟩ | ⟨⟨fault, hfailed⟩, hsame⟩
      · rw [kept]
        obtain ⟨hwriter, hresult⟩ := reply_of_registration hmade turn.host turn.volume
        simp only [hok]
        change (turn.reply writer).writer = _ at hwriter
        change (turn.reply writer).result = _ at hresult
        rw [AllRegister, registered, List.foldl_cons, ← hwriter, ← hresult]
        exact ⟨⟨hmade, hok, hall⟩, hcalls⟩
      · rw [kept_of_error turns hfailed hsame]
        rw [hsame] at hall hcalls ⊢
        exact ⟨hall, hcalls⟩

end Histories

/-- Files in which something else stands under the path. -/
def stale : Volume :=
  ⟨[(["m"], .file (.ofBytes [0x4D, 0x4D, 0x56]))]⟩

theorem create_stale : MappedFile.create stale "m" planned.length =
    (⟨[(["m"], .file (.zeros planned.length))]⟩, .ok ⟨"m", ["m"], planned.length⟩) := by
  have hwrite : stale.write "m" (.zeros 0) = .ok (⟨[(["m"], .file (.zeros 0))]⟩, ["m"]) := by
    rw [Volume.write, route_m]
    rfl
  simp only [MappedFile.create, hwrite]
  rfl

theorem start_stale : (countAndState.start stale 9).result = .ok () := by
  have hphase : countAndState.phase = .unstarted := rfl
  have hpath : countAndState.path = "m" := rfl
  rw [Writer.start, Writer.startBy, hphase, plan_countAndState]
  simp only [Writer.publish, hpath, create_stale]
  rfl

theorem kept_unstarted : kept (.ofPath "m" .mmv) unstarted = [addCount, addState] := by
  obtain ⟨hsame, fault, hfailed⟩ := startOn_of_unmapped
    (call (.ofPath "m" .mmv) .empty addCount).writer .empty (Writer.stamp 5) "out of memory" none
  exact congrArg (addCount :: ·) (kept_of_error _ hfailed hsame)

/-- Calls that fail leave a writer as it was. However many fail before a start that succeeds, and
whatever files they leave, the start makes the files that it makes for a fresh writer with only
the registrations that succeeded, in whatever place that one is started. -/
theorem failures_leave_no_trace (path : String) (format : FileFormat) (turns : List Turn) :
    let writer := after (.ofPath path format) turns
    (∀ (turn : Turn) (fault : Fault), turn.made ≠ .stop →
      (turn.reply writer).result = .error fault → (turn.reply writer).writer = writer ∧
        mapped writer (turn.reply writer).volume = mapped writer turn.volume) ∧
    ∀ host volume generation, (writer.startOn host volume generation).result = .ok () →
      let registrations := kept (.ofPath path format) turns
      let fresh := registered (.ofPath path format) .empty registrations
      AllRegister (.ofPath path format) registrations ∧ fresh = writer ∧
        ∀ other elsewhere later, (fresh.startOn other elsewhere later).result = .ok () →
          SameFiles writer generation later (writer.startOn host volume generation)
            (fresh.startOn other elsewhere later) := by
  intro writer
  have hagrees : Agrees writer := agrees_after (agrees_ofPath path format) turns
  refine ⟨fun turn fault hmade hfailed => unchanged_of_error hagrees hmade hfailed, ?_⟩
  intro host volume generation hstart registrations fresh
  have hsame := start_of_startOn hstart
  rw [hsame] at hstart ⊢
  obtain ⟨hall, hfresh⟩ :=
    registered_kept (agrees_ofPath path format) turns (unstarted_of_start hstart)
  refine ⟨hall, hfresh, fun other elsewhere later hlater => ?_⟩
  rw [start_of_startOn hlater]
  rw [start_of_startOn hlater] at hlater
  rw [show fresh = writer from hfresh] at hlater ⊢
  exact sameFiles_of_starts hstart hlater

theorem no_trace_of_unstarted :
    kept (.ofPath "m" .mmv) unstarted = [addCount, addState] ∧
      (counted.reply countAndState).writer = countAndState ∧
      SameFiles countAndState 9 7 (countAndState.startOn .willing stale 9)
        ((registered (.ofPath "m" .mmv) .empty [addCount, addState]).startOn .willing .empty
          7) := by
  obtain ⟨hfailures, hstarts⟩ := failures_leave_no_trace "m" .mmv unstarted
  rw [after_unstarted] at hfailures hstarts
  rw [kept_unstarted] at hstarts
  have hcounted := hfailures counted _ (fun hstop => Call.noConfusion hstop) rfl
  have hstale : (countAndState.startOn .willing stale 9).result = .ok () := by
    rw [startOn_willing]
    exact start_stale
  obtain ⟨_, hfresh, hsame⟩ := hstarts .willing stale 9 hstale
  refine ⟨kept_unstarted, hcounted.1, hsame .willing .empty 7 ?_⟩
  rw [hfresh, startOn_willing]
  exact start_countAndState

end MappedMetrics.Proofs.FailedCalls
