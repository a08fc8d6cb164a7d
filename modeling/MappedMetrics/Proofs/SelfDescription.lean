import MappedMetrics.Proofs.HandlerEncodings
import MappedMetrics.Proofs.StructureWrites

/-!
A self-describing file is read back from its bytes alone: the table of contents leads to the
records, each record to its descriptor and to its value.
-/

namespace MappedMetrics.Proofs.SelfDescription

open MappedMetrics
open MappedMetrics.Layout
open MappedMetrics.Proofs.Spans
open MappedMetrics.Proofs.SelfDescribingLayout
open MappedMetrics.Proofs.WriteRuns
open MappedMetrics.Proofs.StructureWrites
open MappedMetrics.Proofs.HandlerEncodings

structure Reading where
  name : String
  typeCode : Nat
  dimension : Nat
  value : Bytes
deriving DecidableEq

section Reader

variable (bytes : Bytes)

def number (offset width : Nat) : Nat :=
  Bytes.toNat (Bytes.slice bytes offset width)

def terminated (bytes : Bytes) : Bytes :=
  bytes.takeWhile (· ≠ 0)

/-- The width of a number of a given type. -/
def numberWidth (typeCode : Nat) : Nat :=
  if typeCode = 2 ∨ typeCode = 3 ∨ typeCode = 5 then 8 else 4

/-- The value of a record: a text stands where the record says, a number in the record. -/
def readValue (record typeCode : Nat) : Bytes :=
  if typeCode = 6 then terminated (bytes.drop (number bytes (record + 8) 8))
  else Bytes.slice bytes (record + 8) (numberWidth typeCode)

def readRecord (record : Nat) : Option Reading := do
  let descriptor := number bytes record 4
  let typeCode := number bytes (descriptor + 64) 4
  let name ← Text.ofUtf8? (terminated (Bytes.slice bytes descriptor 64))
  some ⟨name, typeCode, number bytes (descriptor + 72) 4, readValue bytes record typeCode⟩

def readRecords (record : Nat) : Nat → Option (List Reading)
  | 0 => some []
  | count + 1 => do
      let reading ← readRecord bytes record
      let readings ← readRecords (record + 24) count
      some (reading :: readings)

/-- The entry of the table of contents that says where the records are. -/
def recordsIndex? : Option Nat :=
  (List.range (number bytes 24 4)).find? fun index => number bytes (32 + 16 * index) 4 = 3

def readFile : Option (List Reading) := do
  let index ← recordsIndex? bytes
  readRecords bytes (number bytes (32 + 16 * index + 8) 4) (number bytes (32 + 16 * index + 4) 4)

end Reader

/-- What is to be read of a metric: a text counts up to its first NUL. -/
def expected (metric : Metric) : Reading where
  name := metric.name
  typeCode := metric.handler.wireType.code
  dimension := metric.mapping.dimensionWord.toNat
  value :=
    if metric.handler.wireType = .string then terminated (encoding metric.handler metric.initial)
    else encoding metric.handler metric.initial

/-- A metric that the format takes, with a value of the kind that its handler encodes. -/
structure Fit (metric : Metric) : Prop where
  name : FileFormat.mmv.validateName metric.name = .ok ()
  builtIn : BuiltIn metric.handler
  kind : metric.handler.kind = metric.initial.kind

structure Prepared (metrics : List Metric) (layout : Layout) (image : Image) : Prop where
  exact : Exact metrics layout
  length : image.length = layout.length
  fit : ∀ metric ∈ metrics, Fit metric

theorem name_of_validateName {name : String} (hname : FileFormat.mmv.validateName name = .ok ()) :
    Text.utf8 name ≠ [] ∧ 0 ∉ Text.utf8 name ∧ (Text.utf8 name).length ≤ 63 := by
  simp only [FileFormat.validateName, FileFormat.reservedIn?] at hname
  split at hname
  · cases hname
  · rename_i hempty
    split at hname
    · cases hname
    · rename_i hnul
      split at hname
      · cases hname
      · rename_i hlimit
        refine ⟨?_, ?_, Nat.le_of_not_lt hlimit⟩
        · intro hnone
          cases hname : name.toList with
          | nil => exact hempty (by rw [hname]; rfl)
          | cons c rest =>
              rw [Text.utf8, hname, List.flatMap_cons] at hnone
              exact String.utf8EncodeChar_ne_nil (List.append_eq_nil_iff.mp hnone).1
        · exact Text.zero_not_mem_utf8 fun hmem => hnul (List.contains_iff_mem.mpr hmem)

theorem terminated_append_zeros {bytes : Bytes} (zeros : Nat) (hbytes : 0 ∉ bytes) :
    terminated (bytes ++ List.replicate zeros 0) = bytes := by
  have hall : ∀ byte ∈ bytes, decide (byte ≠ 0) = true := by
    intro byte hmem
    exact decide_eq_true fun hzero => hbytes (hzero ▸ hmem)
  rw [terminated, List.takeWhile_append_of_pos hall, List.takeWhile_replicate, if_neg (by decide),
    List.append_nil]

theorem terminated_append {bytes : Bytes} (rest : Bytes) (hbytes : 0 ∈ bytes) :
    terminated (bytes ++ rest) = terminated bytes := by
  rw [terminated, List.takeWhile_append, if_neg]
  · rfl
  · intro hlength
    have hsame := (List.takeWhile_sublist _).eq_of_length hlength
    have hzero := List.all_eq_true.mp List.all_takeWhile 0 (hsame.symm ▸ hbytes)
    simp at hzero

theorem number_of_read {image : Image} {offset width n : Nat}
    (hread : read image ⟨offset, width⟩ = Bytes.ofNat width n) (hn : n < 256 ^ width) :
    number image.toBytes offset width = n := by
  rw [number]
  change Bytes.toNat (read image ⟨offset, width⟩) = n
  rw [hread, Bytes.toNat_ofNat, Nat.mod_eq_of_lt hn]

theorem number_or_text {handler : Handler} {value : MetricValue} (hbuiltIn : BuiltIn handler)
    (hkind : handler.kind = value.kind) :
    handler.large = false ∧ handler.wireType ≠ .string ∧
        numberWidth handler.wireType.code = handler.dataLength.toNat ∨
      handler.large = true ∧ handler.wireType = .string ∧ 0 ∈ encoding handler value := by
  cases hbuiltIn with
  | @numeric kind hnumber =>
      refine .inl ⟨rfl, ?_⟩
      cases kind with
      | str => exact absurd rfl hnumber
      | _ => exact ⟨by decide, rfl⟩
  | text width =>
      cases value with
      | str text =>
          refine .inr ⟨rfl, rfl, ?_⟩
          have hlength := length_fittingBytes_lt (one_le_max width) text
          rw [encoding_text]
          refine List.mem_append_right _ (List.mem_replicate.mpr ⟨?_, rfl⟩)
          omega
      | _ => cases hkind

def laid (image : Image) (layout : Layout) (metrics : List Metric) (generation : UInt64) : Image :=
  (Write.run image (writesAt layout generation (entries metrics))).1

section Laid

variable {metrics : List Metric} {layout : Layout} {image : Image}

theorem lays_slotWrite (hexact : Exact metrics layout) {entry : Metric × Place}
    (hmem : entry ∈ entries metrics) (hfit : Fit entry.1) :
    Lays (slotWrite entry.1 entry.2) (encoding entry.1.handler entry.1.initial) := by
  have hfinish := slot_finish_le hexact hmem
  have hlength := layout.length_le
  rw [hexact.length] at hlength
  refine lays_slot ?_ (putBytes_builtIn hfit.builtIn hfit.kind)
  change entry.2.value + width entry.1 < 2 ^ 64
  have hbound : entry.2.value + width entry.1 ≤ maxLength := Nat.le_trans hfinish hlength
  exact Nat.lt_of_le_of_lt hbound (by decide)

theorem run_laid (hprepared : Prepared metrics layout image) (generation : UInt64) :
    (Write.run image (writesAt layout generation (entries metrics))).2 = .ok () := by
  refine run_eq_ok fun write hmem =>
    ⟨hprepared.length ▸ range_finish_le hprepared.exact hmem, ?_⟩
  refine exists_lays_of_mem (fun metric hmetric => ?_) (fun entry hentry => ?_) hmem
  · exact Nat.le_succ_of_le (name_of_validateName (hprepared.fit metric hmetric).name).2.2
  · exact ⟨_, lays_slotWrite hprepared.exact hentry (hprepared.fit _ (List.of_mem_zip hentry).1)⟩

theorem read_laid (hprepared : Prepared metrics layout image) {generation : UInt64}
    {write : Write} {data : Bytes}
    (hmem : write ∈ writesAt layout generation (entries metrics))
    (hwrite : ∀ offset width, write ≠ .blank offset width) (hlays : Lays write data) :
    read (laid image layout metrics generation) (range write) = data :=
  read_run_of_lasting (run_laid hprepared generation)
    (lasting_of_pairwise (pairwise_writesAt hprepared.exact generation) hmem hwrite) hlays

theorem number_word (hprepared : Prepared metrics layout image) {generation : UInt64}
    {offset : Nat} {n : UInt32}
    (hmem : .word offset n ∈ writesAt layout generation (entries metrics)) :
    number (laid image layout metrics generation).toBytes offset 4 = n.toNat := by
  have hread := read_laid hprepared hmem (fun _ _ hsame => by cases hsame)
    (lays_bytes _ _)
  rw [range_word] at hread
  exact number_of_read hread n.toNat_lt

theorem number_wide (hprepared : Prepared metrics layout image) {generation : UInt64}
    {offset : Nat} {n : UInt64}
    (hmem : .wide offset n ∈ writesAt layout generation (entries metrics)) :
    number (laid image layout metrics generation).toBytes offset 8 = n.toNat := by
  have hread := read_laid hprepared hmem (fun _ _ hsame => by cases hsame)
    (lays_bytes _ _)
  rw [range_wide] at hread
  exact number_of_read hread n.toNat_lt

theorem recordWrite_mem (generation : UInt64) {entry : Metric × Place} {write : Write}
    (hentry : entry ∈ entries metrics) (hwrite : write ∈ recordWrites entry.1 entry.2) :
    write ∈ writesAt layout generation (entries metrics) :=
  List.mem_append_left _ (List.mem_append_right _ (List.mem_flatMap.mpr ⟨entry, hentry, hwrite⟩))

theorem tableWrite_mem {generation : UInt64} {index : Nat} {block : Block} {write : Write}
    (hblock : layout.blocks[index]? = some block)
    (hwrite : write ∈ FileFormat.Described.entry index block) :
    write ∈ writesAt layout generation (entries metrics) := by
  refine List.mem_append_left _ (List.mem_append_left _ (List.mem_append_right _ ?_))
  exact List.mem_flatMap.mpr ⟨(block, index), List.mk_mem_zipIdx_iff_getElem?.mpr hblock, hwrite⟩

theorem number_tableEntry (hprepared : Prepared metrics layout image) (generation : UInt64)
    {index : Nat} {block : Block}
    (hblock : layout.blocks[index]? = some block) (hcount : block.count ≤ maxLength)
    (hoffset : block.offset ≤ maxLength) :
    number (laid image layout metrics generation).toBytes (32 + 16 * index) 4 = block.kind.code ∧
    number (laid image layout metrics generation).toBytes (32 + 16 * index + 4) 4 = block.count ∧
    number (laid image layout metrics generation).toBytes (32 + 16 * index + 8) 4 =
      block.offset := by
  have hstart : 32 + 16 * index = FileFormat.Described.headerLength.toNat +
      index * FileFormat.Described.entryLength.toNat := by
    rw [Nat.mul_comm 16]
    rfl
  have hcode : (UInt32.ofNat block.kind.code).toNat = block.kind.code := by
    cases block.kind <;> rfl
  rw [hstart]
  refine ⟨?_, ?_, ?_⟩
  · rw [number_word hprepared (tableWrite_mem hblock (.head _)), hcode]
  · rw [number_word hprepared (tableWrite_mem hblock (.tail _ (.head _))),
      toNat_narrow hcount]
  · rw [number_word hprepared (tableWrite_mem hblock (.tail _ (.tail _ (.head _)))),
      toNat_narrow hoffset]

theorem starts_le_maxLength (hexact : Exact metrics layout) :
    descriptorsStart metrics ≤ maxLength ∧ recordsStart metrics ≤ maxLength ∧
      metrics.length ≤ maxLength := by
  have hlength := layout.length_le
  rw [hexact.length] at hlength
  have hlimit : slotsStart metrics ≤ maxLength :=
    Nat.le_trans (slotsStart_le_finish metrics) hlength
  have hrecords : recordsStart metrics ≤ maxLength :=
    Nat.le_trans (Nat.le_add_right _ _) hlimit
  refine ⟨Nat.le_trans (descriptorsStart_le metrics) hrecords, hrecords, ?_⟩
  rw [slotsStart] at hlimit
  omega

theorem number_blockCount (hprepared : Prepared metrics layout image) (generation : UInt64) :
    number (laid image layout metrics generation).toBytes 24 4 = blockCount metrics := by
  have hmem : .word 24 (narrow layout.blocks.length) ∈
      writesAt layout generation (entries metrics) := by
    simp [writesAt, FileFormat.Described.header]
  have hlength : layout.blocks.length = blockCount metrics := by
    rw [hprepared.exact.blocks, length_blocks]
  rw [number_word hprepared hmem, hlength, toNat_narrow]
  rw [blockCount]
  split <;> decide

theorem recordsIndex?_laid (hprepared : Prepared metrics layout image) (generation : UInt64) :
    recordsIndex? (laid image layout metrics generation).toBytes = some 1 ∧
    number (laid image layout metrics generation).toBytes (32 + 16 * 1 + 4) 4 = metrics.length ∧
    number (laid image layout metrics generation).toBytes (32 + 16 * 1 + 8) 4 =
      recordsStart metrics := by
  obtain ⟨hdescriptors, hrecords, hcount⟩ := starts_le_maxLength hprepared.exact
  have hzero : layout.blocks[0]? = some ⟨.metrics, descriptorsStart metrics, metrics.length⟩ := by
    rw [hprepared.exact.blocks]
    rfl
  have hone : layout.blocks[1]? = some ⟨.values, recordsStart metrics, metrics.length⟩ := by
    rw [hprepared.exact.blocks]
    rfl
  obtain ⟨hfirst, _⟩ := number_tableEntry hprepared generation hzero hcount hdescriptors
  obtain ⟨hsecond, hcounted, hplaced⟩ := number_tableEntry hprepared generation hone hcount hrecords
  refine ⟨?_, hcounted, hplaced⟩
  rw [recordsIndex?, number_blockCount hprepared, List.find?_range_eq_some]
  refine ⟨?_, ?_, ?_⟩
  · rw [hsecond]
    rfl
  · rw [blockCount, List.mem_range]
    split <;> decide
  · intro index hindex
    obtain rfl : index = 0 := Nat.lt_one_iff.mp hindex
    rw [hfirst]
    rfl

theorem readValue_laid (hprepared : Prepared metrics layout image) (generation : UInt64)
    {entry : Metric × Place} (hentry : entry ∈ entries metrics) :
    readValue (laid image layout metrics generation).toBytes entry.2.record
      entry.1.handler.wireType.code = (expected entry.1).value := by
  have hfit := hprepared.fit _ (List.of_mem_zip hentry).1
  have hslot : slotWrite entry.1 entry.2 ∈ writesAt layout generation (entries metrics) :=
    List.mem_append_right _ (List.mem_map_of_mem hentry)
  have hread := read_laid hprepared hslot (fun _ _ hsame => by cases hsame)
    (lays_slotWrite hprepared.exact hentry hfit)
  rcases number_or_text hfit.builtIn hfit.kind with ⟨hinline, hwire, hwidth⟩ |
    ⟨hlarge, hwire, hnul⟩
  · have hvalue := value_of_inline entry hentry hinline
    have hcode : entry.1.handler.wireType.code ≠ 6 := by
      intro hcode
      apply hwire
      cases hwireType : entry.1.handler.wireType with
      | string => rfl
      | _ => rw [hwireType] at hcode; cases hcode
    rw [readValue, if_neg hcode, hwidth, ← hvalue, expected, if_neg hwire]
    exact hread
  · have hpointer : .wide (entry.2.record + 8) (narrow entry.2.value).toUInt64 ∈
        recordWrites entry.1 entry.2 := by
      simp [recordWrites, payloadWrites, hlarge]
    have hcode : entry.1.handler.wireType.code = 6 := by
      rw [hwire]
      rfl
    obtain ⟨_, _, hlimit⟩ := le_maxLength hprepared.exact (List.of_mem_zip hentry).2
    rw [readValue, if_pos hcode, number_wide hprepared (recordWrite_mem generation hentry hpointer),
      UInt32.toNat_toUInt64, toNat_narrow hlimit, expected, if_pos hwire]
    have hsplit := List.take_append_drop entry.1.handler.dataLength.toNat
      ((laid image layout metrics generation).toBytes.drop entry.2.value)
    have hslice : ((laid image layout metrics generation).toBytes.drop entry.2.value).take
        entry.1.handler.dataLength.toNat = encoding entry.1.handler entry.1.initial := hread
    rw [hslice] at hsplit
    rw [← hsplit]
    exact terminated_append _ hnul

theorem readName_laid (hprepared : Prepared metrics layout image) (generation : UInt64)
    {entry : Metric × Place} (hentry : entry ∈ entries metrics) :
    Text.ofUtf8? (terminated (Bytes.slice (laid image layout metrics generation).toBytes
      entry.2.descriptor 64)) = some entry.1.name := by
  have hfit := hprepared.fit _ (List.of_mem_zip hentry).1
  obtain ⟨hsome, hnul, hlimit⟩ := name_of_validateName hfit.name
  have hmem : .field entry.2.descriptor 64 (Text.utf8 entry.1.name) ∈
      recordWrites entry.1 entry.2 := List.mem_append_left _ (.head _)
  have hread := read_laid hprepared (recordWrite_mem generation hentry hmem)
    (fun offset width hsame => hsome (Write.field.inj hsame).2.2)
    (lays_field (Nat.le_succ_of_le hlimit))
  change Bytes.slice _ entry.2.descriptor 64 = _ at hread
  rw [hread, terminated_append_zeros _ hnul, Text.ofUtf8?_utf8]

theorem readRecord_laid (hprepared : Prepared metrics layout image) (generation : UInt64)
    {entry : Metric × Place} (hentry : entry ∈ entries metrics) :
    readRecord (laid image layout metrics generation).toBytes entry.2.record =
      some (expected entry.1) := by
  obtain ⟨hdescriptor, _, _⟩ := le_maxLength hprepared.exact (List.of_mem_zip hentry).2
  have hback : .word entry.2.record (narrow entry.2.descriptor) ∈ recordWrites entry.1 entry.2 :=
    List.mem_append_right _ (.head _)
  have htype : .word (entry.2.descriptor + 64)
      (UInt32.ofNat entry.1.handler.wireType.code) ∈ recordWrites entry.1 entry.2 :=
    List.mem_append_left _ (.tail _ (.head _))
  have hdimension : .word (entry.2.descriptor + 72) entry.1.mapping.dimensionWord ∈
      recordWrites entry.1 entry.2 :=
    List.mem_append_left _ (.tail _ (.tail _ (.tail _ (.head _))))
  have hcode : (UInt32.ofNat entry.1.handler.wireType.code).toNat =
      entry.1.handler.wireType.code := by
    cases entry.1.handler.wireType <;> rfl
  simp only [readRecord, number_word hprepared (recordWrite_mem generation hentry hback),
    toNat_narrow hdescriptor, number_word hprepared (recordWrite_mem generation hentry htype),
    hcode,
    number_word hprepared (recordWrite_mem generation hentry hdimension),
    readName_laid hprepared generation hentry, readValue_laid hprepared generation hentry]
  rfl

end Laid

theorem readRecords_eq {bytes : Bytes} {metrics : List Metric} {descriptor record slot : Nat}
    (hread : ∀ entry ∈ metrics.zip (placesFrom metrics descriptor record slot),
      readRecord bytes entry.2.record = some (expected entry.1)) :
    readRecords bytes record metrics.length = some (metrics.map expected) := by
  induction metrics generalizing descriptor record slot with
  | nil => rfl
  | cons metric rest ih =>
      rw [placesFrom] at hread
      split at hread <;>
      · rw [List.zip_cons_cons, List.forall_mem_cons] at hread
        obtain ⟨hfirst, hrest⟩ := hread
        change readRecord bytes record = some (expected metric) at hfirst
        rw [List.length_cons, readRecords, hfirst, ih hrest]
        rfl

/-- A file says of itself what its metrics are. The writes that lay it down are all done, a reader
finds in its bytes every metric in order of registration, and bytes outside the parts of the file
are those that the buffer held. -/
theorem readFile_structureWrites {metrics : List Metric} {layout : Layout} {image : Image}
    (generation : UInt64) (hplan : FileFormat.mmv.plan metrics = .ok layout)
    (hlength : image.length = layout.length) (hfit : ∀ metric ∈ metrics, Fit metric) :
    ∃ written, Write.run image (FileFormat.mmv.structureWrites layout metrics generation) =
        (written, .ok ()) ∧
      readFile written.toBytes = some (metrics.map expected) ∧
      ∀ i, (∀ span ∈ regions metrics layout.blocks.length (placesOf layout), ¬ span.Holds i) →
        written.toBytes[i]? = image.toBytes[i]? := by
  have hexact := exact_of_plan hplan
  have hprepared : Prepared metrics layout image := ⟨hexact, hlength, hfit⟩
  obtain ⟨hentry, hcount, hrecords⟩ := recordsIndex?_laid hprepared generation
  rw [structureWrites_eq hexact, hexact.placesOf]
  refine ⟨laid image layout metrics generation, ?_, ?_, ?_⟩
  · exact Prod.ext rfl (run_laid hprepared generation)
  · rw [readFile, hentry]
    change readRecords _ (number _ (32 + 16 * 1 + 8) 4) (number _ (32 + 16 * 1 + 4) 4) = _
    rw [hcount, hrecords]
    exact readRecords_eq fun entry hmem => readRecord_laid hprepared generation hmem
  · intro i houtside
    refine getElem?_run_of_outside fun write hmem hholds => ?_
    obtain ⟨span, hspan, hwithin⟩ := exists_region_of_mem hexact hmem
    exact houtside span hspan (hwithin.holds hholds)

theorem fit_countAndText : ∀ metric ∈ countAndText, Fit metric := by
  intro metric hmem
  simp only [countAndText, List.mem_cons, List.not_mem_nil, or_false] at hmem
  rcases hmem with rfl | rfl
  · exact ⟨rfl, .numeric (by decide), rfl⟩
  · exact ⟨rfl, .text 10, rfl⟩

theorem readFile_countAndText : ∃ layout written,
    Write.run (.uniform 290 0xFF) (FileFormat.mmv.structureWrites layout countAndText 7) =
      (written, .ok ()) ∧ readFile written.toBytes = some (countAndText.map expected) := by
  have hplan : FileFormat.mmv.plan countAndText = .ok
      ⟨290, [⟨some 80, some 232, 240⟩, ⟨some 156, some 256, 280⟩],
        [⟨.metrics, 80, 2⟩, ⟨.values, 232, 2⟩, ⟨.strings, 280, 1⟩], by decide⟩ := rfl
  have hlength : (Image.uniform 290 0xFF).length = 290 := rfl
  obtain ⟨written, hrun, hread, _⟩ :=
    readFile_structureWrites 7 hplan hlength fit_countAndText
  exact ⟨_, written, hrun, hread⟩

end MappedMetrics.Proofs.SelfDescription
