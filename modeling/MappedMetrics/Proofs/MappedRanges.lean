import MappedMetrics.Layout.Slots
import MappedMetrics.Proofs.LaneStores
import MappedMetrics.Proofs.StartedFiles

namespace MappedMetrics.Proofs.MappedRanges

open MappedMetrics
open MappedMetrics.MappedFile
open MappedMetrics.Proofs.LaneStores
open MappedMetrics.Proofs.StartedFiles

variable {file : MappedFile} {volume next : Volume} {base width count offset : Nat} {data : Bytes}

/-- The length of a page in bytes. Mappings begin on one. -/
def pageLength : Nat := 4096

/-- A mapping is as long as the file at its place, and no longer than any file. -/
structure Maps (file : MappedFile) (volume : Volume) : Prop where
  place : file.place.isAbove = false
  length : (file.contents volume).length = file.length
  bounded : file.length ≤ Volume.maxLength

theorem maps_of_create {path : String} {length : Nat}
    (hcreate : MappedFile.create volume path length = (next, .ok file)) : Maps file next := by
  obtain ⟨hlength, hplace, hcontents⟩ := create_ok hcreate
  refine ⟨hplace, ?_, ?_⟩
  · rw [hcontents, hlength]
    rfl
  · simp only [MappedFile.create] at hcreate
    split at hcreate
    · cases hcreate
    · split at hcreate
      · cases hcreate
      · rename_i hshort
        rw [hlength]
        exact Nat.not_lt.mp hshort

theorem Maps.replace (hmaps : Maps file volume) {image : Image}
    (himage : image.length = file.length) :
    Maps file (file.replace volume image) :=
  ⟨hmaps.place, by rw [contents_replace _ _ hmaps.place, himage], hmaps.bounded⟩

/-- Whether a range ends within a mapping, by a sum of words that is absent where it leaves the
word. -/
def endsWithin (size : Nat) (offset length : UInt64) : Bool :=
  (Layout.add? offset length).any fun finish => finish.toNat ≤ size

theorem endsWithin_iff {size : Nat} (hsize : size < 2 ^ 64) (offset length : UInt64) :
    endsWithin size offset length = true ↔ offset.toNat + length.toNat ≤ size := by
  rw [endsWithin]
  cases hsum : Layout.add? offset length with
  | none =>
      rw [Layout.add?] at hsum
      split at hsum
      · cases hsum
      · simp only [Option.any_none, Bool.false_eq_true, false_iff]
        omega
  | some finish => rw [Option.any_some, decide_eq_true_eq, Layout.toNat_of_add? hsum]

theorem checkBounds_eq (hmaps : Maps file volume) (offset length : UInt64) :
    file.checkBounds offset.toNat length.toNat =
      if endsWithin file.length offset length then .ok ()
      else (MappingError.boundsViolation offset.toNat length.toNat file.length).refuse := by
  have hsize : file.length < 2 ^ 64 := Nat.lt_of_le_of_lt hmaps.bounded (by decide)
  rw [checkBounds]
  exact ite_congr (propext (endsWithin_iff hsize offset length).symm) (fun _ => rfl) fun _ => rfl

theorem dvd_eight_pageLength : 8 ∣ pageLength := by decide

theorem laneWidth_add (hbase : pageLength ∣ base) (offset length : Nat) :
    laneWidth (base + offset) length = laneWidth offset length := by
  obtain ⟨pages, rfl⟩ := Nat.dvd_trans dvd_eight_pageLength hbase
  have height : (8 * pages + offset) % 8 = offset % 8 := Nat.mul_add_mod ..
  have hfour : (8 * pages + offset) % 4 = offset % 4 := by omega
  rw [laneWidth, laneWidth, height, hfour]

theorem getElem?_lanesFrom (width count offset : Nat) (data : Bytes) (i : Nat) :
    (lanesFrom width count offset data)[i]? =
      if i < count then some (offset + width * i, (data.drop (width * i)).take width)
      else none := by
  induction count generalizing offset data i with
  | zero => rfl
  | succ count ih =>
      cases i with
      | zero => simp [lanesFrom]
      | succ i =>
          rw [lanesFrom, List.getElem?_cons_succ, ih, List.drop_drop, Nat.add_assoc,
            Nat.mul_succ, Nat.add_comm width]
          exact ite_congr (by rw [Nat.add_lt_add_iff_right]) (fun _ => rfl) fun _ => rfl

/-- A lane is as wide as all others, at an aligned address, and inside its range. -/
structure Fits (base width start finish : Nat) (lane : Nat × Bytes) : Prop where
  full : lane.2.length = width
  aligned : width ∣ base + lane.1
  start_le : start ≤ lane.1
  le_finish : lane.1 + width ≤ finish

theorem fits_of_mem (hbase : pageLength ∣ base) {lane : Nat × Bytes}
    (hmem : lane ∈ lanes offset data) :
    Fits base (laneWidth offset data.length) offset (offset + data.length) lane := by
  obtain ⟨i, hi⟩ := List.getElem?_of_mem hmem
  rw [lanes, getElem?_lanesFrom] at hi
  split at hi
  · rename_i hless
    cases hi
    -- There are as many whole lanes as the data has, so the lane ends before the data does.
    have hend : laneWidth offset data.length * (i + 1) ≤ data.length :=
      Nat.le_trans (Nat.mul_le_mul_left _ hless) (Nat.mul_div_le ..)
    rw [Nat.mul_succ] at hend
    have hdvd := laneWidth_dvd_offset (base + offset) data.length
    rw [laneWidth_add hbase] at hdvd
    constructor
    · rw [List.length_take, List.length_drop]
      omega
    · rw [← Nat.add_assoc]
      exact Nat.dvd_add hdvd (Nat.dvd_mul_right ..)
    · exact Nat.le_add_right ..
    · change offset + _ + _ ≤ _
      omega
  · cases hi

theorem flatMap_lanesFrom (hdata : data.length = width * count) :
    (lanesFrom width count offset data).flatMap Prod.snd = data := by
  induction count generalizing offset data with
  | zero => exact (List.length_eq_zero_iff.mp hdata).symm
  | succ count ih =>
      rw [Nat.mul_succ] at hdata
      rw [lanesFrom, List.flatMap_cons, ih (by rw [List.length_drop]; omega),
        List.take_append_drop]

theorem flatMap_lanes (offset : Nat) (data : Bytes) :
    (lanes offset data).flatMap Prod.snd = data :=
  flatMap_lanesFrom (Nat.mul_div_cancel' (laneWidth_dvd_length offset data.length)).symm

/-- The bytes of a mapping once a store was tried. -/
def bytesAfter (file : MappedFile) (volume : Volume) (offset : Nat) (data : Bytes) : Bytes :=
  match file.store volume offset data with
  | .ok next => (file.contents next).toBytes
  | .error _ => (file.contents volume).toBytes

/-- What a store into a mapping leaves. -/
structure Copied (file : MappedFile) (volume : Volume) (offset : Nat) (data : Bytes)
    (next : Volume) : Prop where
  maps : Maps file next
  range : ∀ i < data.length, (file.contents next).toBytes[offset + i]? = data[i]?
  frame : ∀ i, i < offset ∨ offset + data.length ≤ i →
    (file.contents next).toBytes[i]? = (file.contents volume).toBytes[i]?
  read : file.read next offset data.length = .ok data
  /-- All other files are left as they are. -/
  elsewhere : ∀ place, place ≠ file.place → next.node? place = volume.node? place

/-- A store into a mapping that begins at an address is a plain copy, or it is refused. -/
structure PlainStore (file : MappedFile) (volume : Volume) (base offset : Nat) (data : Bytes) :
    Prop where
  refused_iff : file.store volume offset data =
      (MappingError.boundsViolation offset data.length file.length).refuse ↔
    file.length < offset + data.length
  unchanged : file.length < offset + data.length →
    bytesAfter file volume offset data = (file.contents volume).toBytes
  stored : offset + data.length ≤ file.length →
    ∃ next, file.store volume offset data = .ok next ∧ Copied file volume offset data next
  /-- The bounds are those that a checked sum of words gives. -/
  checked : ∀ start length : UInt64, start.toNat = offset → length.toNat = data.length →
    file.checkBounds offset data.length =
      if endsWithin file.length start length then .ok ()
      else (MappingError.boundsViolation offset data.length file.length).refuse
  /-- The address decides on the lanes as the offset does. -/
  width : laneWidth (base + offset) data.length = laneWidth offset data.length
  /-- Lanes lie in the range, and with it in the mapping. -/
  lanes : ∀ lane ∈ lanes offset data,
    Fits base (laneWidth offset data.length) offset (offset + data.length) lane
  whole : (MappedFile.lanes offset data).flatMap Prod.snd = data

theorem store_of_fits (hfits : offset + data.length ≤ file.length) (volume : Volume) :
    file.store volume offset data =
      .ok (file.replace volume (storeLanes (file.contents volume) offset data)) := by
  rw [store, checkBounds, if_pos hfits]

theorem store_of_long (hlong : file.length < offset + data.length) (volume : Volume) :
    file.store volume offset data =
      (MappingError.boundsViolation offset data.length file.length).refuse := by
  rw [store, checkBounds, if_neg (Nat.not_le.mpr hlong)]
  rfl

theorem length_storeLanes (image : Image) (offset : Nat) (data : Bytes) :
    (storeLanes image offset data).length = image.length := by
  rw [storeLanes]
  generalize MappedFile.lanes offset data = lanes
  induction lanes generalizing image with
  | nil => rfl
  | cons lane rest ih => rw [List.foldl_cons, ih, length_storeLane]

theorem copied_of_fits (hmaps : Maps file volume) (hfits : offset + data.length ≤ file.length) :
    Copied file volume offset data
      (file.replace volume (storeLanes (file.contents volume) offset data)) := by
  have himage : offset + data.length ≤ (file.contents volume).length := by rwa [hmaps.length]
  have hbytes : offset + data.length ≤ (file.contents volume).toBytes.length := by
    rwa [Image.length_toBytes]
  have hcopy := toBytes_storeLanes himage
  constructor
  · refine hmaps.replace ?_
    rw [length_storeLanes, hmaps.length]
  · intro i hi
    rw [contents_replace _ _ hmaps.place, hcopy, Bytes.getElem?_overwrite _ hbytes,
      if_pos (by omega), Nat.add_sub_cancel_left]
  · intro i houtside
    rw [contents_replace _ _ hmaps.place, hcopy,
      Bytes.getElem?_overwrite_of_not_mem hbytes houtside]
  · rw [MappedFile.read, checkBounds, if_pos hfits, contents_replace _ _ hmaps.place,
      Image.slice_eq, hcopy, Bytes.slice_overwrite hbytes]
  · intro place hne
    exact node?_put_of_ne _ hne

/-- Whatever the lanes, a store copies its data into the range that it is for if that range lies in
the mapping, and changes nothing if it does not. -/
theorem plainStore_of_maps (hmaps : Maps file volume) (hbase : pageLength ∣ base) (offset : Nat)
    (data : Bytes) : PlainStore file volume base offset data where
  refused_iff := by
    refine ⟨fun hrefused => Nat.not_le.mp fun hfits => ?_, fun hlong => store_of_long hlong volume⟩
    rw [store_of_fits hfits] at hrefused
    cases hrefused
  unchanged hlong := by
    rw [bytesAfter, store_of_long hlong]
    rfl
  stored hfits := ⟨_, store_of_fits hfits volume, copied_of_fits hmaps hfits⟩
  checked start length hstart hlength := by
    rw [← hstart, ← hlength]
    exact checkBounds_eq hmaps start length
  width := laneWidth_add hbase offset data.length
  lanes _ hmem := fits_of_mem hbase hmem
  whole := flatMap_lanes offset data

/-- Twelve bytes are stored in three lanes at a multiple of four that is none of eight. -/
theorem plainStore_four : ∃ file volume,
    MappedFile.create .empty "m" 64 = (volume, .ok file) ∧ Maps file volume ∧
      pageLength ∣ 0x7f0000001000 ∧
      PlainStore file volume 0x7f0000001000 20 [1, 2, 3, 4, 5, 6, 7, 8, 9, 10, 11, 12] := by
  have hcreate := create_m (show 64 ≤ Volume.maxLength by decide)
  have hmaps := maps_of_create hcreate
  have hbase : pageLength ∣ 0x7f0000001000 := by decide
  exact ⟨_, _, hcreate, hmaps, hbase, plainStore_of_maps hmaps hbase _ _⟩

-- A range of eight bytes at an offset that is no multiple of eight takes two lanes.
example : lanes 20 [1, 2, 3, 4, 5, 6, 7, 8] = [(20, [1, 2, 3, 4]), (24, [5, 6, 7, 8])] := rfl

end MappedMetrics.Proofs.MappedRanges
