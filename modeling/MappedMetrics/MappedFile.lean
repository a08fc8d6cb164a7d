import MappedMetrics.Volume

/-!
A file that is mapped as an image of fixed length. Values are stored in lanes, each in one
indivisible write.
-/

namespace MappedMetrics

/-- A mapped file. The bytes are those of the file at its place. -/
structure MappedFile where
  path : String
  place : Place
  length : Nat

/-- What a host refuses although the files allow it: to map a file and to write a mapping through,
each with its reason. -/
structure Host where
  mapping : Option String
  flushing : Option String

/-- A host that refuses nothing. -/
def Host.willing : Host :=
  ⟨none, none⟩

namespace MappedFile

/-- A new file of zeros in place of whatever file was there. -/
def create (volume : Volume) (path : String) (length : Nat) : Volume × Outcome MappedFile :=
  match volume.write path (.zeros 0) with
  | .error flaw => (volume, (MappingError.create path flaw).refuse)
  | .ok (volume, place) =>
      if Volume.maxLength < length then (volume, (MappingError.resize path length).refuse)
      else (volume.put place (.file (.zeros length)), .ok ⟨path, place, length⟩)

/-- The outcome of writing the mapped bytes through to the file, which always holds them already. -/
def flush (host : Host) (file : MappedFile) : Outcome Unit :=
  match host.flushing with
  | some reason => (MappingError.flush file.path reason).refuse
  | none => .ok ()

def contents (file : MappedFile) (volume : Volume) : Image :=
  volume.contents file.place

def replace (file : MappedFile) (volume : Volume) (contents : Image) : Volume :=
  volume.put file.place (.file contents)

/-- Refuses a range that ends after the mapping. -/
def checkBounds (file : MappedFile) (offset length : Nat) : Outcome Unit :=
  if offset + length ≤ file.length then .ok ()
  else (MappingError.boundsViolation offset length file.length).refuse

/-- The width of the lanes for a range: the widest that divides both offset and length. -/
def laneWidth (offset length : Nat) : Nat :=
  if offset % 8 = 0 ∧ length % 8 = 0 then 8
  else if offset % 4 = 0 ∧ length % 4 = 0 then 4
  else 1

/-- The first lanes of data from an offset on, each with its offset and with what it takes of the
data. -/
def lanesFrom (width : Nat) : Nat → Nat → Bytes → List (Nat × Bytes)
  | 0, _, _ => []
  | count + 1, offset, data =>
      (offset, data.take width) :: lanesFrom width count (offset + width) (data.drop width)

/-- The lanes that data is stored in from an offset on. -/
def lanes (offset : Nat) (data : Bytes) : List (Nat × Bytes) :=
  let width := laneWidth offset data.length
  lanesFrom width (data.length / width) offset data

/-- Stores a lane as one number. -/
def storeLane (image : Image) (lane : Nat × Bytes) : Image :=
  image.overwrite lane.1 (Bytes.ofNat lane.2.length (Bytes.toNat lane.2))

/-- The image after data is stored from an offset on, lane by lane. -/
def storeLanes (image : Image) (offset : Nat) (data : Bytes) : Image :=
  (lanes offset data).foldl storeLane image

/-- Lanes leave no byte of the data over. -/
theorem laneWidth_dvd_length (offset length : Nat) : laneWidth offset length ∣ length := by
  rw [laneWidth]
  split
  · exact Nat.dvd_of_mod_eq_zero (And.right ‹_›)
  · split
    · exact Nat.dvd_of_mod_eq_zero (And.right ‹_›)
    · exact Nat.one_dvd length

/-- Every lane starts at a multiple of its width. -/
theorem laneWidth_dvd_offset (offset length : Nat) : laneWidth offset length ∣ offset := by
  rw [laneWidth]
  split
  · exact Nat.dvd_of_mod_eq_zero (And.left ‹_›)
  · split
    · exact Nat.dvd_of_mod_eq_zero (And.left ‹_›)
    · exact Nat.one_dvd offset

def store (file : MappedFile) (volume : Volume) (offset : Nat) (data : Bytes) : Outcome Volume :=
  match file.checkBounds offset data.length with
  | .error fault => .error fault
  | .ok () => .ok (file.replace volume (storeLanes (file.contents volume) offset data))

/-- Stores runs of bytes at their offsets, one after the other. -/
def storeAll (file : MappedFile) (volume : Volume) (patches : List (Nat × Bytes)) :
    Outcome Volume := do
  patches.forM fun (offset, data) => file.checkBounds offset data.length
  pure (file.replace volume (patches.foldl (fun image (offset, data) =>
    storeLanes image offset data) (file.contents volume)))

def read (file : MappedFile) (volume : Volume) (offset length : Nat) : Outcome Bytes :=
  match file.checkBounds offset length with
  | .error fault => .error fault
  | .ok () => .ok ((file.contents volume).slice offset length)

end MappedFile

end MappedMetrics
