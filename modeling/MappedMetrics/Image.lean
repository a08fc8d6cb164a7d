import MappedMetrics.Bytes.Patch
import MappedMetrics.Image.Segment

/-!
Images: runs of bytes of fixed length that are changed in place and may be far longer than what was
ever written into them. What an operation does is said of the bytes of the image.
-/

namespace MappedMetrics

/-- A run of bytes of fixed length, the first ones of a segment that is at least as long. -/
structure Image where
  length : Nat
  depth : Nat
  root : Segment
  length_le : length ≤ 2 ^ depth
deriving DecidableEq

namespace Image

/-- One byte again and again. -/
def uniform (length : Nat) (byte : UInt8) : Image where
  length := length
  depth := length.log2 + 1
  root := .uniform byte
  length_le := Nat.le_of_lt Nat.lt_log2_self

def zeros (length : Nat) : Image :=
  uniform length 0

def toBytes (image : Image) : Bytes :=
  (Segment.toBytes image.depth image.root).take image.length

/-- The `length` bytes from `offset` on, fewer where the image ends earlier. -/
def slice (image : Image) (offset length : Nat) : Bytes :=
  Segment.sliceOnto image.depth (2 ^ image.depth) offset (min (offset + length) image.length)
    image.root []

/-- The byte at an offset, zero past the end. -/
def byte (image : Image) (i : Nat) : UInt8 :=
  (image.slice i 1).headD 0

/-- Lays bytes over an image from an offset on. -/
def overwrite (image : Image) (offset : Nat) (data : Bytes) : Image :=
  { image with root := (Segment.lay image.depth (2 ^ image.depth) offset data image.root).1 }

/-- Sets the bytes from `start` up to `finish`. -/
def fill (image : Image) (start finish : Nat) (byte : UInt8) : Image :=
  { image with root := Segment.fill image.depth (2 ^ image.depth) start finish byte image.root }

/-- Lays a patch over an image from an offset on. -/
def lay (image : Image) (offset : Nat) (patch : Patch) : Image :=
  (image.fill (offset + patch.data.length) (offset + patch.width) patch.filler).overwrite offset
    patch.data

def ofBytes (data : Bytes) : Image :=
  (zeros data.length).overwrite 0 data

/-- The lines of sixteen bytes that hold a byte other than zero, each with its offset; the last
line of the image may be shorter. -/
def lines (image : Image) : List (Nat × Bytes) :=
  (Segment.linesOnto 4 image.depth 0 image.root []).filterMap fun (offset, line) =>
    let line := line.take (image.length - offset)
    if line.all (· == 0) then none else some (offset, line)

@[simp] theorem length_toBytes (image : Image) : image.toBytes.length = image.length := by
  rw [toBytes, List.length_take, Segment.length_toBytes, Nat.min_eq_left image.length_le]

theorem toBytes_uniform (length : Nat) (byte : UInt8) :
    (uniform length byte).toBytes = List.replicate length byte := by
  rw [toBytes, uniform, Segment.toBytes_uniform, List.take_replicate,
    Nat.min_eq_left (Nat.le_of_lt Nat.lt_log2_self)]

theorem slice_eq (image : Image) (offset length : Nat) :
    image.slice offset length = Bytes.slice image.toBytes offset length := by
  rw [slice, Segment.sliceOnto_eq, List.append_nil, Bytes.slice, Bytes.slice, toBytes,
    List.drop_take, List.take_take]
  congr 1
  omega

theorem byte_eq (image : Image) (i : Nat) : image.byte i = image.toBytes.getD i 0 := by
  rw [byte, slice_eq, Bytes.slice, List.headD_eq_head?_getD, List.head?_take,
    if_neg (by decide), List.head?_drop, List.getD_eq_getElem?_getD]

@[simp] theorem length_overwrite (image : Image) (offset : Nat) (data : Bytes) :
    (image.overwrite offset data).length = image.length := rfl

@[simp] theorem length_fill (image : Image) (start finish : Nat) (byte : UInt8) :
    (image.fill start finish byte).length = image.length := rfl

@[simp] theorem length_lay (image : Image) (offset : Nat) (patch : Patch) :
    (image.lay offset patch).length = image.length := rfl

theorem getElem?_overwrite (image : Image) (offset : Nat) (data : Bytes) (i : Nat) :
    (image.overwrite offset data).toBytes[i]? =
      if offset ≤ i ∧ i < offset + data.length ∧ i < image.length then data[i - offset]?
      else image.toBytes[i]? := by
  have bound := image.length_le
  rw [toBytes, toBytes, List.getElem?_take, List.getElem?_take]
  simp only [overwrite, Segment.getElem?_lay]
  by_cases inside : i < image.length
  · rw [if_pos inside, if_pos inside]
    exact ite_congr (by rw [eq_iff_iff]; omega) (fun _ => rfl) (fun _ => rfl)
  · rw [if_neg inside, if_neg inside, if_neg (by omega)]

theorem getElem?_fill (image : Image) (start finish : Nat) (byte : UInt8) (i : Nat) :
    (image.fill start finish byte).toBytes[i]? =
      if start ≤ i ∧ i < finish ∧ i < image.length then some byte else image.toBytes[i]? := by
  have bound := image.length_le
  rw [toBytes, toBytes, List.getElem?_take, List.getElem?_take]
  simp only [fill, Segment.getElem?_fill]
  by_cases inside : i < image.length
  · rw [if_pos inside, if_pos inside]
    exact ite_congr (by rw [eq_iff_iff]; omega) (fun _ => rfl) (fun _ => rfl)
  · rw [if_neg inside, if_neg inside, if_neg (by omega)]

theorem toBytes_overwrite {image : Image} {offset : Nat} {data : Bytes}
    (fits : offset + data.length ≤ image.length) :
    (image.overwrite offset data).toBytes = Bytes.overwrite image.toBytes offset data := by
  apply List.ext_getElem?
  intro i
  rw [getElem?_overwrite, Bytes.getElem?_overwrite i (by rwa [length_toBytes])]
  exact ite_congr (by rw [eq_iff_iff]; omega) (fun _ => rfl) (fun _ => rfl)

/-- A patch is laid over the range that it is for. -/
theorem toBytes_lay {image : Image} {offset : Nat} {patch : Patch}
    (fits : offset + patch.width ≤ image.length) :
    (image.lay offset patch).toBytes = Bytes.overwrite image.toBytes offset patch.bytes := by
  have inside := patch.fits
  apply List.ext_getElem?
  intro i
  rw [Bytes.getElem?_overwrite i (by rwa [length_toBytes, Patch.length_bytes]), lay,
    getElem?_overwrite, getElem?_fill, Patch.length_bytes, Patch.bytes, List.getElem?_append,
    List.getElem?_replicate]
  by_cases first : offset ≤ i ∧ i < offset + patch.data.length
  · rw [if_pos ⟨first.1, first.2, by simp; omega⟩, if_pos (by omega), if_pos (by omega)]
  · rw [if_neg (by omega)]
    by_cases second : offset ≤ i ∧ i < offset + patch.width
    · rw [if_pos (by omega), if_pos second, if_neg (by omega), if_pos (by omega)]
    · rw [if_neg (by omega), if_neg second]

theorem toBytes_ofBytes (data : Bytes) : (ofBytes data).toBytes = data := by
  rw [ofBytes, toBytes_overwrite (by simp [zeros, uniform]), Bytes.overwrite]
  rw [List.take_zero, List.nil_append, List.drop_of_length_le (by simp [zeros, uniform]),
    List.append_nil]

end Image

end MappedMetrics
