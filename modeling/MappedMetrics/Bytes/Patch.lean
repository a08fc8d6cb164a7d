import MappedMetrics.Bytes

namespace MappedMetrics

/-- Bytes for a range of `width` bytes; the filler stands in what they leave of the range. -/
structure Patch where
  data : Bytes
  filler : UInt8
  width : Nat
  fits : data.length ≤ width := by omega

namespace Patch

def bytes (patch : Patch) : Bytes :=
  patch.data ++ List.replicate (patch.width - patch.data.length) patch.filler

/-- A patch that is as wide as its bytes. -/
def ofBytes (data : Bytes) : Patch where
  data := data
  filler := 0
  width := data.length
  fits := Nat.le_refl _

def uniform (width : Nat) (byte : UInt8) : Patch where
  data := []
  filler := byte
  width := width
  fits := Nat.zero_le _

@[simp] theorem length_bytes (patch : Patch) : patch.bytes.length = patch.width := by
  rw [bytes, List.length_append, List.length_replicate, Nat.add_sub_cancel' patch.fits]

@[simp] theorem bytes_ofBytes (data : Bytes) : (ofBytes data).bytes = data := by
  simp [bytes, ofBytes]

theorem bytes_mk (data : Bytes) (filler : UInt8) (width : Nat) (fits : data.length ≤ width) :
    (Patch.mk data filler width fits).bytes =
      data ++ List.replicate (width - data.length) filler := rfl

end Patch

end MappedMetrics
