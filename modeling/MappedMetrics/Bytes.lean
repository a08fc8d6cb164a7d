namespace MappedMetrics

-- Powers are those of the numbers, also where the powers of monoids are in scope.
attribute [instance (1100), default_instance 10001] instPowNat

/-- A run of bytes, first byte first. -/
abbrev Bytes := List UInt8

namespace Bytes

/-- The `width` low bytes of a number, least significant first. -/
def ofNat : Nat → Nat → Bytes
  | 0, _ => []
  | width + 1, n => UInt8.ofNat (n % 256) :: ofNat width (n / 256)

/-- The number that a run of bytes stands for, least significant byte first. -/
def toNat : Bytes → Nat
  | [] => 0
  | byte :: rest => byte.toNat + 256 * toNat rest

/-- The `length` bytes from `offset` on, fewer where the run ends earlier. -/
def slice (bytes : Bytes) (offset length : Nat) : Bytes :=
  (bytes.drop offset).take length

/-- Lays `patch` over the bytes from `offset` on. -/
def overwrite (bytes : Bytes) (offset : Nat) (patch : Bytes) : Bytes :=
  bytes.take offset ++ (patch ++ bytes.drop (offset + patch.length))

@[simp] theorem length_ofNat (width n : Nat) : (ofNat width n).length = width := by
  induction width generalizing n with
  | zero => rfl
  | succ width ih => simp [ofNat, ih]

theorem toNat_ofNat (width n : Nat) : toNat (ofNat width n) = n % 256 ^ width := by
  induction width generalizing n with
  | zero => simp [ofNat, toNat, Nat.mod_one]
  | succ width ih =>
      have low : (UInt8.ofNat (n % 256)).toNat = n % 256 := by simp
      rw [ofNat, toNat, ih, low, Nat.pow_succ, Nat.mul_comm (256 ^ width), Nat.mod_mul]

theorem length_overwrite {bytes patch : Bytes} {offset : Nat}
    (fits : offset + patch.length ≤ bytes.length) :
    (overwrite bytes offset patch).length = bytes.length := by
  simp only [overwrite, List.length_append, List.length_take, List.length_drop]
  omega

/-- A byte of the range comes from the patch, and any other keeps its value. -/
theorem getElem?_overwrite {bytes patch : Bytes} {offset : Nat} (i : Nat)
    (fits : offset + patch.length ≤ bytes.length) :
    (overwrite bytes offset patch)[i]? =
      if offset ≤ i ∧ i < offset + patch.length then patch[i - offset]? else bytes[i]? := by
  have before : (bytes.take offset).length = offset := by
    rw [List.length_take]
    omega
  rw [overwrite, List.getElem?_append, List.getElem?_append, before, List.getElem?_drop]
  split
  · rw [if_neg (by omega), List.getElem?_take_of_lt ‹_›]
  · split
    · rw [if_pos (by omega)]
    · rw [if_neg (by omega)]
      congr 1
      omega

theorem getElem?_overwrite_of_not_mem {bytes patch : Bytes} {offset i : Nat}
    (fits : offset + patch.length ≤ bytes.length)
    (outside : i < offset ∨ offset + patch.length ≤ i) :
    (overwrite bytes offset patch)[i]? = bytes[i]? := by
  rw [getElem?_overwrite i fits, if_neg (by omega)]

/-- What was laid over a range is read back from it. -/
theorem slice_overwrite {bytes patch : Bytes} {offset : Nat}
    (fits : offset + patch.length ≤ bytes.length) :
    slice (overwrite bytes offset patch) offset patch.length = patch := by
  have before : (bytes.take offset).length = offset := by
    rw [List.length_take]
    omega
  simp only [slice, overwrite]
  rw [List.drop_append_of_le_length (by omega), List.drop_eq_nil_of_le (by omega),
    List.nil_append, List.take_append_of_le_length (by omega), List.take_length]

end Bytes

end MappedMetrics
