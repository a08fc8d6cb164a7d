import MappedMetrics.Bytes

namespace MappedMetrics.Text

def utf8 (text : String) : Bytes :=
  text.toList.flatMap String.utf8EncodeChar

/-- The longest run of whole characters whose UTF-8 form has at most `limit` bytes. -/
def fitting (limit : Nat) : List Char → List Char
  | [] => []
  | c :: rest =>
      if c.utf8Size ≤ limit then c :: fitting (limit - c.utf8Size) rest else []

theorem fitting_prefix (limit : Nat) (text : List Char) : fitting limit text <+: text := by
  induction text generalizing limit with
  | nil => exact List.prefix_rfl
  | cons c rest ih =>
      rw [fitting]
      split
      · exact (List.prefix_cons_inj c).mpr (ih _)
      · exact List.nil_prefix

theorem length_fitting_le (limit : Nat) (text : List Char) :
    ((fitting limit text).flatMap String.utf8EncodeChar).length ≤ limit := by
  induction text generalizing limit with
  | nil => exact Nat.zero_le limit
  | cons c rest ih =>
      rw [fitting]
      split
      · have later := ih (limit - c.utf8Size)
        rw [List.flatMap_cons, List.length_append, String.length_utf8EncodeChar]
        omega
      · exact Nat.zero_le limit

/-- Every character has a byte, so no more characters fit than bytes. -/
theorem fitting_take (limit : Nat) (text : List Char) :
    fitting limit (text.take limit) = fitting limit text := by
  suffices general : ∀ count, limit ≤ count →
      fitting limit (text.take count) = fitting limit text from general limit (Nat.le_refl _)
  intro count enough
  induction text generalizing limit count with
  | nil => rw [List.take_nil]
  | cons c rest ih =>
      have positive := c.utf8Size_pos
      cases count with
      | zero => rw [List.take_zero, fitting, fitting, if_neg (by omega)]
      | succ count =>
          rw [List.take_succ_cons, fitting, fitting]
          split
          · rw [ih (limit - c.utf8Size) count (by omega)]
          · rfl

/-- The text of UTF-8 bytes, if they are well formed. -/
def ofUtf8? (bytes : Bytes) : Option String :=
  String.fromUTF8? bytes.toByteArray

/-- The UTF-8 form of a text stands for the text. -/
theorem ofUtf8?_utf8 (text : String) : ofUtf8? (utf8 text) = some text := by
  have encoded : (utf8 text).toByteArray = text.toByteArray := String.utf8Encode_toList
  rw [ofUtf8?, encoded, String.fromUTF8?, dif_pos text.isValidUTF8]
  rfl

/-- Only the character NUL has a byte of zero. -/
theorem eq_nul_of_mem {c : Char} (h : 0 ∈ String.utf8EncodeChar c) : c = '\x00' := by
  have positive : ∀ n : Nat, n < 256 → 0 = UInt8.ofNat n → n = 0 := by
    intro n bound zero
    have value := congrArg UInt8.toNat zero
    rw [UInt8.toNat_ofNat_of_lt' bound] at value
    exact value.symm
  simp only [String.utf8EncodeChar] at h
  split at h
  · rename_i low
    have zero := positive _ (by omega) (List.mem_singleton.mp h)
    exact Char.ext (UInt32.toNat_inj.mp zero)
  · have marked : ∃ n, 0 < n ∧ n < 256 ∧ 0 = UInt8.ofNat n := by
      split at h
      · rcases List.mem_cons.mp h with h | h
        · exact ⟨_, by omega, by omega, h⟩
        · exact ⟨_, by omega, by omega, List.mem_singleton.mp h⟩
      · split at h <;> simp only [List.mem_cons, List.not_mem_nil, or_false] at h
        · rcases h with h | h | h <;> exact ⟨_, by omega, by omega, h⟩
        · rcases h with h | h | h | h <;> exact ⟨_, by omega, by omega, h⟩
    obtain ⟨n, least, bound, zero⟩ := marked
    exact absurd (positive n bound zero) (Nat.ne_of_gt least)

theorem zero_not_mem_utf8 {text : String} (h : '\x00' ∉ text.toList) : 0 ∉ utf8 text := by
  intro zero
  obtain ⟨c, present, byte⟩ := List.mem_flatMap.mp zero
  exact h (eq_nul_of_mem byte ▸ present)

end MappedMetrics.Text
