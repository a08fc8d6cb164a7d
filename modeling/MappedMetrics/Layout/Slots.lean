namespace MappedMetrics.Layout

/-- The alignment of a slot that holds a value of eight bytes. -/
def wideAlign : UInt64 := 8

/-- The alignment of all other slots. -/
def narrowAlign : UInt64 := 4

/-- The alignment of a slot of a given width. -/
def alignmentFor (width : UInt64) : UInt64 :=
  if width = 8 then wideAlign else narrowAlign

/-- An offset rounded up to a multiple of a power of two, by clearing the low bits. -/
def alignUp (offset align : UInt64) : UInt64 :=
  (offset + align - 1) &&& ~~~(align - 1)

/-- A sum, absent where it leaves the word. -/
def add? (a b : UInt64) : Option UInt64 :=
  if a.toNat + b.toNat < 2 ^ 64 then some (a + b) else none

/-- An offset rounded up, absent where the sum in between leaves the word. -/
def alignUp? (offset align : UInt64) : Option UInt64 :=
  if align = 0 then none
  else (add? offset align).map fun _ => alignUp offset align

/-- The offsets of slots, given as widths with alignments, and the first byte past the last one;
absent where a sum leaves the word. -/
def packSlots? (start : UInt64) : List (UInt64 × UInt64) → Option (List UInt64 × UInt64)
  | [] => some ([], start)
  | (width, align) :: rest => do
      let offset ← alignUp? start align
      let next ← add? offset width
      let (offsets, finish) ← packSlots? next rest
      some (offset :: offsets, finish)

theorem toNat_of_add? {a b c : UInt64} (h : add? a b = some c) : c.toNat = a.toNat + b.toNat := by
  rw [add?] at h
  split at h
  · cases h
    rw [UInt64.toNat_add, Nat.mod_eq_of_lt]
    assumption
  · cases h

theorem length_of_packSlots? {start finish : UInt64} {slots : List (UInt64 × UInt64)}
    {offsets : List UInt64} (h : packSlots? start slots = some (offsets, finish)) :
    offsets.length = slots.length := by
  induction slots generalizing start offsets with
  | nil =>
      cases h
      rfl
  | cons slot rest ih =>
      obtain ⟨width, align⟩ := slot
      simp only [packSlots?, Option.bind_eq_bind, Option.bind_eq_some_iff] at h
      obtain ⟨offset, _, next, _, ⟨later, last⟩, packed, h⟩ := h
      cases h
      rw [List.length_cons, List.length_cons, ih packed]

end MappedMetrics.Layout
