/-!
Blank characters in the sense of the Unicode property White_Space, and cutting of text at them
or at a separator.
-/

namespace MappedMetrics.Text

/-- The characters with the property White_Space. -/
def isBlank (c : Char) : Bool :=
  (0x09 ≤ c.toNat && c.toNat ≤ 0x0D) || c.toNat == 0x20 || c.toNat == 0x85 || c.toNat == 0xA0 ||
    c.toNat == 0x1680 || (0x2000 ≤ c.toNat && c.toNat ≤ 0x200A) || c.toNat == 0x2028 ||
    c.toNat == 0x2029 || c.toNat == 0x202F || c.toNat == 0x205F || c.toNat == 0x3000

theorem isBlank_of_isWhitespace {c : Char} (h : c.isWhitespace = true) : isBlank c = true := by
  simp only [Char.isWhitespace, Bool.or_eq_true, decide_eq_true_eq] at h
  rcases h with ((rfl | rfl) | rfl) | rfl <;> rfl

def trim (text : List Char) : List Char :=
  ((text.dropWhile isBlank).reverse.dropWhile isBlank).reverse

/-- The text before the first separator and the text after it. -/
def splitOnce (isSeparator : Char → Bool) : List Char → Option (List Char × List Char)
  | [] => none
  | c :: rest =>
      if isSeparator c then some ([], rest)
      else (splitOnce isSeparator rest).map fun parts => (c :: parts.1, parts.2)

theorem splitOnce_eq_none_iff {isSeparator : Char → Bool} {text : List Char} :
    splitOnce isSeparator text = none ↔ ∀ c ∈ text, isSeparator c = false := by
  induction text with
  | nil => simp [splitOnce]
  | cons c rest ih =>
      rw [splitOnce]
      split <;> simp_all

theorem splitOnce_append_cons {isSeparator : Char → Bool} {before : List Char} {c : Char}
    (hbefore : ∀ other ∈ before, isSeparator other = false) (hc : isSeparator c = true)
    (rest : List Char) : splitOnce isSeparator (before ++ c :: rest) = some (before, rest) := by
  induction before with
  | nil => rw [List.nil_append, splitOnce, if_pos hc]
  | cons first before ih =>
      have hfirst := hbefore first List.mem_cons_self
      rw [List.cons_append, splitOnce, if_neg (by rw [hfirst]; decide),
        ih fun other hmem => hbefore other (List.mem_cons_of_mem _ hmem)]
      rfl

end MappedMetrics.Text
