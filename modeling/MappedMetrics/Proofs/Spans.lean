namespace MappedMetrics.Proofs.Spans

structure Span where
  start : Nat
  length : Nat
deriving DecidableEq, Repr

namespace Span

/-- The first offset after a span. -/
def finish (span : Span) : Nat :=
  span.start + span.length

def Holds (span : Span) (i : Nat) : Prop :=
  span.start ≤ i ∧ i < span.finish

def Within (inner outer : Span) : Prop :=
  outer.start ≤ inner.start ∧ inner.finish ≤ outer.finish

/-- One of two spans ends before the other begins. -/
def Apart (first second : Span) : Prop :=
  first.finish ≤ second.start ∨ second.finish ≤ first.start

theorem Within.refl (span : Span) : span.Within span :=
  ⟨Nat.le_refl _, Nat.le_refl _⟩

theorem Within.trans {inner middle outer : Span} (hinner : inner.Within middle)
    (hmiddle : middle.Within outer) : inner.Within outer :=
  ⟨Nat.le_trans hmiddle.1 hinner.1, Nat.le_trans hinner.2 hmiddle.2⟩

theorem Within.holds {inner outer : Span} {i : Nat} (hwithin : inner.Within outer)
    (hholds : inner.Holds i) : outer.Holds i :=
  ⟨Nat.le_trans hwithin.1 hholds.1, Nat.lt_of_lt_of_le hholds.2 hwithin.2⟩

theorem Apart.symm {first second : Span} (hapart : first.Apart second) : second.Apart first :=
  Or.symm hapart

theorem Apart.mono {first second inner other : Span} (hapart : first.Apart second)
    (hfirst : inner.Within first) (hsecond : other.Within second) : inner.Apart other := by
  rcases hapart with hbefore | hafter
  · exact .inl (Nat.le_trans hfirst.2 (Nat.le_trans hbefore hsecond.1))
  · exact .inr (Nat.le_trans hsecond.2 (Nat.le_trans hafter hfirst.1))

theorem Apart.not_holds {first second : Span} {i : Nat} (hapart : first.Apart second)
    (hholds : first.Holds i) : ¬ second.Holds i := by
  rintro ⟨hstart, hfinish⟩
  obtain ⟨hfrom, hto⟩ := hholds
  rcases hapart with hbefore | hafter <;> omega

end Span

theorem eq_or_of_pairwise {α : Type} {related : α → α → Prop} {entries : List α}
    (hsymm : ∀ a b, related a b → related b a) (hentries : entries.Pairwise related) :
    ∀ ⦃first⦄, first ∈ entries → ∀ ⦃second⦄, second ∈ entries →
      first = second ∨ related first second := by
  refine List.Pairwise.forall_of_forall_of_flip ?_ ?_ ?_
  · exact fun entry _ => .inl rfl
  · exact hentries.imp .inr
  · exact hentries.imp fun hrelated => .inr (hsymm _ _ hrelated)

/-- Spans that follow each other from one offset on and end by another one. -/
def Stacked : Nat → List Span → Nat → Prop
  | first, [], last => first ≤ last
  | first, span :: spans, last => first ≤ span.start ∧ Stacked span.finish spans last

namespace Stacked

variable {first middle last : Nat} {spans later : List Span}

theorem le (hstacked : Stacked first spans last) : first ≤ last := by
  induction spans generalizing first with
  | nil => exact hstacked
  | cons span spans ih =>
      have hspan : span.start ≤ span.finish := Nat.le_add_right _ _
      exact Nat.le_trans hstacked.1 (Nat.le_trans hspan (ih hstacked.2))

theorem mono {start : Nat} (hstart : start ≤ first) (hstacked : Stacked first spans last) :
    Stacked start spans last := by
  cases spans with
  | nil => exact Nat.le_trans hstart hstacked
  | cons span spans => exact ⟨Nat.le_trans hstart hstacked.1, hstacked.2⟩

theorem append (hfirst : Stacked first spans middle) (hlast : Stacked middle later last) :
    Stacked first (spans ++ later) last := by
  induction spans generalizing first with
  | nil =>
      cases later with
      | nil => exact Nat.le_trans hfirst hlast
      | cons span later => exact ⟨Nat.le_trans hfirst hlast.1, hlast.2⟩
  | cons span spans ih => exact ⟨hfirst.1, ih hfirst.2⟩

theorem mem_bounds (hstacked : Stacked first spans last) {span : Span} (hmem : span ∈ spans) :
    first ≤ span.start ∧ span.finish ≤ last := by
  induction spans generalizing first with
  | nil => cases hmem
  | cons head spans ih =>
      rcases List.mem_cons.mp hmem with rfl | hmem
      · exact ⟨hstacked.1, hstacked.2.le⟩
      · obtain ⟨hstart, hfinish⟩ := ih hstacked.2 hmem
        have hhead : head.start ≤ head.finish := Nat.le_add_right _ _
        exact ⟨Nat.le_trans hstacked.1 (Nat.le_trans hhead hstart), hfinish⟩

theorem pairwise (hstacked : Stacked first spans last) : spans.Pairwise Span.Apart := by
  induction spans generalizing first with
  | nil => exact .nil
  | cons span spans ih =>
      refine .cons ?_ (ih hstacked.2)
      intro other hmem
      exact .inl (hstacked.2.mem_bounds hmem).1

theorem ordered (hstacked : Stacked first spans last) :
    spans.Pairwise fun a b => a.start ≤ b.start := by
  induction spans generalizing first with
  | nil => exact .nil
  | cons span spans ih =>
      refine .cons ?_ (ih hstacked.2)
      intro other hmem
      exact Nat.le_trans (Nat.le_add_right _ _) (hstacked.2.mem_bounds hmem).1

end Stacked

end MappedMetrics.Proofs.Spans
