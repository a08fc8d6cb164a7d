import Mathlib.Data.List.Nodup
import MappedMetrics.Event
import MappedMetrics.PhysicalUnit.Parser

namespace MappedMetrics.Proofs.UnitClassification

open MappedMetrics
open MappedMetrics.UnitTable
open MappedMetrics.Text

theorem ofName?_symbol (scale : Scale) : Scale.ofName? scale.symbol = some scale := by
  rcases scale with s | s | s <;> cases s <;> rfl

theorem symbol_injective {s t : Scale} (h : s.symbol = t.symbol) : s = t := by
  have hname : some s = some t := by rw [← ofName?_symbol s, h, ofName?_symbol]
  exact Option.some.inj hname

theorem any_symbol (scale : Scale) :
    (scale.symbol.toList.any fun c => c == '/' || c == '.') = false := by
  rcases scale with s | s | s <;> cases s <;> rfl

theorem strokeless_symbol {scale : Scale} {c : Char} (h : c ∈ scale.symbol.toList) :
    (c == '/') = false := by
  have hplain := List.any_eq_false.mp (any_symbol scale) c h
  simp only [Bool.or_eq_true, not_or, Bool.not_eq_true] at hplain
  exact hplain.1

theorem symbol_ofScale (scale : Scale) : (PhysicalUnit.ofScale scale).symbol = scale.symbol := by
  cases scale <;> rfl

theorem denominatorSymbol_ofScale (scale : Scale) :
    (PhysicalUnit.ofScale scale).denominatorSymbol = scale.symbol := by
  rw [PhysicalUnit.denominatorSymbol, symbol_ofScale, any_symbol]
  rfl

theorem symbol_ofScales (shape : Shape) (above : Scale) (below : Option Scale) :
    (UnitMapping.ofScales shape above below).unit.symbol.toList =
      above.symbol.toList ++ below.elim [] fun scale => '/' :: scale.symbol.toList := by
  cases below with
  | none => exact (congrArg String.toList (symbol_ofScale above)).trans (List.append_nil _).symm
  | some scale =>
      simp only [UnitMapping.ofScales, PhysicalUnit.per, denominatorSymbol_ofScale, symbol_ofScale]
      simp [toString]

theorem splitOnce_symbol (shape : Shape) (above : Scale) (below : Option Scale) :
    splitOnce (· == '/') (UnitMapping.ofScales shape above below).unit.symbol.toList =
      below.map fun scale => (above.symbol.toList, scale.symbol.toList) := by
  rw [symbol_ofScales]
  cases below with
  | none =>
      rw [Option.elim_none, List.append_nil]
      exact splitOnce_eq_none_iff.mpr fun c hmem => strokeless_symbol hmem
  | some scale => exact splitOnce_append_cons (fun c hmem => strokeless_symbol hmem) rfl _

theorem scales_of_symbol {shape other : Shape} {s t : Scale} {s' t' : Option Scale}
    (h : (UnitMapping.ofScales shape s s').unit.symbol =
      (UnitMapping.ofScales other t t').unit.symbol) : s = t ∧ s' = t' := by
  have hsplit := splitOnce_symbol shape s s'
  rw [h, splitOnce_symbol] at hsplit
  cases s' with
  | none =>
      cases t' with
      | none =>
          rw [UnitMapping.ofScales, UnitMapping.ofScales, symbol_ofScale, symbol_ofScale] at h
          exact ⟨symbol_injective h, rfl⟩
      | some scale => cases hsplit
  | some scale =>
      cases t' with
      | none => cases hsplit
      | some scale' =>
          obtain ⟨habove, hbelow⟩ := Prod.mk.inj (Option.some.inj hsplit)
          rw [symbol_injective (String.toList_inj.mp habove),
            symbol_injective (String.toList_inj.mp hbelow)]
          exact ⟨rfl, rfl⟩

/-- What stands below the stroke in a shape. -/
def denominators (shape : Shape) : List (Option Scale) :=
  match shape.denominator with
  | none => [none]
  | some below => below.scales.map some

theorem ofShape_eq (shape : Shape) :
    ofShape shape = shape.numerator.scales.flatMap fun above =>
      (denominators shape).map (UnitMapping.ofScales shape above) := by
  rw [ofShape, denominators]
  cases shape.denominator with
  | none => rfl
  | some below => simp only [List.map_map]; rfl

theorem nodup_scales (dimension : Dimension) : dimension.scales.Nodup := by
  cases dimension <;> decide

theorem nodup_denominators (shape : Shape) : (denominators shape).Nodup := by
  cases shape <;> decide

theorem dimension_of_mem_scales {dimension : Dimension} {scale : Scale}
    (h : scale ∈ dimension.scales) : scale.dimension = dimension := by
  cases dimension <;> obtain ⟨s, -, rfl⟩ := List.mem_map.mp h <;> rfl

theorem dimension_of_mem_denominators {shape : Shape} {below : Option Scale}
    (h : below ∈ denominators shape) : below.map Scale.dimension = shape.denominator := by
  rw [denominators] at h
  cases hshape : shape.denominator with
  | none =>
      rw [hshape] at h
      rw [List.mem_singleton.mp h]
      rfl
  | some dimension =>
      rw [hshape] at h
      obtain ⟨scale, hmem, rfl⟩ := List.mem_map.mp h
      exact congrArg some (dimension_of_mem_scales hmem)

theorem exists_of_mem_ofShape {shape : Shape} {entry : UnitMapping} (h : entry ∈ ofShape shape) :
    ∃ above below, entry = UnitMapping.ofScales shape above below ∧
      above.dimension = shape.numerator ∧ below.map Scale.dimension = shape.denominator := by
  rw [ofShape_eq] at h
  obtain ⟨above, habove, hentry⟩ := List.mem_flatMap.mp h
  obtain ⟨below, hbelow, rfl⟩ := List.mem_map.mp hentry
  exact ⟨above, below, rfl, dimension_of_mem_scales habove, dimension_of_mem_denominators hbelow⟩

theorem find?_dimensions (shape : Shape) :
    (Shape.all.find? fun other =>
      other.numerator == shape.numerator && other.denominator == shape.denominator) =
      some shape := by
  cases shape <;> rfl

theorem shape_eq_of_dimensions {shape other : Shape} (habove : shape.numerator = other.numerator)
    (hbelow : shape.denominator = other.denominator) : shape = other := by
  have hfound := find?_dimensions shape
  rw [habove, hbelow, find?_dimensions] at hfound
  exact (Option.some.inj hfound).symm

theorem distinct_ofShape (shape : Shape) :
    (ofShape shape).Pairwise fun a b => a.unit.symbol ≠ b.unit.symbol := by
  rw [ofShape_eq]
  refine List.pairwise_flatMap.mpr ⟨fun above _ => ?_, ?_⟩
  · refine List.pairwise_map.mpr ((nodup_denominators shape).imp ?_)
    intro below other hne hsame
    exact hne (scales_of_symbol hsame).2
  · refine (nodup_scales shape.numerator).imp fun hne a ha b hb => ?_
    intro hsame
    obtain ⟨below, -, rfl⟩ := List.mem_map.mp ha
    obtain ⟨below', -, rfl⟩ := List.mem_map.mp hb
    exact hne (scales_of_symbol hsame).1

theorem distinct_entries : entries.Pairwise fun a b => a.unit.symbol ≠ b.unit.symbol := by
  refine List.pairwise_flatMap.mpr ⟨fun shape _ => distinct_ofShape shape, ?_⟩
  have hshapes : Shape.all.Nodup := by decide
  refine hshapes.imp fun hne a ha b hb => ?_
  intro hsame
  obtain ⟨s, s', rfl, hs, hs'⟩ := exists_of_mem_ofShape ha
  obtain ⟨t, t', rfl, ht, ht'⟩ := exists_of_mem_ofShape hb
  obtain ⟨rfl, rfl⟩ := scales_of_symbol hsame
  exact hne (shape_eq_of_dimensions (hs.symm.trans ht) (hs'.symm.trans ht'))

theorem nodup_symbols : (entries.map fun entry => entry.unit.symbol).Nodup :=
  List.pairwise_map.mpr distinct_entries

theorem eq_of_symbol {entry other : UnitMapping} (hentry : entry ∈ entries)
    (hother : other ∈ entries) (h : entry.unit.symbol = other.unit.symbol) : entry = other :=
  List.inj_on_of_nodup_map nodup_symbols hentry hother h

theorem fields_of_beq {u v : PhysicalUnit} (h : (u == v) = true) :
    u.space = v.space ∧ u.time = v.time ∧ u.count = v.count ∧ u.symbol = v.symbol := by
  obtain ⟨space, time, count, factor, symbol⟩ := u
  obtain ⟨space', time', count', factor', symbol'⟩ := v
  simp only [BEq.beq, instBEqPhysicalUnit.beq, Bool.and_eq_true, decide_eq_true_eq] at h
  obtain ⟨hspace, htime, hcount, -, hsymbol⟩ := h
  exact ⟨hspace, htime, hcount, hsymbol⟩

theorem symbol_of_beq {u v : PhysicalUnit} (h : (u == v) = true) : u.symbol = v.symbol :=
  (fields_of_beq h).2.2.2

theorem find?_symbol {entry : UnitMapping} (hmem : entry ∈ entries) :
    (entries.find? fun other => other.unit.symbol == entry.unit.symbol) = some entry := by
  cases hfound : entries.find? fun other => other.unit.symbol == entry.unit.symbol with
  | none => exact absurd BEq.rfl (List.find?_eq_none.mp hfound entry hmem)
  | some other =>
      have hsymbol : (other.unit.symbol == entry.unit.symbol) = true :=
        (List.find?_some hfound :)
      rw [eq_of_symbol (List.mem_of_find?_eq_some hfound) hmem (eq_of_beq hsymbol)]

theorem filter_find?_of_equal {unit : PhysicalUnit} {entry : UnitMapping} (hmem : entry ∈ entries)
    (hequal : (entry.unit == unit) = true) :
    ((entries.find? fun other => other.unit.symbol == unit.symbol).filter fun other =>
      other.unit == unit) = some entry := by
  rw [← symbol_of_beq hequal, find?_symbol hmem]
  exact Option.filter_some_pos hequal

theorem filter_find?_symbol (unit : PhysicalUnit) :
    ((entries.find? fun entry => entry.unit.symbol == unit.symbol).filter fun entry =>
      entry.unit == unit) = entries.find? fun entry => entry.unit == unit := by
  cases hequal : entries.find? fun entry => entry.unit == unit with
  | some entry =>
      exact filter_find?_of_equal (List.mem_of_find?_eq_some hequal) (List.find?_some hequal :)
  | none =>
      refine Option.filter_eq_none_iff.mpr fun entry hfound => ?_
      exact List.find?_eq_none.mp hequal entry (List.mem_of_find?_eq_some hfound)

/-- The first entry that equals a unit, else the first that is equivalent to it. -/
def search (unit : PhysicalUnit) : Classification :=
  match entries.find? fun entry => entry.unit == unit with
  | some entry => .exact entry
  | none =>
      match entries.find? fun entry => entry.unit.isEquivalent unit with
      | some entry => .equivalent entry
      | none => .fallback

theorem classify_eq_search (unit : PhysicalUnit) : unit.classify = search unit := by
  have hindex := filter_find?_symbol unit
  cases hequal : entries.find? fun entry => entry.unit == unit with
  | some entry => rw [PhysicalUnit.classify, hindex, search, hequal]
  | none =>
      cases hequivalent : entries.find? fun entry => entry.unit.isEquivalent unit with
      | some entry => rw [PhysicalUnit.classify, hindex, search, hequal, hequivalent]
      | none => rw [PhysicalUnit.classify, hindex, search, hequal, hequivalent]

/-- The entry of the least index that has a property. -/
def First (p : UnitMapping → Bool) (entry : UnitMapping) : Prop :=
  ∃ index : Nat, entries[index]? = some entry ∧ p entry = true ∧
    ∀ earlier < index, ∀ other, entries[earlier]? = some other → p other = false

theorem find?_of_first {p : UnitMapping → Bool} {entry : UnitMapping} (h : First p entry) :
    entries.find? p = some entry := by
  obtain ⟨index, hentry, hp, hearlier⟩ := h
  obtain ⟨hindex, hget⟩ := List.getElem?_eq_some_iff.mp hentry
  refine List.find?_eq_some_iff_getElem.mpr ⟨hp, index, hindex, hget, fun earlier hlt => ?_⟩
  rw [hearlier earlier hlt _ (List.getElem?_eq_getElem (Nat.lt_trans hlt hindex))]
  rfl

/-- No entry has a property. -/
def Lacks (p : UnitMapping → Bool) : Prop :=
  ∀ entry ∈ entries, p entry = false

theorem lacks_iff {p : UnitMapping → Bool} : Lacks p ↔ entries.find? p = none := by
  simp only [Lacks, List.find?_eq_none, Bool.not_eq_true]

theorem find?_of_equal {unit : PhysicalUnit} {entry : UnitMapping} (hmem : entry ∈ entries)
    (hequal : (entry.unit == unit) = true) :
    (entries.find? fun other => other.unit == unit) = some entry := by
  rw [← filter_find?_symbol, filter_find?_of_equal hmem hequal]

theorem first_plainCount :
    First (fun entry => entry.shape == .count && entry.numerator == .count .one) plainCount := by
  have hearlier : ∀ earlier < 13, (entries[earlier]?.any fun entry =>
      entry.shape == .count && entry.numerator == .count .one) = false := by decide
  refine ⟨13, rfl, rfl, fun earlier hlt other hother => ?_⟩
  have hfails := hearlier earlier hlt
  rw [hother] at hfails
  exact hfails

section Outcomes

variable {unit : PhysicalUnit}

theorem classify_of_equal {entry : UnitMapping} (hmem : entry ∈ entries)
    (hequal : (entry.unit == unit) = true) : unit.classify = .exact entry := by
  rw [classify_eq_search, search, find?_of_equal hmem hequal]

theorem classify_of_first {entry : UnitMapping}
    (hunequal : Lacks fun other => other.unit == unit)
    (hfirst : First (fun other => other.unit.isEquivalent unit) entry) :
    unit.classify = .equivalent entry := by
  rw [classify_eq_search, search, lacks_iff.mp hunequal, find?_of_first hfirst]

theorem classify_eq_fallback_iff : unit.classify = .fallback ↔
    Lacks (fun entry => entry.unit == unit) ∧ Lacks fun entry => entry.unit.isEquivalent unit := by
  rw [classify_eq_search, search, lacks_iff, lacks_iff]
  cases entries.find? fun entry => entry.unit == unit with
  | some entry => simp
  | none => cases entries.find? fun entry => entry.unit.isEquivalent unit <;> simp

/-- Short of the fallback, the answer is an entry that equals the unit or measures the same. -/
theorem agrees_of_classify (h : unit.classify ≠ .fallback) :
    unit.classify.mapping ∈ entries ∧ ((unit.classify.mapping.unit == unit) = true ∨
      unit.classify.mapping.unit.isEquivalent unit = true) := by
  rw [classify_eq_search, search] at h ⊢
  cases hequal : entries.find? fun entry => entry.unit == unit with
  | some entry => exact ⟨List.mem_of_find?_eq_some hequal, .inl (List.find?_some hequal :)⟩
  | none =>
      rw [hequal] at h
      cases hequivalent : entries.find? fun entry => entry.unit.isEquivalent unit with
      | some entry =>
          exact ⟨List.mem_of_find?_eq_some hequivalent, .inr (List.find?_some hequivalent :)⟩
      | none =>
          rw [hequivalent] at h
          exact absurd rfl h

theorem unmapped_mem_iff :
    .unmappedUnit unit.symbol ∈ unit.classificationEvents ↔ unit.classify = .fallback := by
  rw [PhysicalUnit.classificationEvents]
  cases unit.classify <;> simp

end Outcomes

/-- What a unit is classified as, and what is reported of it. -/
structure SearchedPlainly (unit : PhysicalUnit) : Prop where
  /-- An entry that equals the unit is the answer, wherever it stands. -/
  equal : ∀ entry ∈ entries, (entry.unit == unit) = true →
    unit.classify.mapping = entry ∧ unit.classificationEvents = []
  equivalent : (Lacks fun entry => entry.unit == unit) →
    ∀ entry, First (fun other => other.unit.isEquivalent unit) entry →
      unit.classify.mapping = entry ∧
        unit.classificationEvents = [.mappedUnit unit.symbol entry.unit.symbol]
  neither : (Lacks fun entry => entry.unit == unit) →
    (Lacks fun entry => entry.unit.isEquivalent unit) →
      unit.classify.mapping = plainCount ∧
        unit.classificationEvents = [.unmappedUnit unit.symbol]
  /-- The warning tells that there is neither. -/
  warned : .unmappedUnit unit.symbol ∈ unit.classificationEvents ↔
    (Lacks fun entry => entry.unit == unit) ∧ Lacks fun entry => entry.unit.isEquivalent unit
  /-- The index by symbols hides no entry. -/
  symbols : (entries.map fun entry => entry.unit.symbol).Nodup
  plain : First (fun entry => entry.shape == .count && entry.numerator == .count .one) plainCount

/-- The classification by the two indexes is a plain search of the table: an entry that equals the
unit, else the first that is equivalent to it, else the fallback with a warning. -/
theorem searchedPlainly (unit : PhysicalUnit) : SearchedPlainly unit := by
  refine
    { equal := fun entry hmem hequal => ?_
      equivalent := fun hunequal entry hfirst => ?_
      neither := fun hunequal hinequivalent => ?_
      warned := unmapped_mem_iff.trans classify_eq_fallback_iff
      symbols := nodup_symbols
      plain := first_plainCount }
  · rw [PhysicalUnit.classificationEvents, classify_of_equal hmem hequal]
    exact ⟨rfl, rfl⟩
  · rw [PhysicalUnit.classificationEvents, classify_of_first hunequal hfirst]
    exact ⟨rfl, rfl⟩
  · rw [PhysicalUnit.classificationEvents,
      classify_eq_fallback_iff.mpr ⟨hunequal, hinequivalent⟩]
    exact ⟨rfl, rfl⟩

end MappedMetrics.Proofs.UnitClassification
