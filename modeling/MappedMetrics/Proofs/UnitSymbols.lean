import MappedMetrics.Proofs.UnitGrammar

namespace MappedMetrics.Proofs.UnitSymbols

open MappedMetrics
open MappedMetrics.Decimal
open MappedMetrics.Text
open MappedMetrics.Proofs.BinaryRounding
open MappedMetrics.Proofs.DoubleArithmetic
open MappedMetrics.Proofs.MultiplierTexts
open MappedMetrics.Proofs.UnitClassification
open MappedMetrics.Proofs.UnitExponents
open MappedMetrics.Proofs.UnitGrammar
open Float.Model
open Float.Model.UnpackedFloat

section Symbols

variable {text : List Char} {expression : Expression} {k : Float} {c : Char}

theorem trimmed_self (h : ∀ c ∈ text, isBlank c = false) : Trimmed text text where
  padded := ⟨[], [], by simp, by simp, by simp⟩
  head c hhead := h c (List.mem_of_mem_head? hhead)
  last c hlast := h c (List.mem_of_mem_getLast? hlast)

theorem names_symbol (scale : Scale) : Names scale.symbol.toList scale :=
  .inl String.ofList_toList

theorem all_symbol (scale : Scale) : (scale.symbol.toList.all fun c => !isBlank c) = true := by
  rcases scale with s | s | s <;> cases s <;> rfl

theorem unblank_symbol {scale : Scale} (hmem : c ∈ scale.symbol.toList) : isBlank c = false := by
  simpa using List.all_eq_true.mp (all_symbol scale) c hmem

theorem unblank_of_isPlain (hc : isPlain c = true) : isBlank c = false ∧ separates c = false := by
  rw [isPlain, Bool.or_eq_true, beq_iff_eq, JsonNumbers.isDigit_eq, Char.isDigit_iff_toNat] at hc
  rcases hc with ⟨hlow, hhigh⟩ | rfl
  · have hlow' : 48 ≤ c.toNat := hlow
    have hhigh' : c.toNat ≤ 57 := hhigh
    have hother : ∀ other : Char, 57 < other.toNat ∨ other.toNat < 48 → (c == other) = false := by
      intro other hfar
      refine beq_false_of_ne ?_
      rintro rfl
      omega
    refine ⟨?_, ?_⟩
    · simp only [isBlank, Bool.or_eq_false_iff, Bool.and_eq_false_imp, decide_eq_true_eq,
        decide_eq_false_iff_not, beq_eq_false_iff_ne]
      omega
    · rw [separates, isMark, hother '*' (by decide), hother '·' (by decide),
        hother '/' (by decide)]
      rfl
  · decide

theorem unblank_multiplierText (hk : Multiplies text k)
    (hmem : c ∈ (PhysicalUnit.multiplierText k).toList) :
    isBlank c = false ∧ separates c = false := by
  obtain ⟨bits, -, hpos, hfinite, rfl⟩ := hk
  have hplain := isPlain_of_mem_multiplierText (c := c) hpos hfinite
  rw [double, UInt64.ofNat_toNat] at hplain
  exact unblank_of_isPlain (hplain hmem)

theorem multiplies_multiplierText (hk : Multiplies text k) :
    Multiplies (PhysicalUnit.multiplierText k).toList k := by
  obtain ⟨bits, -, hpos, hfinite, rfl⟩ := hk
  refine ⟨bits, ?_, hpos, hfinite, rfl⟩
  have hread := double?_multiplierText hpos hfinite
  rwa [double, UInt64.ofNat_toNat] at hread

/-- The canonical text of a term. -/
def termText (k : Option Float) (scale : Scale) : List Char :=
  k.elim scale.symbol.toList fun k =>
    (PhysicalUnit.multiplierText k).toList ++ '*' :: scale.symbol.toList

theorem toList_symbol (expression : Expression) : expression.symbol.toList =
    termText expression.multiplier expression.above ++
      expression.below.elim [] fun scale => '/' :: scale.symbol.toList := by
  obtain ⟨k, above, below⟩ := expression
  cases k <;> cases below <;> simp [Expression.symbol, termText]

theorem term_termText {k : Option Float} {scale : Scale} (h : Term text k scale) :
    Term (termText k scale) k scale := by
  cases h with
  | name hname => exact .name (names_symbol scale)
  | multiple hleft hmark hnumber hk hright hname =>
      exact .multiple
        (fun c hmem => (Bool.or_eq_false_iff.mp (unblank_multiplierText hk hmem).2).1) rfl
        (trimmed_self fun c hmem => (unblank_multiplierText hk hmem).1)
        (multiplies_multiplierText hk) (trimmed_self fun c hmem => unblank_symbol hmem)
        (names_symbol scale)

theorem unblank_termText {k : Option Float} {scale : Scale} (h : Term text k scale)
    (hmem : c ∈ termText k scale) : isBlank c = false ∧ (c == '/') = false := by
  have hsymbol : c ∈ scale.symbol.toList → isBlank c = false ∧ (c == '/') = false := fun hmem =>
    ⟨unblank_symbol hmem, strokeless_symbol hmem⟩
  cases h with
  | name hname => exact hsymbol hmem
  | multiple hleft hmark hnumber hk hright hname =>
      rcases List.mem_append.mp hmem with hnumber | hrest
      · obtain ⟨hblank, hseparates⟩ := unblank_multiplierText hk hnumber
        exact ⟨hblank, (Bool.or_eq_false_iff.mp hseparates).2⟩
      · rcases List.mem_cons.mp hrest with rfl | hmem
        · decide
        · exact hsymbol hmem

theorem spells_symbol (h : Spells text expression) :
    Spells expression.symbol.toList expression := by
  rw [toList_symbol]
  cases h with
  | term _ hterm =>
      rw [Option.elim_none, List.append_nil]
      exact .term (not_mem_iff.mpr fun c hmem => (unblank_termText hterm hmem).2)
        (term_termText hterm)
  | quotient _ _ _ hterm _ hname =>
      exact .quotient (not_mem_iff.mpr fun c hmem => (unblank_termText hterm hmem).2)
        (not_mem_iff.mpr fun c hmem => strokeless_symbol hmem)
        (trimmed_self fun c hmem => (unblank_termText hterm hmem).1) (term_termText hterm)
        (trimmed_self fun c hmem => unblank_symbol hmem) (names_symbol _)

theorem unblank_of_spells (h : Spells text expression) (hmem : c ∈ expression.symbol.toList) :
    isBlank c = false := by
  rw [toList_symbol] at hmem
  cases h with
  | term _ hterm =>
      rw [Option.elim_none, List.append_nil] at hmem
      exact (unblank_termText hterm hmem).1
  | quotient _ _ _ hterm _ hname =>
      rcases List.mem_append.mp hmem with hmem | hrest
      · exact (unblank_termText hterm hmem).1
      · rcases List.mem_cons.mp hrest with rfl | hmem
        · decide
        · exact unblank_symbol hmem

/-- The canonical symbol of an expression is one of its texts. -/
theorem written_symbol {text : String} (h : Written text expression) :
    Written expression.symbol expression := by
  obtain ⟨body, -, hspells⟩ := h
  exact ⟨_, trimmed_self fun c hmem => unblank_of_spells hspells hmem, spells_symbol hspells⟩

end Symbols

section Factors

variable {code a b : Nat} {k : Float} {text : List Char}

theorem beq_double_self (hcode : code ≤ binary64.infinityCode) :
    (double code == double code) = true := by
  have hbeq : (double code == double code) =
      ((double code).toModel.unpack.compare (double code).toModel.unpack == some .eq) := rfl
  rw [hbeq, unpack_double hcode, unpacked]
  split
  · rfl
  · split
    · simp [UnpackedFloat.compare]
    · rfl

theorem div_infinity (hbpos : 0 < b) (hb : b < binary64.infinityCode) :
    double binary64.infinityCode / double b = double binary64.infinityCode := by
  have hdiv : double binary64.infinityCode / double b = Float.ofModel (Float.Model.pack
      (UnpackedFloat.div Format.binary64 (double binary64.infinityCode).toModel.unpack
        (double b).toModel.unpack)) := rfl
  obtain ⟨n, q, hn, hunpacked, -, -⟩ := exists_unpacked hbpos hb
  rw [hdiv, unpack_double le_rfl, unpack_double hb.le, hunpacked]
  exact ofModel_pack le_rfl rfl

theorem div_eq_double (ha : a ≤ binary64.infinityCode) (hbpos : 0 < b)
    (hb : b < binary64.infinityCode) :
    ∃ code, code ≤ binary64.infinityCode ∧ double a / double b = double code := by
  rcases ha.lt_or_eq with hfinite | rfl
  · exact ⟨_, nearest_le_infinityCode _, div_double hfinite hbpos hb⟩
  · exact ⟨_, le_rfl, div_infinity hbpos hb⟩

theorem factor_eq_double (scale : Scale) : ∃ code, 0 < code ∧ code < binary64.infinityCode ∧
    scale.factor = double code := by
  refine ⟨scale.factor.toBits.toNat, ?_⟩
  rcases scale with s | s | s <;> cases s <;> decide +kernel

theorem factor_termUnit_eq_double {scale : Scale} {k : Option Float} (h : Term text k scale) :
    ∃ code, code ≤ binary64.infinityCode ∧ (termUnit k scale).factor = double code := by
  rw [factor_termUnit]
  obtain ⟨a, -, ha, hfactor⟩ := factor_eq_double scale
  cases h with
  | name hname => exact ⟨a, ha.le, hfactor⟩
  | multiple hleft hmark hnumber hk hright hname =>
      obtain ⟨bits, -, -, hfinite, rfl⟩ := hk
      have hk : Float.ofBits bits = double bits.toNat := by rw [double, UInt64.ofNat_toNat]
      rw [Option.elim_some, hfactor, hk, mul_double ha hfinite]
      exact ⟨_, nearest_le_infinityCode _, rfl⟩

theorem beq_factor_of_spells {expression : Expression} (h : Spells text expression) :
    (expression.unit.factor == expression.unit.factor) = true := by
  obtain ⟨code, hcode, hfactor⟩ :
      ∃ code, code ≤ binary64.infinityCode ∧ expression.unit.factor = double code := by
    cases h with
    | term _ hterm => exact factor_termUnit_eq_double hterm
    | @quotient _ _ _ _ _ _ below _ _ _ hterm _ hname =>
        obtain ⟨a, ha, habove⟩ := factor_termUnit_eq_double hterm
        obtain ⟨b, hbpos, hb, hbelow⟩ := factor_eq_double below
        rw [Expression.unit, Option.elim_some, PhysicalUnit.per, habove, factor_ofScale, hbelow]
        exact div_eq_double ha hbpos hb
  rw [hfactor, beq_double_self hcode]

end Factors

section ReadingBack

variable {text : String} {unit : PhysicalUnit}

/-- What two units have in common that are one. -/
structure Same (unit other : PhysicalUnit) : Prop where
  exponents : ∀ dimension, exponentIn dimension unit = exponentIn dimension other
  factor : unit.factor.toBits = other.factor.toBits
  symbol : unit.symbol = other.symbol
  equal : (unit == other) = true
  mapping : unit.classify.mapping = other.classify.mapping

theorem Same.of_beq_factor (h : (unit.factor == unit.factor) = true) : Same unit unit where
  exponents _ := rfl
  factor := rfl
  symbol := rfl
  equal := by
    obtain ⟨space, time, count, factor, symbol⟩ := unit
    simpa only [BEq.beq, instBEqPhysicalUnit.beq, Bool.and_eq_true, decide_true, true_and,
      and_true] using h
  mapping := rfl

/-- The symbol of a unit is a text of the unit. -/
structure ReadsBack (unit : PhysicalUnit) : Prop where
  read : PhysicalUnit.parse unit.symbol = .ok unit
  /-- All texts with one symbol, its own text among them, are read as the same unit. -/
  same : ∀ text other, PhysicalUnit.parse text = .ok other → other.symbol = unit.symbol →
    Same other unit

theorem parse_symbol (h : PhysicalUnit.parse text = .ok unit) :
    PhysicalUnit.parse unit.symbol = .ok unit := by
  obtain ⟨expression, hwritten, rfl⟩ := exists_written (parse_eq_ok_iff.mp h)
  rw [(denotes_unit expression).symbol]
  exact parse_eq_ok_iff.mpr (written_symbol hwritten).ofText

theorem beq_factor_of_parse (h : PhysicalUnit.parse text = .ok unit) :
    (unit.factor == unit.factor) = true := by
  obtain ⟨expression, ⟨_, -, hspells⟩, rfl⟩ := exists_written (parse_eq_ok_iff.mp h)
  exact beq_factor_of_spells hspells

/-- The symbol of a unit that was read from a text is a text of the same unit. -/
theorem symbol_readsBack (h : PhysicalUnit.parse text = .ok unit) : ReadsBack unit where
  read := parse_symbol h
  same other again hread hsymbol := by
    have hother := parse_symbol hread
    rw [hsymbol, parse_symbol h] at hother
    cases hother
    exact Same.of_beq_factor (beq_factor_of_parse h)

theorem readsBack_rate : PhysicalUnit.parse " 1024 · kilobyte / msec" =
      .ok ⟨1, -1, 0, Float.ofBits 0x41cf400000000000, "1024*KiB/ms"⟩ ∧
    ReadsBack ⟨1, -1, 0, Float.ofBits 0x41cf400000000000, "1024*KiB/ms"⟩ :=
  have h : PhysicalUnit.parse " 1024 · kilobyte / msec" =
      .ok ⟨1, -1, 0, Float.ofBits 0x41cf400000000000, "1024*KiB/ms"⟩ := rfl
  ⟨h, symbol_readsBack h⟩

end ReadingBack

end MappedMetrics.Proofs.UnitSymbols
