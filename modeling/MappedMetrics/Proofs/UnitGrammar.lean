import MappedMetrics.Error
import MappedMetrics.Proofs.MultiplierTexts
import MappedMetrics.Proofs.UnitExponents

namespace MappedMetrics.Proofs.UnitGrammar

open MappedMetrics
open MappedMetrics.Decimal
open MappedMetrics.Text
open MappedMetrics.Proofs.MultiplierTexts
open MappedMetrics.Proofs.UnitClassification
open MappedMetrics.Proofs.UnitExponents

section Blanks

variable {text core : List Char}

/-- A core that has blanks around it in a text, and none at its own ends. -/
structure Trimmed (text core : List Char) : Prop where
  padded : ∃ before after, (∀ c ∈ before, isBlank c = true) ∧ (∀ c ∈ after, isBlank c = true) ∧
    text = before ++ (core ++ after)
  head : ∀ c, core.head? = some c → isBlank c = false
  last : ∀ c, core.getLast? = some c → isBlank c = false

theorem dropWhile_blanks {before rest : List Char} (hbefore : ∀ c ∈ before, isBlank c = true)
    (hrest : ∀ c, rest.head? = some c → isBlank c = false) :
    (before ++ rest).dropWhile isBlank = rest := by
  rw [List.dropWhile_append_of_pos hbefore]
  cases rest with
  | nil => rfl
  | cons c rest => rw [List.dropWhile_cons_of_neg (by rw [hrest c rfl]; decide)]

theorem head?_dropWhile (text : List Char) {c : Char}
    (h : (text.dropWhile isBlank).head? = some c) : isBlank c = false := by
  have hhead := List.head?_dropWhile_not isBlank text
  rw [h] at hhead
  exact hhead

theorem trimmed_trim (text : List Char) : Trimmed text (trim text) := by
  have hsplit : text.dropWhile isBlank =
      trim text ++ ((text.dropWhile isBlank).reverse.takeWhile isBlank).reverse := by
    rw [trim, ← List.reverse_append, List.takeWhile_append_dropWhile, List.reverse_reverse]
  refine
    { padded := ⟨text.takeWhile isBlank,
        ((text.dropWhile isBlank).reverse.takeWhile isBlank).reverse,
        fun c hmem => List.mem_takeWhile_imp hmem,
        fun c hmem => List.mem_takeWhile_imp (List.mem_reverse.mp hmem), ?_⟩
      head := fun c hhead => head?_dropWhile text ?_
      last := fun c hlast => head?_dropWhile (text.dropWhile isBlank).reverse ?_ }
  · rw [← hsplit, List.takeWhile_append_dropWhile]
  · rw [hsplit, List.head?_append, hhead]
    rfl
  · rw [← hlast, trim, List.getLast?_reverse]

theorem Trimmed.eq_trim (h : Trimmed text core) : core = trim text := by
  obtain ⟨before, after, hbefore, hafter, rfl⟩ := h.padded
  have hback : ((core ++ after).reverse.dropWhile isBlank).reverse = core := by
    rw [List.reverse_append, dropWhile_blanks, List.reverse_reverse]
    · exact fun c hmem => hafter c (List.mem_reverse.mp hmem)
    · intro c hhead
      rw [List.head?_reverse] at hhead
      exact h.last c hhead
  cases core with
  | nil =>
      have hblanks : ∀ c ∈ before ++ after, isBlank c = true := fun c hmem =>
        (List.mem_append.mp hmem).elim (hbefore c) (hafter c)
      rw [trim, List.nil_append, List.dropWhile_eq_nil_iff.mpr hblanks]
      rfl
  | cons c rest =>
      have hfront : (before ++ (c :: rest ++ after)).dropWhile isBlank = c :: rest ++ after :=
        dropWhile_blanks hbefore fun other hhead => h.head other hhead
      rw [trim, hfront, hback]

theorem Trimmed.mem_iff (h : Trimmed text core) {c : Char} (hc : isBlank c = false) :
    c ∈ core ↔ c ∈ text := by
  obtain ⟨before, after, hbefore, hafter, rfl⟩ := h.padded
  have hunblank : ∀ {part : List Char}, (∀ other ∈ part, isBlank other = true) → c ∉ part := by
    intro part hpart hmem
    rw [hpart c hmem] at hc
    cases hc
  simp only [List.mem_append, hunblank hbefore, hunblank hafter, false_or, or_false]

theorem splitOnce_eq_some_iff {isSeparator : Char → Bool} {before after : List Char} :
    splitOnce isSeparator text = some (before, after) ↔
      ∃ c, text = before ++ c :: after ∧ isSeparator c = true ∧
        ∀ other ∈ before, isSeparator other = false := by
  constructor
  · intro hsplit
    induction text generalizing before with
    | nil => cases hsplit
    | cons c rest ih =>
        rw [splitOnce] at hsplit
        split at hsplit
        · cases hsplit
          exact ⟨c, rfl, ‹_›, by simp⟩
        · obtain ⟨⟨front, back⟩, hrest, hparts⟩ := Option.map_eq_some_iff.mp hsplit
          cases hparts
          obtain ⟨separator, rfl, hseparator, hfront⟩ := ih hrest
          refine ⟨separator, rfl, hseparator, fun other hmem => ?_⟩
          rcases List.mem_cons.mp hmem with rfl | hmem
          · simpa using ‹¬ isSeparator other = true›
          · exact hfront other hmem
  · rintro ⟨c, rfl, hc, hbefore⟩
    exact splitOnce_append_cons hbefore hc after

theorem not_mem_iff {separator : Char} :
    separator ∉ text ↔ ∀ c ∈ text, (c == separator) = false := by
  constructor
  · intro hnone c hmem
    exact beq_false_of_ne fun heq => hnone (heq ▸ hmem)
  · intro hother hmem
    exact absurd (hother separator hmem) (by simp)

end Blanks

/-- What a text says of a unit. -/
structure Expression where
  multiplier : Option Float
  above : Scale
  below : Option Scale

/-- The names of a scale. -/
def Names (name : List Char) (scale : Scale) : Prop :=
  String.ofList name = scale.symbol ∨ String.ofList name ∈ scale.spellings

/-- The texts of finite numbers above zero. -/
def Multiplies (text : List Char) (k : Float) : Prop :=
  ∃ bits, double? text = some bits ∧ 0 < bits.toNat ∧ bits.toNat < binary64.infinityCode ∧
    k = Float.ofBits bits

/-- The signs between a multiplier and a name. -/
def isMark (c : Char) : Bool :=
  c == '*' || c == '·'

/-- A name, or a multiplier, the first mark and a name. -/
inductive Term : List Char → Option Float → Scale → Prop where
  | name {name : List Char} {scale : Scale} : Names name scale → Term name none scale
  | multiple {left right number name : List Char} {mark : Char} {k : Float} {scale : Scale} :
      (∀ c ∈ left, isMark c = false) → isMark mark = true → Trimmed left number →
      Multiplies number k → Trimmed right name → Names name scale →
      Term (left ++ mark :: right) (some k) scale

/-- A term, or a term and a name with the only stroke between them. -/
inductive Spells : List Char → Expression → Prop where
  | term {text : List Char} {k : Option Float} {above : Scale} :
      '/' ∉ text → Term text k above → Spells text ⟨k, above, none⟩
  | quotient {left right term name : List Char} {k : Option Float} {above below : Scale} :
      '/' ∉ left → '/' ∉ right → Trimmed left term → Term term k above → Trimmed right name →
      Names name below → Spells (left ++ '/' :: right) ⟨k, above, some below⟩

/-- A text of the grammar, with blanks around it. -/
def Written (text : String) (expression : Expression) : Prop :=
  ∃ body, Trimmed text.toList body ∧ Spells body expression

/-- The unit of a scale, times the multiplier if there is one. -/
def termUnit (k : Option Float) (scale : Scale) : PhysicalUnit :=
  k.elim (.ofScale scale) (PhysicalUnit.ofScale scale).times

namespace Expression

/-- The exponent of a dimension. -/
def exponent (expression : Expression) (dimension : Dimension) : Int :=
  (if expression.above.dimension = dimension then 1 else 0) -
    if expression.below.map Scale.dimension = some dimension then 1 else 0

/-- The canonical way to write it. -/
def symbol (expression : Expression) : String :=
  (expression.multiplier.elim "" fun k => PhysicalUnit.multiplierText k ++ "*") ++
    expression.above.symbol ++ expression.below.elim "" fun scale => "/" ++ scale.symbol

def factor (expression : Expression) : Float :=
  let above := expression.multiplier.elim expression.above.factor (expression.above.factor * ·)
  expression.below.elim above (above / ·.factor)

/-- The unit, where exponents wrap around. -/
def unit (expression : Expression) : PhysicalUnit :=
  let above := termUnit expression.multiplier expression.above
  expression.below.elim above fun scale => above.per (.ofScale scale)

/-- The unit, absent where an exponent leaves the range of a byte. -/
def unit? (expression : Expression) : Option PhysicalUnit :=
  let above := termUnit expression.multiplier expression.above
  expression.below.elim (some above) fun scale => above.per? (.ofScale scale)

end Expression

/-- The unit that an expression stands for. -/
structure Denotes (expression : Expression) (unit : PhysicalUnit) : Prop where
  exponents : ∀ dimension, (exponentIn dimension unit).toInt = expression.exponent dimension
  symbol : unit.symbol = expression.symbol
  factor : unit.factor = expression.factor

section Names

variable {name : List Char} {scale : Scale}

theorem mem_all (scale : Scale) : scale ∈ Scale.all := by
  rcases scale with s | s | s <;> cases s <;> decide

theorem ofName?_spellings :
    ∀ scale ∈ Scale.all, ∀ name ∈ scale.spellings, Scale.ofName? name = some scale := by
  decide

theorem ofName?_eq_some_iff : Scale.ofName? (String.ofList name) = some scale ↔
    Names name scale := by
  constructor
  · intro h
    have hname := List.find?_some h
    rw [Bool.or_eq_true, beq_iff_eq, List.contains_iff_mem] at hname
    exact hname.imp_left Eq.symm
  · rintro (hsymbol | hspelling)
    · rw [hsymbol, ofName?_symbol]
    · exact ofName?_spellings scale (mem_all scale) _ hspelling

/-- Whether a character stands in no name. -/
def separates (c : Char) : Bool :=
  isMark c || c == '/'

theorem all_names (scale : Scale) : ((scale.symbol :: scale.spellings).all fun name =>
    !name.toList.isEmpty && name.toList.all fun c => !separates c) = true := by
  rcases scale with s | s | s <;> cases s <;> rfl

theorem Names.unseparated (h : Names name scale) :
    name ≠ [] ∧ ∀ c ∈ name, separates c = false := by
  have hname := List.all_eq_true.mp (all_names scale) (String.ofList name) (List.mem_cons.mpr h)
  simpa using hname

theorem named_eq_ok_iff {unit : PhysicalUnit} : PhysicalUnit.named name = .ok unit ↔
    ∃ scale, Names name scale ∧ unit = .ofScale scale := by
  rw [PhysicalUnit.named]
  simp only [← ofName?_eq_some_iff]
  cases Scale.ofName? (String.ofList name) <;> simp [eq_comm]

end Names

section Reading

variable {text : List Char} {unit : PhysicalUnit}

theorem numerator_eq_ok_iff : PhysicalUnit.numerator text = .ok unit ↔
    ∃ k scale, Term text k scale ∧ unit = termUnit k scale := by
  have hmarks : (fun c => c == '*' || c == '·') = isMark := rfl
  rw [PhysicalUnit.numerator, hmarks]
  constructor
  · intro hread
    cases hsplit : splitOnce isMark text with
    | none =>
        rw [hsplit] at hread
        obtain ⟨scale, hname, rfl⟩ := named_eq_ok_iff.mp hread
        exact ⟨none, scale, .name hname, rfl⟩
    | some parts =>
        obtain ⟨left, right⟩ := parts
        rw [hsplit] at hread
        obtain ⟨mark, rfl, hmark, hleft⟩ := splitOnce_eq_some_iff.mp hsplit
        obtain ⟨k, hk, hread⟩ := Outcome.bind_eq_ok.mp hread
        obtain ⟨named, hname, hread⟩ := Outcome.bind_eq_ok.mp hread
        obtain ⟨scale, hscale, rfl⟩ := named_eq_ok_iff.mp hname
        cases hread
        exact ⟨some k, scale, .multiple hleft hmark (trimmed_trim left) (multiplier_eq_ok_iff.mp hk)
          (trimmed_trim right) hscale, rfl⟩
  · rintro ⟨k, scale, hterm, rfl⟩
    cases hterm with
    | name hname =>
        have hsplit : splitOnce isMark text = none :=
          splitOnce_eq_none_iff.mpr fun c hmem =>
            (Bool.or_eq_false_iff.mp (hname.unseparated.2 c hmem)).1
        rw [hsplit]
        exact named_eq_ok_iff.mpr ⟨scale, hname, rfl⟩
    | multiple hleft hmark hnumber hk hright hname =>
        rw [splitOnce_append_cons hleft hmark]
        refine Outcome.bind_eq_ok.mpr ⟨_, multiplier_eq_ok_iff.mpr (hnumber.eq_trim ▸ hk), ?_⟩
        exact Outcome.bind_eq_ok.mpr
          ⟨_, named_eq_ok_iff.mpr ⟨scale, hright.eq_trim ▸ hname, rfl⟩, rfl⟩

theorem Term.ne_nil {k : Option Float} {scale : Scale} (h : Term text k scale) : text ≠ [] := by
  cases h with
  | name hname => exact hname.unseparated.1
  | multiple => simp

theorem Spells.ne_nil {expression : Expression} (h : Spells text expression) : text ≠ [] := by
  cases h with
  | term _ hterm => exact hterm.ne_nil
  | quotient => simp

/-- What is read is written in the grammar. -/
theorem exists_written {text : String} (hread : PhysicalUnit.ofText text = .ok unit) :
    ∃ expression, Written text expression ∧ unit = expression.unit := by
  simp only [PhysicalUnit.ofText] at hread
  split at hread
  · cases hread
  · cases hsplit : splitOnce (· == '/') (trim text.toList) with
    | none =>
        rw [hsplit] at hread
        obtain ⟨k, above, hterm, rfl⟩ := numerator_eq_ok_iff.mp hread
        have hstrokeless : '/' ∉ trim text.toList :=
          not_mem_iff.mpr (splitOnce_eq_none_iff.mp hsplit)
        exact ⟨⟨k, above, none⟩, ⟨_, trimmed_trim _, .term hstrokeless hterm⟩, rfl⟩
    | some parts =>
        obtain ⟨left, right⟩ := parts
        rw [hsplit] at hread
        obtain ⟨stroke, hbody, hstroke, hleft⟩ := splitOnce_eq_some_iff.mp hsplit
        obtain rfl := eq_of_beq hstroke
        obtain ⟨numerator, hnumerator, hread⟩ := Outcome.bind_eq_ok.mp hread
        obtain ⟨k, above, hterm, rfl⟩ := numerator_eq_ok_iff.mp hnumerator
        split at hread
        · cases hread
        · rename_i hcontains
          obtain ⟨divisor, hdivisor, hread⟩ := Outcome.bind_eq_ok.mp hread
          obtain ⟨below, hname, rfl⟩ := named_eq_ok_iff.mp hdivisor
          cases hread
          have hright : '/' ∉ right := by
            rwa [← (trimmed_trim right).mem_iff rfl, ← List.contains_iff_mem]
          exact ⟨⟨k, above, some below⟩, ⟨_, hbody ▸ trimmed_trim _,
            .quotient (not_mem_iff.mpr hleft) hright (trimmed_trim left) hterm
              (trimmed_trim right) hname⟩, rfl⟩

/-- What is written in the grammar is read. -/
theorem Written.ofText {text : String} {expression : Expression}
    (h : Written text expression) : PhysicalUnit.ofText text = .ok expression.unit := by
  obtain ⟨body, hbody, hspells⟩ := h
  simp only [PhysicalUnit.ofText]
  rw [← hbody.eq_trim, if_neg (by simpa using hspells.ne_nil)]
  cases hspells with
  | term hstrokeless hterm =>
      have hsplit : splitOnce (· == '/') body = none :=
        splitOnce_eq_none_iff.mpr (not_mem_iff.mp hstrokeless)
      rw [hsplit]
      exact numerator_eq_ok_iff.mpr ⟨_, _, hterm, rfl⟩
  | @quotient left right _ _ _ _ _ hleft hright habove hterm hbelow hname =>
      have hback : ¬ (trim right).contains '/' = true := by
        rwa [List.contains_iff_mem, (trimmed_trim right).mem_iff rfl]
      rw [splitOnce_append_cons (not_mem_iff.mp hleft) rfl]
      refine Outcome.bind_eq_ok.mpr
        ⟨_, numerator_eq_ok_iff.mpr ⟨_, _, habove.eq_trim ▸ hterm, rfl⟩, ?_⟩
      simp only [hback]
      exact Outcome.bind_eq_ok.mpr
        ⟨_, named_eq_ok_iff.mpr ⟨_, hbelow.eq_trim ▸ hname, rfl⟩, rfl⟩

end Reading

section Units

variable {expression : Expression} {unit : PhysicalUnit}

theorem exponentIn_termUnit (dimension : Dimension) (k : Option Float) (scale : Scale) :
    exponentIn dimension (termUnit k scale) = if scale.dimension = dimension then 1 else 0 := by
  cases k with
  | none => exact exponentIn_ofScale dimension scale
  | some k => exact (exponentIn_times ..).trans (exponentIn_ofScale dimension scale)

theorem symbol_termUnit (k : Option Float) (scale : Scale) :
    (termUnit k scale).symbol =
      (k.elim "" fun k => PhysicalUnit.multiplierText k ++ "*") ++ scale.symbol := by
  cases k with
  | none => exact (symbol_ofScale scale).trans String.empty_append.symm
  | some k => simp only [termUnit, Option.elim_some, PhysicalUnit.times, symbol_ofScale, toString]

theorem factor_ofScale (scale : Scale) : (PhysicalUnit.ofScale scale).factor = scale.factor := by
  cases scale <;> rfl

theorem factor_termUnit (k : Option Float) (scale : Scale) :
    (termUnit k scale).factor = k.elim scale.factor (scale.factor * ·) := by
  cases k with
  | none => exact factor_ofScale scale
  | some k => exact congrArg (· * k) (factor_ofScale scale)

theorem unit?_eq (expression : Expression) : expression.unit? = some expression.unit := by
  obtain ⟨k, above, below⟩ := expression
  cases below with
  | none => rfl
  | some below =>
      refine per?_eq_some_iff.mpr ⟨fun dimension => ?_, rfl⟩
      rw [exponentIn_termUnit, exponentIn_ofScale]
      split <;> split <;> rfl

theorem denotes_unit (expression : Expression) : Denotes expression expression.unit := by
  obtain ⟨k, above, below⟩ := expression
  cases below with
  | none =>
      refine ⟨fun dimension => ?_, ?_, factor_termUnit k above⟩
      · simp only [Expression.unit, Option.elim_none, exponentIn_termUnit, Expression.exponent]
        split <;> rfl
      · exact (symbol_termUnit k above).trans (String.append_empty).symm
  | some below =>
      refine ⟨fun dimension => ?_, ?_, ?_⟩
      · simp only [Expression.unit, Option.elim_some, exponentIn_per, exponentIn_termUnit,
          exponentIn_ofScale, Expression.exponent, Option.map_some, Option.some.injEq]
        split <;> split <;> rfl
      · simp only [Expression.unit, Option.elim_some, PhysicalUnit.per, symbol_termUnit,
          denominatorSymbol_ofScale, toString, Expression.symbol, String.append_assoc]
      · simp only [Expression.unit, Option.elim_some, PhysicalUnit.per, factor_termUnit,
          factor_ofScale, Expression.factor]

theorem Denotes.eq_unit (h : Denotes expression unit) : unit = expression.unit := by
  have hunit := denotes_unit expression
  have hexponent : ∀ dimension,
      exponentIn dimension unit = exponentIn dimension expression.unit := fun dimension =>
    Int8.toInt_inj.mp ((h.exponents dimension).trans (hunit.exponents dimension).symm)
  have hspace := hexponent .space
  have htime := hexponent .time
  have hcount := hexponent .count
  have hfactor := h.factor.trans hunit.factor.symm
  have hsymbol := h.symbol.trans hunit.symbol.symm
  generalize expression.unit = other at *
  cases unit
  cases other
  simp only [exponentIn] at hspace htime hcount hfactor hsymbol
  subst hspace htime hcount hfactor hsymbol
  rfl

end Units

/-- Which texts are units, and what they stand for. -/
structure Grammatical (text : String) : Prop where
  accepted : ∀ unit, PhysicalUnit.parse text = .ok unit ↔
    ∃ expression, Written text expression ∧ Denotes expression unit
  /-- The exponents of what is accepted stay within the range of a byte. -/
  unhalted : ∀ expression, Written text expression →
    ∃ unit, expression.unit? = some unit ∧ PhysicalUnit.parse text = .ok unit
  refused : (¬ ∃ expression, Written text expression) →
    ∃ flaw, PhysicalUnit.parse text = (ConfigurationError.invalidUnit text flaw).refuse

theorem parse_eq_ok_iff {text : String} {unit : PhysicalUnit} :
    PhysicalUnit.parse text = .ok unit ↔ PhysicalUnit.ofText text = .ok unit := by
  rw [PhysicalUnit.parse]
  cases PhysicalUnit.ofText text with
  | ok other => simp only [Except.ok.injEq]
  | error flaw => simp [ConfigurationError.refuse]

/-- A unit is written as a name with an optional multiplier before it, and an optional stroke with a
second name. The reader of units accepts the texts of this grammar and no others. -/
theorem grammatical (text : String) : Grammatical text := by
  refine
    { accepted := fun unit => ?_
      unhalted := fun expression hwritten => ?_
      refused := fun hunwritten => ?_ }
  · rw [parse_eq_ok_iff]
    constructor
    · intro hread
      obtain ⟨expression, hwritten, rfl⟩ := exists_written hread
      exact ⟨expression, hwritten, denotes_unit expression⟩
    · rintro ⟨expression, hwritten, hdenotes⟩
      rw [hdenotes.eq_unit, hwritten.ofText]
  · exact ⟨_, unit?_eq expression, parse_eq_ok_iff.mpr hwritten.ofText⟩
  · rw [PhysicalUnit.parse]
    cases hread : PhysicalUnit.ofText text with
    | ok unit =>
        obtain ⟨expression, hwritten, -⟩ := exists_written hread
        exact absurd ⟨expression, hwritten⟩ hunwritten
    | error flaw => exact ⟨flaw, rfl⟩

end MappedMetrics.Proofs.UnitGrammar
