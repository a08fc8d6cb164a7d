import MappedMetrics.Cli.Number
import MappedMetrics.Proofs.JsonNumbers
import MappedMetrics.Proofs.TextSlots
import MappedMetrics.Proofs.UnitGrammar

namespace MappedMetrics.Proofs.DurationTexts

open MappedMetrics
open MappedMetrics.Cli
open MappedMetrics.Text
open MappedMetrics.Proofs.JsonNumbers (digit?_eq)
open MappedMetrics.Proofs.TextSlots (isBoundary isBoundary_iff)
open MappedMetrics.Proofs.UnitGrammar (Trimmed trimmed_trim)

/-- Digits, and the number that they spell behind one that was read before them. -/
structure Digits (before : Nat) (text : List Char) (n : Nat) : Prop where
  digits : ∀ c ∈ text, c.isDigit = true
  value : Nat.ofDigitChars 10 text before = n

/-- Digits, at least one of them, with or without a plus sign. -/
inductive Numeral : List Char → Nat → Prop where
  | bare {digits : List Char} {n : Nat} : digits ≠ [] → Digits 0 digits n → Numeral digits n
  | plus {digits : List Char} {n : Nat} : digits ≠ [] → Digits 0 digits n →
      Numeral ('+' :: digits) n

/-- The seconds that a unit lasts. -/
inductive Lasts : Char → Nat → Prop where
  | second : Lasts 's' 1
  | minute : Lasts 'm' 60
  | hour : Lasts 'h' 3600

/-- A number and a unit with blanks around them, where the number and its product with the seconds
of the unit fit into a word. -/
inductive Written (text : String) : Nat → Prop where
  | intro {front : List Char} {unit : Char} {n seconds : Nat} :
      Trimmed text.toList (front ++ [unit]) → Numeral front n → n < 2 ^ 64 →
      Lasts unit seconds → n * seconds < 2 ^ 64 → Written text (n * seconds)

/-- What the first character is that stops the reading of a number below a bound. -/
inductive Stops (bound before : Nat) : List Char → NumberFlaw → Prop where
  | stray {front rest : List Char} {c : Char} {n : Nat} : Digits before front n → n < bound →
      c.isDigit = false → Stops bound before (front ++ c :: rest) .invalidDigit
  | long {front rest : List Char} {c : Char} {n m : Nat} : Digits before front n → n < bound →
      Digits n [c] m → bound ≤ m → Stops bound before (front ++ c :: rest) .tooLarge

/-- What is wrong with a text that is no number below a bound. -/
inductive Flawed (bound : Nat) : List Char → NumberFlaw → Prop where
  | empty : Flawed bound [] .empty
  | lone : Flawed bound ['+'] .invalidDigit
  | bare {text : List Char} {flaw : NumberFlaw} : text.head? ≠ some '+' →
      Stops bound 0 text flaw → Flawed bound text flaw
  | plus {text : List Char} {flaw : NumberFlaw} : Stops bound 0 text flaw →
      Flawed bound ('+' :: text) flaw

/-- What is wrong with a text that is no span. The unit counts only behind a number, and the product
only with a unit. -/
inductive Rejected (text : String) : DurationFlaw → Prop where
  | empty : Trimmed text.toList [] → Rejected text .empty
  | number {front : List Char} {unit : Char} {flaw : NumberFlaw} :
      Trimmed text.toList (front ++ [unit]) → Flawed (2 ^ 64) front flaw →
      Rejected text (.number flaw)
  | unknownUnit {front : List Char} {unit : Char} {n : Nat} :
      Trimmed text.toList (front ++ [unit]) → Numeral front n → n < 2 ^ 64 →
      (∀ seconds, ¬ Lasts unit seconds) → Rejected text (.unknownUnit unit)
  | tooLarge {front : List Char} {unit : Char} {n seconds : Nat} :
      Trimmed text.toList (front ++ [unit]) → Numeral front n → n < 2 ^ 64 →
      Lasts unit seconds → 2 ^ 64 ≤ n * seconds →
      Rejected text (.tooLarge (String.ofList (front ++ [unit])))

section Digits

variable {bound before n : Nat} {c : Char} {text front rest : List Char} {flaw : NumberFlaw}

theorem digits_cons_iff : Digits before (c :: rest) n ↔
    c.isDigit = true ∧ Digits (10 * before + (c.toNat - 48)) rest n := by
  constructor
  · rintro ⟨hdigits, hvalue⟩
    obtain ⟨hc, hrest⟩ := List.forall_mem_cons.mp hdigits
    exact ⟨hc, hrest, Nat.ofDigitChars_cons.symm.trans hvalue⟩
  · rintro ⟨hc, hrest, hvalue⟩
    exact ⟨List.forall_mem_cons.mpr ⟨hc, hrest⟩, Nat.ofDigitChars_cons.trans hvalue⟩

theorem digits_nil (n : Nat) : Digits n [] n :=
  ⟨List.forall_mem_nil _, rfl⟩

theorem Digits.le (h : Digits before text n) : before ≤ n := by
  induction text generalizing before with
  | nil => exact h.value.le
  | cons c rest ih =>
      have hle := ih (digits_cons_iff.mp h).2
      omega

theorem Digits.digitsFrom_append (h : Digits before front n) (hn : n < bound)
    (rest : List Char) : digitsFrom bound before (front ++ rest) = digitsFrom bound n rest := by
  induction front generalizing before with
  | nil => rw [List.nil_append, ← h.value]; rfl
  | cons c front ih =>
      obtain ⟨hc, hfront⟩ := digits_cons_iff.mp h
      have hle := hfront.le
      rw [List.cons_append, digitsFrom, digit?_eq, if_pos hc]
      dsimp only
      rw [if_neg (by omega)]
      exact ih hfront

theorem Digits.digitsFrom (h : Digits before text n) (hn : n < bound) :
    digitsFrom bound before text = .ok n := by
  have hread := h.digitsFrom_append hn []
  rwa [List.append_nil] at hread

theorem Stops.digitsFrom (h : Stops bound before text flaw) :
    digitsFrom bound before text = .error flaw := by
  cases h with
  | stray hfront hn hc =>
      rw [hfront.digitsFrom_append hn, Cli.digitsFrom, digit?_eq, hc]
      rfl
  | long hfront hn hnext hm =>
      obtain ⟨hc, hnext⟩ := digits_cons_iff.mp hnext
      have hbeyond := hm.trans_eq hnext.value.symm
      rw [hfront.digitsFrom_append hn, Cli.digitsFrom, digit?_eq, if_pos hc]
      exact if_pos hbeyond

theorem Stops.cons (h : Stops bound (10 * before + (c.toNat - 48)) rest flaw)
    (hc : c.isDigit = true) : Stops bound before (c :: rest) flaw := by
  cases h with
  | stray hfront hn hother => exact .stray (digits_cons_iff.mpr ⟨hc, hfront⟩) hn hother
  | long hfront hn hnext hm => exact .long (digits_cons_iff.mpr ⟨hc, hfront⟩) hn hnext hm

theorem digits_or_stops (hbefore : before < bound) (text : List Char) :
    (∃ n < bound, Digits before text n) ∨ ∃ flaw, Stops bound before text flaw := by
  induction text generalizing before with
  | nil => exact .inl ⟨before, hbefore, digits_nil before⟩
  | cons c rest ih =>
      cases hc : c.isDigit with
      | false => exact .inr ⟨_, .stray (digits_nil before) hbefore hc⟩
      | true =>
          rcases Nat.lt_or_ge (10 * before + (c.toNat - 48)) bound with hlt | hle
          · rcases ih hlt with ⟨n, hn, hrest⟩ | ⟨flaw, hstops⟩
            · exact .inl ⟨n, hn, digits_cons_iff.mpr ⟨hc, hrest⟩⟩
            · exact .inr ⟨flaw, hstops.cons hc⟩
          · exact .inr ⟨_, .long (digits_nil before) hbefore
              (digits_cons_iff.mpr ⟨hc, digits_nil _⟩) hle⟩

theorem Stops.ne_nil (h : Stops bound before text flaw) : text ≠ [] := by
  cases h <;> simp

end Digits

section Numbers

variable {bound n : Nat} {text digits : List Char} {flaw : NumberFlaw}

theorem number_plus (hdigits : digits ≠ []) :
    number bound ('+' :: digits) = digitsFrom bound 0 digits := by
  cases digits with
  | nil => exact absurd rfl hdigits
  | cons c rest => rfl

theorem number_bare (htext : text ≠ []) (hhead : text.head? ≠ some '+') :
    number bound text = digitsFrom bound 0 text := by
  rw [number.eq_def]
  split
  · exact absurd rfl htext
  · exact absurd rfl hhead
  · exact absurd rfl hhead
  · rfl

theorem Numeral.number (h : Numeral text n) (hn : n < bound) : number bound text = .ok n := by
  cases h with
  | plus hdigits hvalue => rw [number_plus hdigits, hvalue.digitsFrom hn]
  | bare hdigits hvalue =>
      have hhead : text.head? ≠ some '+' := fun hplus =>
        absurd (hvalue.digits '+' (List.mem_of_mem_head? hplus)) (by decide)
      rw [number_bare hdigits hhead, hvalue.digitsFrom hn]

theorem Flawed.number (h : Flawed bound text flaw) : number bound text = .error flaw := by
  cases h with
  | empty => rfl
  | lone => rfl
  | bare hhead hstops => rw [number_bare hstops.ne_nil hhead, hstops.digitsFrom]
  | plus hstops => rw [number_plus hstops.ne_nil, hstops.digitsFrom]

theorem numeral_or_flawed (hbound : 0 < bound) (text : List Char) :
    (∃ n < bound, Numeral text n) ∨ ∃ flaw, Flawed bound text flaw := by
  cases text with
  | nil => exact .inr ⟨_, .empty⟩
  | cons c rest =>
      by_cases hc : c = '+'
      · subst hc
        rcases eq_or_ne rest [] with rfl | hrest
        · exact .inr ⟨_, .lone⟩
        · rcases digits_or_stops hbound rest with ⟨n, hn, hdigits⟩ | ⟨flaw, hstops⟩
          · exact .inl ⟨n, hn, .plus hrest hdigits⟩
          · exact .inr ⟨flaw, .plus hstops⟩
      · rcases digits_or_stops hbound (c :: rest) with ⟨n, hn, hdigits⟩ | ⟨flaw, hstops⟩
        · exact .inl ⟨n, hn, .bare (List.cons_ne_nil c rest) hdigits⟩
        · exact .inr ⟨flaw, .bare (fun hhead => hc (Option.some.inj hhead)) hstops⟩

end Numbers

section Spans

variable {text : String} {unit : Char} {n seconds : Nat}
  {flaw : DurationFlaw}

theorem unitSeconds?_eq_some_iff : unitSeconds? unit = some seconds ↔ Lasts unit seconds := by
  constructor
  · intro h
    rw [unitSeconds?.eq_def] at h
    split at h
    · cases h; exact .second
    · cases h; exact .minute
    · cases h; exact .hour
    · cases h
  · rintro (_ | _ | _) <;> rfl

theorem unitSeconds?_eq_none_iff : unitSeconds? unit = none ↔ ∀ seconds, ¬ Lasts unit seconds := by
  simp only [Option.eq_none_iff_forall_ne_some, ne_eq, unitSeconds?_eq_some_iff]

theorem Written.duration (h : Written text n) : duration text = .ok (UInt64.ofNat n) := by
  obtain ⟨htrimmed, hnumeral, hn, hunit, hproduct⟩ := h
  simp only [Cli.duration, ← htrimmed.eq_trim, List.getLast?_concat, List.dropLast_concat,
    hnumeral.number hn, unitSeconds?_eq_some_iff.mpr hunit, if_pos hproduct]

theorem Rejected.duration (h : Rejected text flaw) : duration text = .error flaw := by
  cases h with
  | empty htrimmed => simp only [Cli.duration, ← htrimmed.eq_trim, List.getLast?_nil]
  | number htrimmed hflawed =>
      simp only [Cli.duration, ← htrimmed.eq_trim, List.getLast?_concat, List.dropLast_concat,
        hflawed.number]
  | unknownUnit htrimmed hnumeral hn hunit =>
      simp only [Cli.duration, ← htrimmed.eq_trim, List.getLast?_concat, List.dropLast_concat,
        hnumeral.number hn, unitSeconds?_eq_none_iff.mpr hunit]
  | tooLarge htrimmed hnumeral hn hunit hproduct =>
      simp only [Cli.duration, ← htrimmed.eq_trim, List.getLast?_concat, List.dropLast_concat,
        hnumeral.number hn, unitSeconds?_eq_some_iff.mpr hunit, if_neg (Nat.not_lt.mpr hproduct)]

theorem written_or_rejected (text : String) :
    (∃ n, Written text n) ∨ ∃ flaw, Rejected text flaw := by
  -- The last character is the unit, and everything before it must be the number.
  have htrimmed := trimmed_trim text.toList
  generalize trim text.toList = core at htrimmed
  rcases List.eq_nil_or_concat' core with rfl | ⟨front, unit, rfl⟩
  · exact .inr ⟨_, .empty htrimmed⟩
  rcases numeral_or_flawed (Nat.two_pow_pos 64) front with ⟨n, hn, hnumeral⟩ | ⟨flaw, hflawed⟩
  · cases hunit : unitSeconds? unit with
    | none =>
        exact .inr ⟨_, .unknownUnit htrimmed hnumeral hn (unitSeconds?_eq_none_iff.mp hunit)⟩
    | some seconds =>
        have hlasts := unitSeconds?_eq_some_iff.mp hunit
        rcases Nat.lt_or_ge (n * seconds) (2 ^ 64) with hlt | hle
        · exact .inl ⟨_, .intro htrimmed hnumeral hn hlasts hlt⟩
        · exact .inr ⟨_, .tooLarge htrimmed hnumeral hn hlasts hle⟩
  · exact .inr ⟨_, .number htrimmed hflawed⟩

theorem Written.lt (h : Written text n) : n < 2 ^ 64 := by
  obtain ⟨-, -, -, -, hproduct⟩ := h
  exact hproduct

theorem Written.exists_duration (h : Written text n) :
    ∃ seconds, seconds.toNat = n ∧ Cli.duration text = .ok seconds :=
  ⟨UInt64.ofNat n, UInt64.toNat_ofNat_of_lt' h.lt, h.duration⟩

theorem duration_eq_ok_iff {seconds : UInt64} :
    duration text = .ok seconds ↔ Written text seconds.toNat := by
  constructor
  · intro hread
    rcases written_or_rejected text with ⟨n, hwritten⟩ | ⟨flaw, hrejected⟩
    · obtain ⟨other, rfl, hother⟩ := hwritten.exists_duration
      obtain rfl : other = seconds := Except.ok.inj (hother.symm.trans hread)
      exact hwritten
    · rw [hrejected.duration] at hread
      cases hread
  · intro hwritten
    obtain ⟨other, hvalue, hother⟩ := hwritten.exists_duration
    rw [hother, UInt64.toNat_inj.mp hvalue]

theorem duration_eq_error_iff {flaw : DurationFlaw} :
    duration text = .error flaw ↔ Rejected text flaw := by
  refine ⟨fun hread => ?_, Rejected.duration⟩
  rcases written_or_rejected text with ⟨n, hwritten⟩ | ⟨other, hrejected⟩
  · rw [hwritten.duration] at hread
    cases hread
  · obtain rfl : other = flaw := Except.error.inj (hrejected.duration.symm.trans hread)
    exact hrejected

theorem utf8_concat (front : List Char) (unit : Char) :
    utf8 (String.ofList (front ++ [unit])) =
      utf8 (String.ofList front) ++ String.utf8EncodeChar unit := by
  simp only [utf8, String.toList_ofList, List.flatMap_append, List.flatMap_singleton]

theorem isBoundary_concat (front : List Char) (unit : Char) :
    isBoundary (utf8 (String.ofList (front ++ [unit]))) (utf8 (String.ofList front)).length =
      true := by
  refine isBoundary_iff.mpr ⟨front, ?_, ?_⟩
  · rw [String.toList_ofList]
    exact List.prefix_append front [unit]
  · rw [utf8, String.toList_ofList]

end Spans

/-- Which texts are spans of time, and why others are none. -/
structure Understood (text : String) : Prop where
  accepted : ∀ seconds, duration text = .ok seconds ↔ Written text seconds.toNat
  exact : ∀ n, Written text n → ∃ seconds, seconds.toNat = n ∧ duration text = .ok seconds
  refused : ∀ flaw, duration text = .error flaw ↔ Rejected text flaw
  others : (¬ ∃ n, Written text n) → ∃ flaw, duration text = .error flaw
  /-- The place before the last character, of however many bytes it is, is one to cut the text. -/
  cut : ∀ front unit, Trimmed text.toList (front ++ [unit]) →
    let core := utf8 (String.ofList (front ++ [unit]))
    let place := (utf8 (String.ofList front)).length
    isBoundary core place = true ∧ core.take place = utf8 (String.ofList front) ∧
      core.drop place = String.utf8EncodeChar unit

/-- A text is a span of time if and only if it is written as one, and every other text, whatever its
characters, is refused for a reason that it gives. -/
theorem understood (text : String) : Understood text := by
  refine
    { accepted := fun _ => duration_eq_ok_iff
      exact := fun _ => Written.exists_duration
      refused := fun _ => duration_eq_error_iff
      others := fun hnone => ?_
      cut := fun front unit _ => ?_ }
  · obtain ⟨flaw, hrejected⟩ := (written_or_rejected text).resolve_left hnone
    exact ⟨flaw, hrejected.duration⟩
  · dsimp only
    rw [isBoundary_concat, utf8_concat, List.take_left, List.drop_left]
    exact ⟨rfl, rfl, rfl⟩

-- The greatest span, with blanks around it, and a unit of two bytes.
example : duration "\t+18446744073709551615s\n" = .ok 18446744073709551615 := by rfl

example : duration "7µ" = .error (.unknownUnit 'µ') := by rfl

end MappedMetrics.Proofs.DurationTexts
