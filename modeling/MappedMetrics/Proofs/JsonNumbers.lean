import Mathlib.Data.List.TakeWhile
import MappedMetrics.Json.Reading
import MappedMetrics.Proofs.JsonText

namespace MappedMetrics.Proofs.JsonNumbers

open MappedMetrics
open MappedMetrics.Json
open MappedMetrics.Decimal (isDigit digit? digitsValue digitChars splitSign)
open MappedMetrics.Proofs.JsonText

section Digits

theorem digit?_eq (c : Char) : digit? c = if c.isDigit then some (c.toNat - 48) else none := by
  have hiff : ('0' ≤ c ∧ c ≤ '9') ↔ c.isDigit = true := by
    simp only [Char.isDigit, Bool.and_eq_true, decide_eq_true_eq]
    exact Iff.rfl
  simp only [digit?, hiff]

theorem isDigit_eq (c : Char) : isDigit c = c.isDigit := by
  rw [isDigit, digit?_eq]
  cases c.isDigit <;> rfl

/-- A run of digits, of which there is at least one. -/
structure Run (text : List Char) : Prop where
  digits : ∀ c ∈ text, isDigit c = true
  nonempty : text ≠ []

theorem run_digitChars (n : Nat) : Run (digitChars n) := by
  refine ⟨fun c hmem => ?_, Nat.toDigits_ne_nil⟩
  rw [isDigit_eq]
  exact Nat.isDigit_of_mem_toDigits (by decide) (by decide) hmem

variable {text rest : List Char}

theorem takeWhile_run (hdigits : ∀ c ∈ text, isDigit c = true) (hstops : Stops rest) :
    (text ++ rest).takeWhile isDigit = text := by
  rw [takeWhile_isDigit_append hstops, List.takeWhile_eq_self_iff]
  exact hdigits

theorem dropWhile_run (hdigits : ∀ c ∈ text, isDigit c = true) (hstops : Stops rest) :
    (text ++ rest).dropWhile isDigit = rest := by
  have hnone : text.dropWhile isDigit = [] := by
    rw [List.dropWhile_eq_nil_iff]
    exact hdigits
  rw [dropWhile_isDigit_append hstops, hnone, List.nil_append]

theorem digits?_run (hrun : Run text) (hstops : Stops rest) :
    digits? (text ++ rest) = some (text, rest) := by
  have hsome : ¬ text.isEmpty = true := by simpa using hrun.nonempty
  simp only [digits?, takeWhile_run hrun.digits hstops, dropWhile_run hrun.digits hstops,
    if_neg hsome]

theorem digitsValue_eq (hdigits : ∀ c ∈ text, isDigit c = true) :
    digitsValue text = Nat.ofDigitChars 10 text 0 := by
  rw [digitsValue, Nat.ofDigitChars_eq_foldl]
  suffices hfold : ∀ start, text.foldl (fun n c => 10 * n + (digit? c).getD 0) start =
      text.foldl (fun n c => 10 * n + (c.toNat - '0'.toNat)) start from hfold 0
  intro start
  induction text generalizing start with
  | nil => rfl
  | cons c text ih =>
      obtain ⟨hc, htext⟩ := List.forall_mem_cons.mp hdigits
      have hvalue : (digit? c).getD 0 = c.toNat - '0'.toNat := by
        rw [digit?_eq, ← isDigit_eq, hc]
        rfl
      rw [List.foldl_cons, List.foldl_cons, hvalue]
      exact ih htext _

theorem digitsValue_digitChars (n : Nat) : digitsValue (digitChars n) = n := by
  rw [digitsValue_eq (run_digitChars n).digits]
  exact Nat.ofDigitChars_ten_toDigits

/-- No zero stands before another digit. -/
def Led (text : List Char) : Prop :=
  text.length = 1 ∨ text.head? ≠ some '0'

theorem head?_digitChars {n : Nat} (hn : 0 < n) : (digitChars n).head? ≠ some '0' := by
  induction n using Nat.strongRecOn with
  | ind n ih =>
      by_cases hsmall : n < 10
      · have hall : ∀ k < 10, 0 < k → k.digitChar ≠ '0' := by decide
        rw [digitChars, Nat.toDigits_of_lt_base hsmall]
        exact fun heq => hall n hsmall hn (Option.some.inj heq)
      · have hsplit : digitChars n = digitChars (n / 10) ++ [(n % 10).digitChar] :=
          Nat.toDigits_of_base_le (by decide) (Nat.le_of_not_lt hsmall)
        obtain ⟨c, text, htext⟩ := List.exists_cons_of_ne_nil (run_digitChars (n / 10)).nonempty
        have hless := ih (n / 10) (by omega) (by omega)
        rw [htext] at hless
        rw [hsplit, htext]
        exact hless

theorem led_digitChars (n : Nat) : Led (digitChars n) := by
  rcases Nat.eq_zero_or_pos n with rfl | hn
  · exact .inl rfl
  · exact .inr (head?_digitChars hn)

end Digits

section Numerals

def fractionChars (x : Numeral) : List Char :=
  (x.fraction.map ('.' :: ·)).getD []

/-- The exponent is always written with its sign. -/
def exponentChars (x : Numeral) : List Char :=
  (x.exponent.map fun (negative, digits) =>
    'e' :: (if negative then '-' else '+') :: digits).getD []

def magnitudeChars (x : Numeral) : List Char :=
  x.whole ++ (fractionChars x ++ exponentChars x)

/-- The text of a numeral. -/
def spelled (x : Numeral) : List Char :=
  if x.negative then '-' :: magnitudeChars x else magnitudeChars x

/-- A numeral that can be written: each part is a run of digits, and no zero leads. -/
structure Spellable (x : Numeral) : Prop where
  whole : Run x.whole
  led : Led x.whole
  fraction : ∀ digits, x.fraction = some digits → Run digits
  exponent : ∀ negative digits, x.exponent = some (negative, digits) → Run digits

variable {x : Numeral}

theorem stops_cons {c : Char} {rest : List Char} (hc : isDigit c = false) : Stops (c :: rest) := by
  intro other hhead
  cases hhead
  exact hc

theorem stops_nil : Stops [] :=
  fun _ hhead => nomatch hhead

theorem exponent?_exponentChars (hx : Spellable x) :
    exponent? (exponentChars x) = some (exponentChars x, []) := by
  rcases hexponent : x.exponent with _ | ⟨negative, digits⟩
  · simp [exponentChars, hexponent, exponent?]
  · have hdigits := digits?_run (hx.exponent _ _ hexponent) stops_nil
    rw [List.append_nil] at hdigits
    cases negative <;> simp [exponentChars, hexponent, exponent?, hdigits]

theorem stops_exponentChars (x : Numeral) : Stops (exponentChars x) := by
  rcases hexponent : x.exponent with _ | ⟨negative, digits⟩
  · simp [exponentChars, hexponent, stops_nil]
  · simpa [exponentChars, hexponent] using stops_cons (by decide)

theorem stops_tail (x : Numeral) : Stops (fractionChars x ++ exponentChars x) := by
  cases hfraction : x.fraction with
  | none => simpa [fractionChars, hfraction] using stops_exponentChars x
  | some digits => simpa [fractionChars, hfraction] using stops_cons (by decide)

theorem fraction?_tail (hx : Spellable x) :
    fraction? (fractionChars x ++ exponentChars x) = some (fractionChars x, exponentChars x) := by
  cases hfraction : x.fraction with
  | none =>
      simp only [fractionChars, hfraction, Option.map_none, Option.getD_none, List.nil_append]
      rcases hexponent : x.exponent with _ | ⟨negative, digits⟩
      · simp [exponentChars, hexponent, fraction?]
      · simp [exponentChars, hexponent, fraction?]
  | some digits =>
      have hdigits := digits?_run (hx.fraction _ hfraction) (stops_exponentChars x)
      simp [fractionChars, hfraction, fraction?, hdigits]

theorem magnitude?_magnitudeChars (hx : Spellable x) :
    magnitude? (magnitudeChars x) = some (magnitudeChars x, []) := by
  have hled : ¬ (x.whole.length ≠ 1 ∧ x.whole.head? = some '0') := fun hzero =>
    hx.led.elim hzero.1 (absurd hzero.2)
  simp only [magnitude?, magnitudeChars, digits?_run hx.whole (stops_tail x), fraction?_tail hx,
    exponent?_exponentChars hx, Option.bind_eq_bind, Option.bind_some, if_neg hled]

theorem exists_magnitudeChars (hx : Spellable x) :
    ∃ c text, magnitudeChars x = c :: text ∧ isDigit c = true ∧ c ≠ '-' := by
  obtain ⟨c, text, hwhole⟩ := List.exists_cons_of_ne_nil hx.whole.nonempty
  have hc : isDigit c = true := hx.whole.digits c (by rw [hwhole]; exact List.mem_cons_self)
  refine ⟨c, _, by rw [magnitudeChars, hwhole, List.cons_append], hc, ?_⟩
  rintro rfl
  exact absurd hc (by decide)

theorem number?_spelled (hx : Spellable x) : number? (spelled x) = some (spelled x, []) := by
  have hmagnitude := magnitude?_magnitudeChars hx
  rw [spelled]
  split
  · simp [number?, hmagnitude]
  · obtain ⟨c, text, hchars, _, hc⟩ := exists_magnitudeChars hx
    rw [hchars] at hmagnitude ⊢
    rw [number?_of_ne hc, hmagnitude]

theorem splitSign_exponent (negative : Bool) (digits : List Char) :
    splitSign ((if negative then '-' else '+') :: digits) = (negative, digits) := by
  cases negative <;> rfl

theorem ofLiteral_spelled (hx : Spellable x) :
    Numeral.ofLiteral (String.ofList (spelled x)) = x := by
  obtain ⟨c, text, hchars, _, hc⟩ := exists_magnitudeChars hx
  have hsign : ((spelled x).head? == some '-') = x.negative := by
    cases hnegative : x.negative with
    | true => simp [spelled, hnegative]
    | false => simp [spelled, hnegative, hchars, hc]
  have hmagnitude : (if x.negative then (spelled x).drop 1 else spelled x) = magnitudeChars x := by
    cases hnegative : x.negative <;> simp [spelled, hnegative]
  have hwhole : (magnitudeChars x).takeWhile isDigit = x.whole :=
    takeWhile_run hx.whole.digits (stops_tail x)
  have htail : (magnitudeChars x).dropWhile isDigit = fractionChars x ++ exponentChars x :=
    dropWhile_run hx.whole.digits (stops_tail x)
  simp only [Numeral.ofLiteral, String.toList_ofList, hsign, hmagnitude, hwhole, htail]
  obtain ⟨negative, whole, fraction, exponent⟩ := x
  cases fraction with
  | none =>
      rcases exponent with _ | ⟨negative, digits⟩
      · simp [fractionChars, exponentChars]
      · simp [fractionChars, exponentChars, splitSign_exponent]
  | some digits =>
      have hdigits := (hx.fraction _ rfl).digits
      have hstops := stops_exponentChars ⟨negative, whole, some digits, exponent⟩
      simp only [fractionChars, Option.map_some, Option.getD_some, List.cons_append,
        takeWhile_run hdigits hstops, dropWhile_run hdigits hstops]
      rcases exponent with _ | ⟨negative, digits⟩
      · simp [exponentChars]
      · simp [exponentChars, splitSign_exponent]

end Numerals

section Integers

/-- An integer as a numeral. -/
def ofInt (n : Int) : Numeral :=
  ⟨n < 0, digitChars n.natAbs, none, none⟩

theorem spellable_ofInt (n : Int) : Spellable (ofInt n) :=
  ⟨run_digitChars _, led_digitChars _, fun _ hsome => (nomatch hsome),
    fun _ _ hsome => (nomatch hsome)⟩

theorem toString_int (n : Int) : toString n = String.ofList (spelled (ofInt n)) := by
  rw [← String.toList_inj, String.toList_ofList, Int.toString_eq_repr, Int.repr_eq_if]
  by_cases hn : 0 ≤ n
  · have hsign : ¬ n < 0 := by omega
    have hnat : n.toNat = n.natAbs := by omega
    simp [spelled, ofInt, magnitudeChars, fractionChars, exponentChars, hn, hsign, hnat, digitChars]
  · have hsign : n < 0 := by omega
    have hnat : (-n).toNat = n.natAbs := by omega
    simp [spelled, ofInt, magnitudeChars, fractionChars, exponentChars, hn, hsign, hnat, digitChars]

theorem plain_ofInt (n : Int) : Plain (Json.ofInt n) := by
  rw [Json.ofInt, Plain, toString_int, String.toList_ofList]
  exact number?_spelled (spellable_ofInt n)

theorem ofNat_eq (n : Nat) : Json.ofNat n = Json.ofInt n := by
  have hint : ((n : Int)).repr = n.repr := rfl
  rw [Json.ofNat, Json.ofInt, Int.toString_eq_repr, hint]
  rfl

theorem numberValue?_ofInt {n : Int} (hlow : -2 ^ 63 ≤ n) (hhigh : n < 2 ^ 64) :
    (Json.ofInt n).numberValue? = some (.integer n) := by
  rw [Json.ofInt, numberValue?, toString_int, Number.ofLiteral?,
    ofLiteral_spelled (spellable_ofInt n)]
  simp only [ofInt, digitsValue_digitChars, Option.isSome_none, Bool.or_self, Bool.false_eq_true,
    if_false, decide_eq_true_eq]
  by_cases hn : n < 0
  · have hrange : 0 < n.natAbs ∧ n.natAbs ≤ 2 ^ 63 := by omega
    have hvalue : -(n.natAbs : Int) = n := by omega
    rw [if_pos hn, if_pos hrange, hvalue]
  · have hrange : n.natAbs < 2 ^ 64 := by omega
    have hvalue : (n.natAbs : Int) = n := by omega
    rw [if_neg hn, if_pos hrange, hvalue]

theorem integer?_ofInt {low high n : Int} (hlow : -2 ^ 63 ≤ low) (hhigh : high < 2 ^ 64)
    (hn : low ≤ n ∧ n ≤ high) : (Json.ofInt n).integer? low high = some n := by
  have hvalue := numberValue?_ofInt (Int.le_trans hlow hn.1) (Int.lt_of_le_of_lt hn.2 hhigh)
  simp only [integer?, hvalue, if_pos hn]

theorem integer?_ofNat {low high : Int} {n : Nat} (hlow : -2 ^ 63 ≤ low) (hhigh : high < 2 ^ 64)
    (hn : low ≤ n ∧ n ≤ high) : (Json.ofNat n).integer? low high = some (n : Int) := by
  rw [ofNat_eq]
  exact integer?_ofInt hlow hhigh hn

end Integers

end MappedMetrics.Proofs.JsonNumbers
