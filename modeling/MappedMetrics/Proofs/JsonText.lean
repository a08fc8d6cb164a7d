import MappedMetrics.Json.Parser
import MappedMetrics.Json.Printer

/-!
Reading JSON text undoes writing it, for values whose numbers are literals and whose texts hold
whole characters. The reader is followed over a piece of text and whatever stands after it.
-/

namespace MappedMetrics.Proofs.JsonText

open MappedMetrics
open MappedMetrics.Json
open MappedMetrics.Decimal (isDigit)

section Numbers

/-- No digit stands first. -/
def Stops (rest : List Char) : Prop :=
  ∀ c, rest.head? = some c → isDigit c = false

/-- No character of a number stands first. -/
def Ends (rest : List Char) : Prop :=
  ∀ c, rest.head? = some c → isDigit c = false ∧ c ≠ '.' ∧ c ≠ 'e' ∧ c ≠ 'E'

theorem ends_nil : Ends [] :=
  fun _ hhead => nomatch hhead

theorem ends_cons {c : Char} {rest : List Char}
    (hc : isDigit c = false ∧ c ≠ '.' ∧ c ≠ 'e' ∧ c ≠ 'E') : Ends (c :: rest) := by
  intro other hhead
  cases hhead
  exact hc

variable {text rest : List Char} {parts : List Char × List Char}

theorem Ends.stops (hends : Ends rest) : Stops rest :=
  fun c hhead => (hends c hhead).1

theorem takeWhile_isDigit_append (hstops : Stops rest) :
    (text ++ rest).takeWhile isDigit = text.takeWhile isDigit := by
  induction text with
  | nil =>
      cases rest with
      | nil => rfl
      | cons c rest => simp [List.takeWhile, hstops c rfl]
  | cons c text ih =>
      rw [List.cons_append, List.takeWhile_cons, List.takeWhile_cons, ih]

theorem dropWhile_isDigit_append (hstops : Stops rest) :
    (text ++ rest).dropWhile isDigit = text.dropWhile isDigit ++ rest := by
  induction text with
  | nil =>
      cases rest with
      | nil => rfl
      | cons c rest => simp [List.dropWhile, hstops c rfl]
  | cons c text ih =>
      rw [List.cons_append, List.dropWhile_cons, List.dropWhile_cons, ih]
      split <;> rfl

/-- A reader of numbers does not look beyond the end of a number. -/
def Local (read : List Char → Option (List Char × List Char)) : Prop :=
  ∀ {text rest parts}, Ends rest → read text = some parts →
    read (text ++ rest) = some (parts.1, parts.2 ++ rest)

theorem local_digits? : Local digits? := by
  intro text rest parts hends hread
  simp only [digits?, takeWhile_isDigit_append hends.stops,
    dropWhile_isDigit_append hends.stops] at hread ⊢
  split at hread
  · cases hread
  · rename_i hsome
    cases hread
    rw [if_neg hsome]

theorem fraction?_of_ne {c : Char} (hc : c ≠ '.') (text : List Char) :
    fraction? (c :: text) = some ([], c :: text) := by
  simp [fraction?, hc]

theorem fraction?_of_ends (hends : Ends rest) : fraction? rest = some ([], rest) := by
  cases rest with
  | nil => rfl
  | cons c rest => exact fraction?_of_ne (hends c rfl).2.1 rest

theorem local_fraction? : Local fraction? := by
  intro text rest parts hends hread
  cases text with
  | nil =>
      cases hread
      exact fraction?_of_ends hends
  | cons c text =>
      rw [List.cons_append]
      by_cases hpoint : c = '.'
      · subst hpoint
        simp only [fraction?, Option.map_eq_some_iff] at hread ⊢
        obtain ⟨digits, hdigits, rfl⟩ := hread
        exact ⟨_, local_digits? hends hdigits, rfl⟩
      · rw [fraction?_of_ne hpoint] at hread ⊢
        cases hread
        rfl

theorem exponent?_of_ne {c : Char} (hlower : c ≠ 'e') (hupper : c ≠ 'E') (text : List Char) :
    exponent? (c :: text) = some ([], c :: text) := by
  simp [exponent?, hlower, hupper]

theorem exponent?_of_ends (hends : Ends rest) : exponent? rest = some ([], rest) := by
  cases rest with
  | nil => rfl
  | cons c rest =>
      obtain ⟨_, _, hlower, hupper⟩ := hends c rfl
      exact exponent?_of_ne hlower hupper rest

theorem local_exponent? : Local exponent? := by
  intro text rest parts hends hread
  cases text with
  | nil =>
      cases hread
      exact exponent?_of_ends hends
  | cons mark text =>
      rw [List.cons_append]
      simp only [exponent?] at hread ⊢
      split at hread
      · rename_i hmark
        rw [if_pos hmark]
        -- After the mark there is a digit or a sign, so the rest does not stand there.
        cases text with
        | nil =>
            simp [digits?] at hread
        | cons sign text =>
            rw [List.cons_append]
            split at hread
            · rename_i hsign
              cases hsign
              obtain ⟨digits, hdigits, rfl⟩ := Option.map_eq_some_iff.mp hread
              simp only [local_digits? hends hdigits, Option.map_some]
            · rename_i hsign
              cases hsign
              obtain ⟨digits, hdigits, rfl⟩ := Option.map_eq_some_iff.mp hread
              simp only [local_digits? hends hdigits, Option.map_some]
            · rename_i hplus hminus
              obtain ⟨digits, hdigits, rfl⟩ := Option.map_eq_some_iff.mp hread
              split
              · rename_i hsign
                cases hsign
                exact absurd rfl (hplus text)
              · rename_i hsign
                cases hsign
                exact absurd rfl (hminus text)
              · rw [← List.cons_append, local_digits? hends hdigits, Option.map_some]
      · rename_i hmark
        rw [if_neg hmark]
        cases hread
        rfl

theorem local_magnitude? : Local magnitude? := by
  intro text rest parts hends hread
  simp only [magnitude?, Option.bind_eq_bind, Option.bind_eq_some_iff] at hread
  obtain ⟨⟨whole, afterWhole⟩, hwhole, hread⟩ := hread
  split at hread
  · cases hread
  · rename_i hzero
    simp only [Option.bind_eq_some_iff] at hread
    obtain ⟨⟨fraction, afterFraction⟩, hfraction, ⟨exponent, afterExponent⟩, hexponent, hparts⟩ :=
      hread
    cases hparts
    simp only [magnitude?, Option.bind_eq_bind, local_digits? hends hwhole, Option.bind_some,
      if_neg hzero, local_fraction? hends hfraction, local_exponent? hends hexponent]

theorem number?_of_ne {c : Char} (hc : c ≠ '-') (text : List Char) :
    number? (c :: text) = magnitude? (c :: text) := by
  simp [number?, hc]

theorem local_number? : Local number? := by
  intro text rest parts hends hread
  cases text with
  | nil => cases hread
  | cons c text =>
      by_cases hminus : c = '-'
      · subst hminus
        simp only [number?, List.cons_append, Option.map_eq_some_iff] at hread ⊢
        obtain ⟨digits, hdigits, rfl⟩ := hread
        exact ⟨_, local_magnitude? hends hdigits, rfl⟩
      · rw [number?_of_ne hminus] at hread
        rw [List.cons_append, number?_of_ne hminus, ← List.cons_append]
        exact local_magnitude? hends hread

end Numbers

section Texts

theorem hexDigit?_hexDigit (n : Nat) : hexDigit? (hexDigit n) = some (n % 16) := by
  have hall : ∀ k < 16, hexDigit? (Nat.digitChar k) = some k := by decide
  exact hall _ (Nat.mod_lt _ (by decide))

theorem codeUnit?_hexDigits {n : Nat} (hn : n < 256) (rest : List Char) :
    codeUnit? ('0' :: '0' :: hexDigit (n / 16) :: hexDigit n :: rest) = some (n, rest) := by
  have hzero : hexDigit? '0' = some 0 := by decide
  simp only [codeUnit?, hzero, hexDigit?_hexDigit, Option.bind_eq_bind, Option.bind_some,
    Option.some.injEq, Prod.mk.injEq, and_true]
  omega

theorem string?_escaped (fuel : Nat) (taken : Option (List Char)) (c : Char) (rest : List Char) :
    string? (fuel + 1) taken (escaped c ++ rest) = string? fuel (taken.map (c :: ·)) rest := by
  simp only [escaped]
  iterate 7
    split
    · rename_i hc
      obtain rfl := eq_of_beq hc
      rfl
  split
  · rename_i hlow
    have hcode : c.toNat < 256 := Nat.lt_trans hlow (by decide)
    have hunit := codeUnit?_hexDigits hcode rest
    have hread :
        escape? ('u' :: '0' :: '0' :: hexDigit (c.toNat / 16) :: hexDigit c.toNat :: rest) =
          some (some c, rest) := by
      have hlow' : ¬ (0xD800 ≤ c.toNat ∧ c.toNat < 0xDC00) := by omega
      have hhigh : ¬ (0xDC00 ≤ c.toNat ∧ c.toNat < 0xE000) := by omega
      simp only [escape?, hunit, Option.bind_eq_bind, Option.bind_some, if_neg hlow', if_neg hhigh,
        Char.ofNat_toNat]
    simp only [List.cons_append, List.nil_append, string?, hread]
    rfl
  · rename_i hquote hslash _ _ _ _ _ hhigh
    simp only [List.cons_append, List.nil_append, string?, if_neg hquote, if_neg hslash,
      if_neg hhigh]

theorem string?_flatMap {fuel : Nat} {text : List Char} (hfuel : text.length < fuel)
    (taken : List Char) (rest : List Char) :
    string? fuel (some taken) (text.flatMap escaped ++ '"' :: rest) =
      some (some (String.ofList (taken.reverse ++ text)), rest) := by
  induction text generalizing fuel taken with
  | nil =>
      obtain ⟨fuel, rfl⟩ := Nat.exists_eq_add_of_lt hfuel
      simp [string?]
  | cons c text ih =>
      obtain ⟨fuel, rfl⟩ : ∃ more, fuel = more + 1 := ⟨fuel - 1, by simp at hfuel; omega⟩
      rw [List.flatMap_cons, List.append_assoc, string?_escaped, Option.map_some,
        ih (by simpa using hfuel)]
      simp

end Texts

mutual

/-- Whether all numbers are literals and all texts hold whole characters. -/
def Plain : Json → Prop
  | .null | .bool _ => True
  | .number literal => number? literal.toList = some (literal.toList, [])
  | .string text => text.isSome = true
  | .array items => PlainItems items
  | .object members => PlainMembers members

def PlainItems : List Json → Prop
  | [] => True
  | item :: rest => Plain item ∧ PlainItems rest

def PlainMembers : List (Option String × Json) → Prop
  | [] => True
  | (key, value) :: rest => key.isSome = true ∧ Plain value ∧ PlainMembers rest

end

section Values

theorem skipSpace_cons {c : Char} (hc : isSpace c = false) (text : List Char) :
    skipSpace (c :: text) = c :: text := by
  simp [skipSpace, List.dropWhile, hc]

/-- What a number begins with. -/
def Begins (c : Char) : Prop :=
  c = '-' ∨ isDigit c = true

theorem begins_of_number? {c : Char} {text : List Char} {parts : List Char × List Char}
    (hread : number? (c :: text) = some parts) : Begins c := by
  by_cases hminus : c = '-'
  · exact .inl hminus
  · right
    rw [number?_of_ne hminus] at hread
    simp only [magnitude?, Option.bind_eq_bind, Option.bind_eq_some_iff] at hread
    obtain ⟨whole, hwhole, _⟩ := hread
    cases hc : isDigit c with
    | true => rfl
    | false => simp [digits?, List.takeWhile, hc] at hwhole

theorem not_begins_of_ne {c : Char} (hc : c ≠ '-') (hdigit : isDigit c = false) : ¬ Begins c := by
  rintro (rfl | hbegins)
  · exact hc rfl
  · rw [hdigit] at hbegins
    cases hbegins

theorem isSpace_of_begins {c : Char} (hc : Begins c) : isSpace c = false := by
  cases hspace : isSpace c with
  | false => rfl
  | true =>
      simp only [isSpace, Bool.or_eq_true, beq_iff_eq] at hspace
      rcases hspace with ((rfl | rfl) | rfl) | rfl
      all_goals exact absurd hc (not_begins_of_ne (by decide) (by decide))

theorem value?_of_begins {c : Char} (hc : Begins c) (fuel : Nat) (text : List Char) :
    value? (fuel + 1) (c :: text) =
      (number? (c :: text)).map fun parts => (.number (String.ofList parts.1), parts.2) := by
  simp only [value?, skipSpace_cons (isSpace_of_begins hc)]
  split
  iterate 6
    rename_i heq
    cases heq
    exact absurd hc (not_begins_of_ne (by decide) (by decide))
  rfl

theorem exists_head {value : Json} (hplain : Plain value) :
    ∃ c text, compactChars value = c :: text ∧ isSpace c = false ∧ c ≠ ']' := by
  cases value with
  | null => exact ⟨'n', _, rfl, by decide, by decide⟩
  | bool b =>
      cases b with
      | false => exact ⟨'f', _, rfl, by decide, by decide⟩
      | true => exact ⟨'t', _, rfl, by decide, by decide⟩
  | number literal =>
      simp only [Plain] at hplain
      cases hliteral : literal.toList with
      | nil =>
          rw [hliteral] at hplain
          cases hplain
      | cons c text =>
          rw [hliteral] at hplain
          have hbegins := begins_of_number? hplain
          refine ⟨c, text, by rw [compactChars, hliteral], isSpace_of_begins hbegins, ?_⟩
          rintro rfl
          exact absurd hbegins (not_begins_of_ne (by decide) (by decide))
  | string text => exact ⟨'"', _, rfl, by decide, by decide⟩
  | array items => exact ⟨'[', _, rfl, by decide, by decide⟩
  | object members => exact ⟨'\x7b', _, rfl, by decide, by decide⟩

theorem one_le_length_escaped (c : Char) : 1 ≤ (escaped c).length := by
  rw [escaped]
  repeat
    split
    · exact Nat.le_add_left _ _
  exact Nat.le_refl _

theorem length_le_length_flatMap (text : List Char) :
    text.length ≤ (text.flatMap escaped).length := by
  induction text with
  | nil => exact Nat.le_refl _
  | cons c text ih =>
      have hc := one_le_length_escaped c
      simp only [List.flatMap_cons, List.length_cons, List.length_append]
      omega

theorem string?_stringText {text : Option String} (htext : text.isSome = true) (rest : List Char) :
    ∃ chars, stringText text ++ rest = '"' :: chars ∧
      ∀ fuel, (stringText text).length ≤ fuel →
        string? fuel (some []) chars = some (text, rest) := by
  obtain ⟨text, rfl⟩ := Option.isSome_iff_exists.mp htext
  refine ⟨text.toList.flatMap escaped ++ '"' :: rest, by simp [stringText, quoted], ?_⟩
  intro fuel hfuel
  have hescaped := length_le_length_flatMap text.toList
  have hlength : text.toList.length < fuel := by
    simp only [stringText, quoted, Option.getD_some, List.length_cons, List.length_append,
      List.length_nil] at hfuel
    omega
  rw [string?_flatMap hlength]
  simp

section Steps

variable {fuel : Nat} {text rest : List Char}

theorem value?_array {c : Char} (hspace : isSpace c = false) (hc : c ≠ ']') :
    value? (fuel + 1) ('[' :: c :: text) = items? fuel [] (c :: text) := by
  have hopen : skipSpace ('[' :: c :: text) = '[' :: c :: text := rfl
  simp only [value?, hopen, skipSpace_cons hspace]
  split
  · rename_i heq
    cases heq
    exact absurd rfl hc
  · rfl

theorem value?_object :
    value? (fuel + 1) ('\x7b' :: '"' :: text) = members? fuel [] ('"' :: text) :=
  rfl

theorem items?_last {item : Json} {read : List Json}
    (hitem : value? fuel text = some (item, ']' :: rest)) :
    items? (fuel + 1) read text = some (.array (item :: read).reverse, rest) := by
  rw [items?, hitem]
  rfl

theorem items?_more {item : Json} {read : List Json}
    (hitem : value? fuel text = some (item, ',' :: rest)) :
    items? (fuel + 1) read text = items? fuel (item :: read) rest := by
  rw [items?, hitem]
  rfl

variable {key : Option String} {value : Json} {read : List (Option String × Json)}
  {afterKey : List Char}

theorem members?_last (hkey : string? fuel (some []) text = some (key, ':' :: afterKey))
    (hvalue : value? fuel afterKey = some (value, '\x7d' :: rest)) :
    members? (fuel + 1) read ('"' :: text) =
      some (.object ((key, value) :: read).reverse, rest) := by
  have hopen : skipSpace ('"' :: text) = '"' :: text := rfl
  have hcolon : skipSpace (':' :: afterKey) = ':' :: afterKey := rfl
  have hclose : skipSpace ('\x7d' :: rest) = '\x7d' :: rest := rfl
  simp only [members?, hopen, hkey, hcolon, hvalue, hclose]

theorem members?_more (hkey : string? fuel (some []) text = some (key, ':' :: afterKey))
    (hvalue : value? fuel afterKey = some (value, ',' :: rest)) :
    members? (fuel + 1) read ('"' :: text) = members? fuel ((key, value) :: read) rest := by
  have hopen : skipSpace ('"' :: text) = '"' :: text := rfl
  have hcolon : skipSpace (':' :: afterKey) = ':' :: afterKey := rfl
  have hcomma : skipSpace (',' :: rest) = ',' :: rest := rfl
  simp only [members?, hopen, hkey, hcolon, hvalue, hcomma]

end Steps

theorem ends_comma (rest : List Char) : Ends (',' :: rest) :=
  ends_cons (by decide)

theorem ends_bracket (rest : List Char) : Ends (']' :: rest) :=
  ends_cons (by decide)

theorem ends_brace (rest : List Char) : Ends ('\x7d' :: rest) :=
  ends_cons (by decide)

theorem joined_cons (text : List Char) (pieces : List (List Char)) (c : Char) :
    ∃ later, joined ((c :: text) :: pieces) = c :: later := by
  cases pieces with
  | nil => exact ⟨text, rfl⟩
  | cons piece pieces => exact ⟨_, rfl⟩

mutual

theorem value?_compactChars : ∀ (value : Json) (fuel : Nat) (rest : List Char), Plain value →
    Ends rest → 2 * (compactChars value).length ≤ fuel + 1 →
      value? (fuel + 1) (compactChars value ++ rest) = some (value, rest)
  | .null, fuel, rest, _, _, _ => rfl
  | .bool b, fuel, rest, _, _, _ => by cases b <;> rfl
  | .number literal, fuel, rest, hplain, hends, _ => by
      obtain ⟨c, text, hchars, _, _⟩ := exists_head hplain
      have hliteral : literal.toList = c :: text := hchars
      rw [Plain, hliteral] at hplain
      rw [hchars, List.cons_append, value?_of_begins (begins_of_number? hplain),
        ← List.cons_append, local_number? hends hplain, ← hliteral]
      simp
  | .string text, fuel, rest, hplain, _, hfuel => by
      obtain ⟨chars, hchars, hread⟩ := string?_stringText hplain rest
      have hvalue : value? (fuel + 1) ('"' :: chars) =
          (string? fuel (some []) chars).map fun parts => (.string parts.1, parts.2) := rfl
      rw [compactChars] at hfuel ⊢
      have hlength : 1 ≤ (stringText text).length := Nat.le_add_left _ _
      rw [hchars, hvalue, hread fuel (by omega)]
      rfl
  | .array [], fuel, rest, _, _, _ => rfl
  | .array (item :: items), fuel, rest, hplain, _, hfuel => by
      obtain ⟨c, text, hchars, hspace, hc⟩ := exists_head hplain.1
      obtain ⟨later, hjoined⟩ := joined_cons text (compactItems items) c
      -- The fuel is enough for the items, as the brackets take some of it.
      have hitems := items?_joined (item :: items) (List.cons_ne_nil _ _) fuel [] rest hplain (by
        simp only [compactChars, List.length_cons, List.length_append, List.length_nil] at hfuel
        omega)
      rw [compactItems, hchars, hjoined] at hitems
      have htext : compactChars (.array (item :: items)) ++ rest =
          '[' :: c :: (later ++ ']' :: rest) := by
        simp [compactChars, compactItems, hchars, hjoined]
      rw [htext, value?_array hspace hc]
      exact hitems
  | .object [], fuel, rest, _, _, _ => rfl
  | .object ((key, value) :: members), fuel, rest, hplain, _, hfuel => by
      obtain ⟨later, hjoined⟩ := joined_cons
        (((key.getD "").toList.flatMap escaped ++ ['"']) ++ ':' :: compactChars value)
        (compactMembers members) '"'
      have hmembers := members?_joined ((key, value) :: members) (List.cons_ne_nil _ _) fuel []
        rest hplain (by
          simp only [compactChars, List.length_cons, List.length_append, List.length_nil] at hfuel
          omega)
      have hpiece : joined (compactMembers ((key, value) :: members)) = '"' :: later := by
        rw [← hjoined]
        rfl
      rw [hpiece] at hmembers
      have htext : compactChars (.object ((key, value) :: members)) ++ rest =
          '\x7b' :: '"' :: (later ++ '\x7d' :: rest) := by
        simp [compactChars, hpiece]
      rw [htext, value?_object]
      exact hmembers

theorem items?_joined : ∀ items : List Json, items ≠ [] → ∀ (fuel : Nat) (read : List Json)
    (rest : List Char), PlainItems items → 2 * (joined (compactItems items)).length + 1 ≤ fuel →
      items? fuel read (joined (compactItems items) ++ ']' :: rest) =
        some (.array (read.reverse ++ items), rest)
  | [], hitems, _, _, _, _, _ => absurd rfl hitems
  | item :: items, _, fuel, read, rest, hplain, hfuel => by
      have hread := value?_compactChars item
      have hrest := items?_joined items
      obtain ⟨c, text, hchars, _, _⟩ := exists_head hplain.1
      have hlength : (compactChars item).length = text.length + 1 := by rw [hchars]; rfl
      cases items with
      | nil =>
          simp only [compactItems, joined] at hfuel ⊢
          obtain ⟨fuel, rfl⟩ : ∃ more, fuel = more + 1 + 1 := ⟨fuel - 2, by omega⟩
          rw [items?_last (hread fuel _ hplain.1 (ends_bracket rest) (by omega))]
          simp
      | cons next items =>
          have hjoined : joined (compactItems (item :: next :: items)) =
              compactChars item ++ ',' :: joined (compactItems (next :: items)) := rfl
          rw [hjoined] at hfuel ⊢
          simp only [List.length_append, List.length_cons] at hfuel
          obtain ⟨fuel, rfl⟩ : ∃ more, fuel = more + 1 + 1 := ⟨fuel - 2, by omega⟩
          rw [List.append_assoc, List.cons_append,
            items?_more (hread fuel _ hplain.1 (ends_comma _) (by omega)),
            hrest (List.cons_ne_nil _ _) (fuel + 1) (item :: read) rest hplain.2 (by omega)]
          simp

theorem members?_joined : ∀ members : List (Option String × Json), members ≠ [] → ∀ (fuel : Nat)
    (read : List (Option String × Json)) (rest : List Char), PlainMembers members →
    2 * (joined (compactMembers members)).length + 1 ≤ fuel →
      members? fuel read (joined (compactMembers members) ++ '\x7d' :: rest) =
        some (.object (read.reverse ++ members), rest)
  | [], hmembers, _, _, _, _, _ => absurd rfl hmembers
  | (key, value) :: members, _, fuel, read, rest, hplain, hfuel => by
      have hread := value?_compactChars value
      have hrest := members?_joined members
      obtain ⟨hkey, hvalue, hmembers⟩ := hplain
      cases members with
      | nil =>
          simp only [compactMembers, joined, List.length_append, List.length_cons] at hfuel ⊢
          obtain ⟨fuel, rfl⟩ : ∃ more, fuel = more + 1 + 1 := ⟨fuel - 2, by omega⟩
          obtain ⟨chars, hchars, hstring⟩ :=
            string?_stringText hkey (':' :: (compactChars value ++ '\x7d' :: rest))
          rw [List.append_assoc, List.cons_append, hchars, members?_last (hstring _ (by omega))
            (hread fuel _ hvalue (ends_brace rest) (by omega))]
          simp
      | cons next members =>
          have hjoined : joined (compactMembers ((key, value) :: next :: members)) =
              (stringText key ++ ':' :: compactChars value) ++
                ',' :: joined (compactMembers (next :: members)) := rfl
          rw [hjoined] at hfuel ⊢
          simp only [List.length_append, List.length_cons] at hfuel
          obtain ⟨fuel, rfl⟩ : ∃ more, fuel = more + 1 + 1 := ⟨fuel - 2, by omega⟩
          obtain ⟨chars, hchars, hstring⟩ := string?_stringText hkey (':' :: (compactChars value ++
            ',' :: (joined (compactMembers (next :: members)) ++ '\x7d' :: rest)))
          simp only [List.append_assoc, List.cons_append]
          rw [hchars, members?_more (hstring _ (by omega))
              (hread fuel _ hvalue (ends_comma _) (by omega)),
            hrest (List.cons_ne_nil _ _) (fuel + 1) ((key, value) :: read) rest hmembers (by omega)]
          simp

end

/-- Reading a text gives back the value that it was written for. -/
theorem parse?_compact {value : Json} (hplain : Plain value) :
    parse? (compact value) = some value := by
  have hchars : (compact value).toList = compactChars value := String.toList_ofList
  have hread := value?_compactChars value (2 * (compactChars value).length + 1) [] hplain ends_nil
    (by omega)
  rw [List.append_nil] at hread
  simp only [parse?, hchars, hread]
  rfl

end Values

end MappedMetrics.Proofs.JsonText
