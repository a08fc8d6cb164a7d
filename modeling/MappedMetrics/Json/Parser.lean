import MappedMetrics.Json
import MappedMetrics.Decimal.Reader

/-!
JSON text read strictly: one value between blanks, with no comment, no trailing comma and no text
after it.
-/

namespace MappedMetrics.Json

open MappedMetrics.Decimal (isDigit)

def isSpace (c : Char) : Bool :=
  c == ' ' || c == '\t' || c == '\n' || c == '\r'

def skipSpace (text : List Char) : List Char :=
  text.dropWhile isSpace

/-- At least one digit, and the rest. -/
def digits? (text : List Char) : Option (List Char × List Char) :=
  let run := text.takeWhile isDigit
  if run.isEmpty then none else some (run, text.dropWhile isDigit)

/-- A point with at least one digit, if a point is next. -/
def fraction? : List Char → Option (List Char × List Char)
  | '.' :: text => (digits? text).map fun parts => ('.' :: parts.1, parts.2)
  | text => some ([], text)

/-- An exponent, if its mark is next. -/
def exponent? : List Char → Option (List Char × List Char)
  | mark :: text =>
      if mark == 'e' || mark == 'E' then
        match text with
        | '+' :: text => (digits? text).map fun parts => (mark :: '+' :: parts.1, parts.2)
        | '-' :: text => (digits? text).map fun parts => (mark :: '-' :: parts.1, parts.2)
        | text => (digits? text).map fun parts => (mark :: parts.1, parts.2)
      else some ([], mark :: text)
  | [] => some ([], [])

/-- A number without its sign: no zero stands before another digit. -/
def magnitude? (text : List Char) : Option (List Char × List Char) := do
  let (whole, text) ← digits? text
  if whole.length ≠ 1 ∧ whole.head? = some '0' then none
  else
    let (fraction, text) ← fraction? text
    let (exponent, text) ← exponent? text
    some (whole ++ (fraction ++ exponent), text)

/-- The literal of a number, and the rest. -/
def number? : List Char → Option (List Char × List Char)
  | '-' :: text => (magnitude? text).map fun parts => ('-' :: parts.1, parts.2)
  | text => magnitude? text

def hexDigit? (c : Char) : Option Nat :=
  if '0' ≤ c ∧ c ≤ '9' then some (c.toNat - 48)
  else if 'a' ≤ c ∧ c ≤ 'f' then some (c.toNat - 87)
  else if 'A' ≤ c ∧ c ≤ 'F' then some (c.toNat - 55)
  else none

/-- The four hexadecimal digits of an escape, and the rest. -/
def codeUnit? : List Char → Option (Nat × List Char)
  | a :: b :: c :: d :: rest => do
      let a ← hexDigit? a
      let b ← hexDigit? b
      let c ← hexDigit? c
      let d ← hexDigit? d
      some (((a * 16 + b) * 16 + c) * 16 + d, rest)
  | _ => none

def simpleEscape? : Char → Option Char
  | '"' => some '"'
  | '\\' => some '\\'
  | '/' => some '/'
  | 'b' => some '\x08'
  | 'f' => some '\x0c'
  | 'n' => some '\n'
  | 'r' => some '\r'
  | 't' => some '\t'
  | _ => none

/-- The character of the escape that follows a backslash, absent for half of a surrogate pair. -/
def escape? : List Char → Option (Option Char × List Char)
  | 'u' :: text => do
      let (unit, rest) ← codeUnit? text
      if 0xD800 ≤ unit ∧ unit < 0xDC00 then
        match rest with
        | '\\' :: 'u' :: after => do
            let (second, after) ← codeUnit? after
            if 0xDC00 ≤ second ∧ second < 0xE000 then
              let point := 0x10000 + (unit - 0xD800) * 0x400 + (second - 0xDC00)
              some (some (Char.ofNat point), after)
            else some (none, rest)
        | _ => some (none, rest)
      else if 0xDC00 ≤ unit ∧ unit < 0xE000 then some (none, rest)
      else some (some (Char.ofNat unit), rest)
  | c :: rest => (simpleEscape? c).map fun c => (some c, rest)
  | [] => none

/-- A text after its opening quote, and the rest, given the characters already read in reverse.
The text is absent as soon as one of its characters is. Each step of the fuel is a character. -/
def string? : Nat → Option (List Char) → List Char → Option (Option String × List Char)
  | 0, _, _ => none
  | _ + 1, _, [] => none
  | fuel + 1, taken, c :: rest =>
      if c == '"' then some (taken.map fun taken => String.ofList taken.reverse, rest)
      else if c == '\\' then
        match escape? rest with
        | some (some c, rest) => string? fuel (taken.map (c :: ·)) rest
        | some (none, rest) => string? fuel none rest
        | none => none
      else if c.toNat < 0x20 then none
      else string? fuel (taken.map (c :: ·)) rest

def keyword? (word : String) (value : Json) (text : List Char) : Option (Json × List Char) :=
  if word.toList.isPrefixOf text then some (value, text.drop word.length) else none

mutual

/-- A value, and the rest. Each step of the fuel is a value, an item, a member or a character of a
text. -/
def value? : Nat → List Char → Option (Json × List Char)
  | 0, _ => none
  | fuel + 1, text =>
      match skipSpace text with
      | '\x7b' :: rest =>
          match skipSpace rest with
          | '\x7d' :: rest => some (.object [], rest)
          | rest => members? fuel [] rest
      | '[' :: rest =>
          match skipSpace rest with
          | ']' :: rest => some (.array [], rest)
          | rest => items? fuel [] rest
      | '"' :: rest => (string? fuel (some []) rest).map fun parts => (.string parts.1, parts.2)
      | 'n' :: rest => keyword? "null" .null ('n' :: rest)
      | 't' :: rest => keyword? "true" (.bool true) ('t' :: rest)
      | 'f' :: rest => keyword? "false" (.bool false) ('f' :: rest)
      | rest => (number? rest).map fun parts => (.number (String.ofList parts.1), parts.2)

/-- The items of an array up to its closing bracket, after those already read. -/
def items? : Nat → List Json → List Char → Option (Json × List Char)
  | 0, _, _ => none
  | fuel + 1, read, text =>
      match value? fuel text with
      | none => none
      | some (item, rest) =>
          match skipSpace rest with
          | ',' :: rest => items? fuel (item :: read) rest
          | ']' :: rest => some (.array (item :: read).reverse, rest)
          | _ => none

/-- The members of an object up to its closing brace, after those already read. -/
def members? : Nat → List (Option String × Json) → List Char → Option (Json × List Char)
  | 0, _, _ => none
  | fuel + 1, read, text =>
      match skipSpace text with
      | '"' :: rest =>
          match string? fuel (some []) rest with
          | none => none
          | some (key, rest) =>
              match skipSpace rest with
              | ':' :: rest =>
                  match value? fuel rest with
                  | none => none
                  | some (value, rest) =>
                      match skipSpace rest with
                      | ',' :: rest => members? fuel ((key, value) :: read) rest
                      | '\x7d' :: rest => some (.object ((key, value) :: read).reverse, rest)
                      | _ => none
              | _ => none
      | _ => none

end

/-- The value of a whole text. Whatever takes a step of the fuel also takes a character, and no
character is taken by more than two steps, so twice the length is fuel enough. -/
def parse? (text : String) : Option Json :=
  let chars := text.toList
  match value? (2 * chars.length + 2) chars with
  | some (value, rest) => if (skipSpace rest).isEmpty then some value else none
  | none => none

end MappedMetrics.Json
