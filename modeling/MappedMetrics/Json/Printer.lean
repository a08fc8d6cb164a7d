import MappedMetrics.Json

namespace MappedMetrics.Json

/-- The lower-case hexadecimal digit of a number below sixteen. -/
def hexDigit (n : Nat) : Char :=
  Nat.digitChar (n % 16)

/-- A character inside quotes: quotes, backslashes and control characters are escaped. -/
def escaped (c : Char) : List Char :=
  if c == '"' then ['\\', '"']
  else if c == '\\' then ['\\', '\\']
  else if c == '\x08' then ['\\', 'b']
  else if c == '\x0c' then ['\\', 'f']
  else if c == '\n' then ['\\', 'n']
  else if c == '\r' then ['\\', 'r']
  else if c == '\t' then ['\\', 't']
  else if c.toNat < 0x20 then ['\\', 'u', '0', '0', hexDigit (c.toNat / 16), hexDigit c.toNat]
  else [c]

def quoted (text : String) : List Char :=
  '"' :: (text.toList.flatMap escaped ++ ['"'])

/-- A text that no escape could give is written as an empty one. -/
def stringText (text : Option String) : List Char :=
  quoted (text.getD "")

/-- Pieces with a comma between each two. -/
def joined : List (List Char) → List Char
  | [] => []
  | [piece] => piece
  | piece :: rest => piece ++ ',' :: joined rest

mutual

def compactChars : Json → List Char
  | .null => "null".toList
  | .bool b => if b then "true".toList else "false".toList
  | .number literal => literal.toList
  | .string text => stringText text
  | .array items => '[' :: (joined (compactItems items) ++ [']'])
  | .object members => '\x7b' :: (joined (compactMembers members) ++ ['\x7d'])

def compactItems : List Json → List (List Char)
  | [] => []
  | item :: rest => compactChars item :: compactItems rest

def compactMembers : List (Option String × Json) → List (List Char)
  | [] => []
  | (key, value) :: rest => (stringText key ++ ':' :: compactChars value) :: compactMembers rest

end

def compact (value : Json) : String :=
  String.ofList (compactChars value)

/-- A new line at a depth of two blanks a level. -/
def lineBreak (depth : Nat) : List Char :=
  '\n' :: List.replicate (2 * depth) ' '

/-- Pieces each on a line of its own between two brackets; no pieces leave the brackets empty. -/
def bracketed (opening closing : Char) (depth : Nat) (pieces : List (List Char)) : List Char :=
  if pieces.isEmpty then [opening, closing]
  else
    opening :: (joined (pieces.map (lineBreak (depth + 1) ++ ·)) ++ (lineBreak depth ++ [closing]))

mutual

def indentedChars (depth : Nat) : Json → List Char
  | .null => "null".toList
  | .bool b => if b then "true".toList else "false".toList
  | .number literal => literal.toList
  | .string text => stringText text
  | .array items => bracketed '[' ']' depth (indentedItems (depth + 1) items)
  | .object members => bracketed '\x7b' '\x7d' depth (indentedMembers (depth + 1) members)

def indentedItems (depth : Nat) : List Json → List (List Char)
  | [] => []
  | item :: rest => indentedChars depth item :: indentedItems depth rest

def indentedMembers (depth : Nat) : List (Option String × Json) → List (List Char)
  | [] => []
  | (key, value) :: rest =>
      (stringText key ++ ':' :: ' ' :: indentedChars depth value) :: indentedMembers depth rest

end

/-- The text with each item and each member on a line of its own. -/
def indented (value : Json) : String :=
  String.ofList (indentedChars 0 value)

end MappedMetrics.Json
