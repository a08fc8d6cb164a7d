import MappedMetrics.Text.Shapeless

/-!
Quoted text for messages: control characters, quotes and characters without a shape of their own
are written as escapes.
-/

namespace MappedMetrics.Text

/-- The digits of a number in base sixteen, lower case. -/
def hexText (n : Nat) : List Char :=
  Nat.toDigits 16 n

/-- A character between quotes, where the quote itself is escaped as well. -/
def escapedIn (quote c : Char) : List Char :=
  if c == '\x00' then ['\\', '0']
  else if c == '\t' then ['\\', 't']
  else if c == '\r' then ['\\', 'r']
  else if c == '\n' then ['\\', 'n']
  else if c == '\\' || c == quote then ['\\', c]
  else if isShapeless c then '\\' :: 'u' :: '\x7b' :: (hexText c.toNat ++ ['\x7d'])
  else [c]

def quoted (text : String) : String :=
  String.ofList ('"' :: (text.toList.flatMap (escapedIn '"') ++ ['"']))

def quotedChar (c : Char) : String :=
  String.ofList ('\'' :: (escapedIn '\'' c ++ ['\'']))

end MappedMetrics.Text
