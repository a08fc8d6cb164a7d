/-!
JSON values as they are written: numbers keep their literal text, and members of an object keep
their order and their repetitions.
-/

namespace MappedMetrics

/-- A JSON value. A text is absent where an escape stands for half of a surrogate pair, because
no text holds such a character. -/
inductive Json where
  | null
  | bool (b : Bool)
  | number (literal : String)
  | string (text : Option String)
  | array (items : List Json)
  | object (members : List (Option String × Json))

namespace Json

def str (text : String) : Json :=
  .string (some text)

def ofNat (n : Nat) : Json :=
  .number (toString n)

def ofInt (n : Int) : Json :=
  .number (toString n)

def obj (members : List (String × Json)) : Json :=
  .object (members.map fun member => (some member.1, member.2))

/-- The first member of an object with a given key. -/
def get? (key : String) : Json → Option Json
  | .object members => (members.find? fun member => member.1 == some key).map (·.2)
  | _ => none

end Json

end MappedMetrics
