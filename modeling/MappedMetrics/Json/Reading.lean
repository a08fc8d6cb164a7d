import MappedMetrics.Json.Number

namespace MappedMetrics.Json

/-- The text of a string that holds whole characters. -/
def text? : Json → Option String
  | .string text => text
  | _ => none

def bool? : Json → Option Bool
  | .bool b => some b
  | _ => none

def numberValue? : Json → Option Number
  | .number literal => Number.ofLiteral? literal
  | _ => none

/-- An integer of a range. -/
def integer? (low high : Int) (value : Json) : Option Int :=
  match value.numberValue? with
  | some (.integer n) => if low ≤ n ∧ n ≤ high then some n else none
  | _ => none

/-- The items of an array, each read on its own. -/
def list? {α : Type} (read : Json → Option α) : Json → Option (List α)
  | .array items => items.mapM read
  | _ => none

/-- A name of a fixed list: a string, or an object whose only member has that key and is null. -/
def name? : Json → Option String
  | .string text => text
  | .object [(some key, .null)] => some key
  | _ => none

/-- The fields of a record that are present, by key. -/
structure Fields where
  present : List (String × Json)

def Fields.get? (fields : Fields) (key : String) : Option Json :=
  (fields.present.find? fun field => field.1 == key).map (·.2)

/-- A field that may be left out. -/
def Fields.orElse? {α : Type} (fields : Fields) (key : String) (standard : α)
    (read : Json → Option α) : Option α :=
  match fields.get? key with
  | some value => read value
  | none => some standard

/-- Keeps the members with a known key. A repeated known key is refused, and so is a key that is
no text. -/
def knownFields? (keys : List String) :
    List (Option String × Json) → Option (List (String × Json))
  | [] => some []
  | (none, _) :: _ => none
  | (some key, value) :: rest => do
      let kept ← knownFields? keys rest
      if keys.contains key then
        if kept.any (·.1 == key) then none else some ((key, value) :: kept)
      else some kept

/-- The fields of a record: an object with any further members, or an array of the fields in
order, which may leave out fields at its end. -/
def fields? (keys : List String) : Json → Option Fields
  | .object members => (knownFields? keys members).map Fields.mk
  | .array items => if items.length ≤ keys.length then some ⟨keys.zip items⟩ else none
  | _ => none

end MappedMetrics.Json
