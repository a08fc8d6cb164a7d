import MappedMetrics.Json

namespace MappedMetrics.Json

/-- Puts a member before the first one with a greater key. -/
def insertMember (member : Option String × Json) :
    List (Option String × Json) → List (Option String × Json)
  | [] => [member]
  | next :: rest =>
      if member.1.getD "" < next.1.getD "" then member :: next :: rest
      else next :: insertMember member rest

mutual

/-- The value with the members of every object in order of their keys. -/
def sorted : Json → Json
  | .array items => .array (sortedItems items)
  | .object members => .object (sortedMembers members)
  | value => value

def sortedItems : List Json → List Json
  | [] => []
  | item :: rest => sorted item :: sortedItems rest

def sortedMembers : List (Option String × Json) → List (Option String × Json)
  | [] => []
  | (key, value) :: rest => insertMember (key, sorted value) (sortedMembers rest)

end

end MappedMetrics.Json
