import MappedMetrics.Handler

namespace MappedMetrics

/-- At most one handler for each kind. -/
structure Registry where
  entries : List (Kind × Handler)
  nodup : (entries.map (·.1)).Nodup

namespace Registry

def empty : Registry :=
  ⟨[], List.nodup_nil⟩

def register (registry : Registry) (kind : Kind) (handler : Handler) : Registry where
  entries := (kind, handler) :: registry.entries.filter fun entry => entry.1 ≠ kind
  nodup := by
    rw [List.map_cons, List.nodup_cons]
    constructor
    · simp
    · exact (List.Sublist.map _ List.filter_sublist).nodup registry.nodup

def get? (registry : Registry) (kind : Kind) : Option Handler :=
  (registry.entries.find? fun entry => entry.1 = kind).map (·.2)

/-- The handler of a kind, or the refusal that names the kind. -/
def resolve (registry : Registry) (kind : Kind) : Outcome Handler :=
  match registry.get? kind with
  | some handler => .ok handler
  | none => (ConfigurationError.noHandler kind).refuse

def size (registry : Registry) : Nat :=
  registry.entries.length

def standard : Registry :=
  (Kind.all.foldl
    (fun registry kind =>
      match Handler.numeric? kind with
      | some handler => registry.register kind handler
      | none => registry)
    empty).register .str Handler.standardText

theorem get?_register_self (registry : Registry) (kind : Kind) (handler : Handler) :
    (registry.register kind handler).get? kind = some handler := by
  simp [register, get?]

theorem get?_register_of_ne (registry : Registry) {kind other : Kind} (handler : Handler)
    (h : other ≠ kind) : (registry.register kind handler).get? other = registry.get? other := by
  have differs : ¬kind = other := fun same => h same.symm
  simp only [register, get?, List.find?_cons, differs, decide_false, List.find?_filter]
  congr 2
  funext entry
  by_cases same : entry.1 = other
  · simp [same, h]
  · simp [same]

end Registry

end MappedMetrics
