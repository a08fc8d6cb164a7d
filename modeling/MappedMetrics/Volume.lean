import MappedMetrics.Error
import MappedMetrics.Image
import MappedMetrics.Text.Utf8

namespace MappedMetrics

open MappedMetrics.Text

inductive Node where
  | directory
  | file (contents : Image)
deriving DecidableEq

/-- A place in the tree: the names from the working directory on. Outside that directory a place
begins with `..` for each step up, or with a stroke where the names count from the root on. -/
abbrev Place := List String

namespace Place

def home : Place := []

def root : Place := ["/"]

/-- Whether a place is the root, the working directory, or one of those above it. -/
def isAbove (place : Place) : Bool :=
  place == root || place.all (· == "..")

/-- The place that two points lead to. -/
def parent (place : Place) : Place :=
  if place = root then root
  else if place.isAbove then place ++ [".."]
  else place.dropLast

end Place

/-- The places in use besides those that are always directories. -/
structure Volume where
  nodes : List (Place × Node)

namespace Volume

def empty : Volume := ⟨[]⟩

def node? (volume : Volume) (place : Place) : Option Node :=
  if place.isAbove then some .directory
  else (volume.nodes.find? fun entry => entry.1 = place).map (·.2)

/-- Puts a node at a place, in the order of first use. -/
def put (volume : Volume) (place : Place) (node : Node) : Volume :=
  if volume.nodes.any fun entry => entry.1 = place then
    ⟨volume.nodes.map fun entry => if entry.1 = place then (place, node) else entry⟩
  else ⟨volume.nodes ++ [(place, node)]⟩

def remove (volume : Volume) (place : Place) : Volume :=
  ⟨volume.nodes.filter fun entry => !place.isPrefixOf entry.1⟩

/-- The contents of a file, empty at any other place. -/
def contents (volume : Volume) (place : Place) : Image :=
  match volume.node? place with
  | some (.file contents) => contents
  | _ => .zeros 0

/-- The greatest length of a name in bytes. -/
def maxName : Nat := 255

/-- The least length of a path in bytes that is refused. -/
def pathBound : Nat := 4096

/-- The greatest length of a file in bytes: all blocks of 4096 bytes but the last that numbers of 32
bits count. -/
def maxLength : Nat := 4096 * (2 ^ 32 - 1)

/-- Goes from a directory through names, each of which must lead to a directory. -/
def walk (volume : Volume) : Place → List String → Except PathFlaw Place
  | place, [] => .ok place
  | place, name :: rest =>
      if name = "" ∨ name = "." then walk volume place rest
      else if name = ".." then walk volume place.parent rest
      else if maxName < (utf8 name).length then .error .tooLong
      else
        match volume.node? (place ++ [name]) with
        | none => .error .missing
        | some (.file _) => .error .notDirectory
        | some .directory => walk volume (place ++ [name]) rest

/-- A path as the place that it starts from and its names: those of the directories to go through
and the last one, which may be followed by strokes. A path of strokes alone has no last name. -/
structure Route where
  start : Place
  above : List String
  last : String
  endsWithStroke : Bool
deriving DecidableEq, Repr

/-- The names of a path, once its form is checked. -/
def route (path : String) : Except PathFlaw Route :=
  if path.toList.contains '\x00' then .error .nul
  else if path = "" then .error .missing
  else if pathBound ≤ (utf8 path).length then .error .tooLong
  else
    let parts := path.splitOn "/"
    let start := if parts.head? = some "" then Place.root else Place.home
    let names := parts.reverse.dropWhile (· == "")
    .ok ⟨start, (names.drop 1).reverse, names.head?.getD "", names.length < parts.length⟩

/-- The directory of a route and the place below it that the last name stands for, absent where the
last name leads to a directory by itself. -/
def locate (volume : Volume) (route : Route) : Except PathFlaw (Option Place) := do
  let place ← volume.walk route.start route.above
  if route.last = "" ∨ route.last = "." ∨ route.last = ".." then .ok none
  else .ok (some (place ++ [route.last]))

def checkLast (route : Route) : Except PathFlaw Unit :=
  if maxName < (utf8 route.last).length then .error .tooLong else .ok ()

/-- The contents of the file that a path names. -/
def read (volume : Volume) (path : String) : Except PathFlaw Image := do
  let route ← route path
  match ← volume.locate route with
  | none => .error .isDirectory
  | some place => do
      checkLast route
      match volume.node? place with
      | none => .error .missing
      | some .directory => .error .isDirectory
      | some (.file contents) =>
          if route.endsWithStroke then .error .notDirectory else .ok contents

/-- Writes a file in place of whatever file was there. A path that ends with a stroke names a
directory, whether or not it is there. -/
def write (volume : Volume) (path : String) (contents : Image) :
    Except PathFlaw (Volume × Place) := do
  let route ← route path
  match ← volume.locate route with
  | none => .error .isDirectory
  | some place =>
      if route.endsWithStroke then .error .isDirectory
      else do
        checkLast route
        match volume.node? place with
        | some .directory => .error .isDirectory
        | _ => .ok (volume.put place (.file contents), place)

/-- Goes from a directory through names, and makes the directories that are missing, up to a name
that is no directory's. What was made until then stays. -/
def makeFrom (volume : Volume) (place : Place) : List String → Volume × Except PathFlaw Place
  | [] => (volume, .ok place)
  | name :: rest =>
      if name = ".." then volume.makeFrom place.parent rest
      else if maxName < (utf8 name).length then (volume, .error .tooLong)
      else
        let below := place ++ [name]
        match volume.node? below with
        | none => (volume.put below .directory).makeFrom below rest
        | some .directory => volume.makeFrom below rest
        | some (.file _) => (volume, .error (if rest.isEmpty then .exists else .notDirectory))

/-- Makes the directory of a path with those above it where they are missing, and gives its place.
Where the path ends with a point, the directory before the point must be there. -/
def makeDirectories (volume : Volume) (path : String) : Volume × Except PathFlaw Place :=
  match route path with
  | .error flaw => (volume, .error flaw)
  | .ok route =>
      let names := (route.above ++ [route.last]).filter fun name => name != "" && name != "."
      if route.last = "." then
        match volume.makeFrom route.start names.dropLast with
        | (volume, .error flaw) => (volume, .error flaw)
        | (volume, .ok place) => (volume, volume.walk place (names.drop (names.length - 1)))
      else volume.makeFrom route.start names

/-- The files after a directory is made, as far as that goes. -/
def withDirectory (volume : Volume) (path : String) : Volume :=
  (volume.makeDirectories path).1

end Volume

end MappedMetrics
