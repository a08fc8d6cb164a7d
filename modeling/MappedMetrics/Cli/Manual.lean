namespace MappedMetrics.Cli

inductive ValueKind where
  | text
  /-- A text that is not empty. -/
  | path
  /-- A whole number below a bound, with an optional plus sign. -/
  | number (bound : Nat)
  /-- A whole number below a bound, with an optional sign. -/
  | signedNumber (bound : Nat)
  /-- One of some names, each with what it means. -/
  | choice (names : List (String × String))

/-- An option, which has a value. -/
structure Flag where
  name : String
  about : String
  kind : ValueKind
  /-- The value of an option that is not given; without one it has to be given. -/
  standard : Option String

/-- A command: its operands, of which it needs one if it has any, and its options. -/
structure Manual where
  name : String
  about : String
  operands : Option (String × String) := none
  flags : List Flag := []

inductive HelpForm where
  | brief
  | full
deriving DecidableEq, Repr

def calledName : String := "mmvexport-cli"

/-- Text with blanks after it up to a width. -/
def padded (width : Nat) (text : String) : String :=
  text ++ String.ofList (List.replicate (width - text.length) ' ')

/-- Lines of two columns, the first of them as wide as it needs. -/
def columns (rows : List (String × String)) : List String :=
  let width := (rows.map (·.1.length)).foldl max 0
  rows.map fun (left, right) => padded (width + 2) left ++ right

/-- Lines between others are kept apart by an empty one. -/
def spaced (paragraphs : List (List String)) : List String :=
  [""].intercalate paragraphs

namespace Flag

def valueName (flag : Flag) : String :=
  "<" ++ (flag.name.map fun c => if c = '-' then '_' else c.toUpper) ++ ">"

def usage (flag : Flag) : String :=
  "--" ++ flag.name ++ " " ++ flag.valueName

def choices (flag : Flag) : List (String × String) :=
  match flag.kind with
  | .choice names => names
  | _ => []

def standardNote (flag : Flag) : Option String :=
  flag.standard.map fun value => "[default: " ++ value ++ "]"

def choicesNote (flag : Flag) : Option String :=
  if flag.choices.isEmpty then none
  else some ("[possible values: " ++ ", ".intercalate (flag.choices.map (·.1)) ++ "]")

def heading (flag : Flag) : String :=
  "      " ++ flag.usage

def briefAbout (flag : Flag) : String :=
  " ".intercalate (flag.about :: (flag.standardNote.toList ++ flag.choicesNote.toList))

/-- The lines with the values that can be listed, after an empty one. -/
def choiceLines (indent : String) (flag : Flag) : List String :=
  let width := (flag.choices.map (·.1.length)).foldl max 0
  let line := fun (name, about) => indent ++ "- " ++ padded (width + 2) (name ++ ":") ++ about
  if flag.choices.isEmpty then []
  else ["", indent ++ "Possible values:"] ++ flag.choices.map line

/-- The lines about the option on a full page. -/
def fullLines (flag : Flag) : List String :=
  let indent := "          "
  [flag.heading, indent ++ flag.about] ++ flag.choiceLines indent ++
    (flag.standardNote.toList.flatMap fun note => [indent, indent ++ note])

end Flag

namespace Manual

def flag? (manual : Manual) (name : String) : Option Flag :=
  manual.flags.find? fun flag => flag.name == name

/-- Whether a full page says more than a brief one, which it does where values are explained. -/
def hasMore (manual : Manual) : Bool :=
  manual.flags.any fun flag => !flag.choices.isEmpty

def usage (manual : Manual) : String :=
  " ".intercalate (["Usage:", calledName, manual.name] ++
    (if manual.flags.any (·.standard.isSome) then ["[OPTIONS]"] else []) ++
    (manual.flags.filter (·.standard.isNone)).map Flag.usage ++
    manual.operands.toList.map (·.1))

def operandLines (manual : Manual) : List (List String) :=
  manual.operands.toList.map fun (name, about) =>
    "Arguments:" :: columns [("  " ++ name, about)]

def briefOptions (manual : Manual) : List String :=
  let note := if manual.hasMore then "Print help (see more with '--help')" else "Print help"
  "Options:" :: columns ((manual.flags.map fun flag => (flag.heading, flag.briefAbout)) ++
    [("  -h, --help", note)])

def fullOptions (manual : Manual) : List String :=
  "Options:" :: spaced (manual.flags.map Flag.fullLines ++
    [["  -h, --help", "          Print help (see a summary with '-h')"]])

def page (manual : Manual) (form : HelpForm) : List String :=
  let options := if form = .full && manual.hasMore then manual.fullOptions else manual.briefOptions
  spaced ([[manual.about], [manual.usage]] ++ manual.operandLines ++ [options])

def formatFlag : Flag where
  name := "variant"
  about := "Wire format"
  kind := .choice [("mmv", "Self-describing MMV file"),
    ("legacy", "Packed file with a text sidecar")]
  standard := some "mmv"

def layout : Manual where
  name := "layout"
  about := "Print the file layout a JSON writer config would produce"
  flags := [⟨"config", "Path to the writer config (JSON)", .path, none⟩]

def units : Manual where
  name := "units"
  about := "Classify unit strings into dimension words"
  operands := some ("<UNITS>...",
    "Units to classify (e.g., \"byte/second\", \"KiB\", \"count/ms\")")

def demo : Manual where
  name := "demo"
  about := "Publish a live demo file updated through the update bridge"
  flags :=
    [⟨"path", "Path of the metrics file to create", .path, some "./demo.mmv"⟩, formatFlag,
      ⟨"duration", "How long to run (e.g., \"10s\", \"2m\")", .text, some "10s"⟩,
      ⟨"interval-ms", "Milliseconds between updates", .number (2 ^ 64), some "100"⟩]

def bench : Manual where
  name := "bench"
  about := "Run an update-path microbenchmark"
  flags :=
    [⟨"updates", "Number of updates to write", .number (2 ^ 64), some "10000000"⟩,
      ⟨"metrics", "Number of metrics to register", .signedNumber (2 ^ 32), some "30"⟩,
      formatFlag]

/-- The commands in the order of the page of help. -/
def all : List Manual :=
  [layout, units, demo, bench]

def find? (name : String) : Option Manual :=
  all.find? fun manual => manual.name == name

end Manual

def helpRow : String × String :=
  ("help", "Print this message or the help of the given subcommand(s)")

def programPage : List String :=
  let commands := (Manual.all.map fun manual => (manual.name, manual.about)) ++ [helpRow]
  spaced [["mmvexport — Export in-process metrics through a memory-mapped file"],
    [" ".intercalate ["Usage:", calledName, "<COMMAND>"]],
    "Commands:" :: columns (commands.map fun (name, about) => ("  " ++ name, about)),
    "Options:" :: columns [("  -h, --help", "Print help"), ("  -V, --version", "Print version")]]

/-- The page of help of the command for help. -/
def helpPage : List String :=
  let operand := "[COMMAND]..."
  spaced [[helpRow.2], [" ".intercalate ["Usage:", calledName, helpRow.1, operand]],
    "Arguments:" :: columns [("  " ++ operand, "Print help for the subcommand(s)")]]

end MappedMetrics.Cli
