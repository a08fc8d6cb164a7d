import MappedMetrics.Cli.Manual
import MappedMetrics.Cli.Number
import MappedMetrics.FileFormat

namespace MappedMetrics.Cli

inductive Command where
  | version
  | help (page : List String)
  | layout (config : String)
  | units (texts : List String)
  /-- Publish a file that is updated for a while. -/
  | demo (path : String) (format : FileFormat) (duration : String) (interval : Nat)
  | bench (updates metrics : Nat) (format : FileFormat)

/-- The number that a text stands for, if the values of the kind are numbers. -/
def ValueKind.number? (kind : ValueKind) (text : String) : Option Nat :=
  match kind with
  | .number bound => (Cli.number bound text.toList).toOption
  | .signedNumber bound => (Cli.signedNumber bound text.toList).toOption
  | _ => none

/-- Whether a text is a value of the kind. -/
def ValueKind.admits (kind : ValueKind) (text : String) : Bool :=
  match kind with
  | .text => true
  | .path => text ≠ ""
  | .choice names => (names.map (·.1)).contains text
  | _ => (kind.number? text).isSome

/-- The arguments after a command's name: options by name, operands, and the help that is asked for
after them. -/
structure Arguments where
  options : List (String × String)
  operands : List String
  help : Option HelpForm

namespace Arguments

/-- Whether an argument can only be an option or the end of the options. -/
def isDashed (text : String) : Bool :=
  match text.toList with
  | '-' :: _ :: _ => true
  | _ => false

/-- The name and the value of an option that is written with an equals sign. -/
def splitOption (body : List Char) : String × Option String :=
  match Text.splitOnce (· == '=') body with
  | some (name, value) => (String.ofList name, some (String.ofList value))
  | none => (String.ofList body, none)

def withOption (name value : String) (arguments : Arguments) : Arguments :=
  { arguments with options := (name, value) :: arguments.options }

def withOperand (operand : String) (arguments : Arguments) : Arguments :=
  { arguments with operands := operand :: arguments.operands }

/-- Reads arguments one by one up to one that asks for help; every other option has a value. -/
def parse? : List String → Option Arguments
  | [] => some ⟨[], [], none⟩
  | "--" :: rest => some ⟨[], rest, none⟩
  | "--help" :: _ => some ⟨[], [], some .full⟩
  | text :: rest =>
      match text.toList with
      | '-' :: '-' :: body =>
          match splitOption body with
          | (name, some value) => (parse? rest).map (withOption name value)
          | (name, none) =>
              match rest with
              | value :: rest =>
                  if isDashed value then none else (parse? rest).map (withOption name value)
              | [] => none
      | '-' :: 'h' :: _ => some ⟨[], [], some .brief⟩
      | _ => if isDashed text then none else (parse? rest).map (withOperand text)

/-- The value of an option that is given. -/
def given? (arguments : Arguments) (name : String) : Option String :=
  (arguments.options.find? fun option => option.1 == name).map (·.2)

/-- The value of an option, given or standard. -/
def value? (arguments : Arguments) (flag : Flag) : Option String :=
  arguments.given? flag.name <|> flag.standard

end Arguments

namespace Manual

/-- Whether arguments fit a command: every option is known, given once and has a value of its kind,
and there are operands only where the command has them. -/
def admits (manual : Manual) (arguments : Arguments) : Bool :=
  let given := arguments.options.map (·.1)
  given.all (manual.flags.map (·.name)).contains && given.eraseDups.length == given.length &&
    (manual.flags.all fun flag => (arguments.given? flag.name).all flag.kind.admits) &&
    (manual.operands.isSome || arguments.operands.isEmpty)

/-- The value of an option of the command, given or standard. -/
def value? (manual : Manual) (arguments : Arguments) (name : String) : Option String := do
  arguments.value? (← manual.flag? name)

/-- The number that is the value of an option. -/
def number? (manual : Manual) (arguments : Arguments) (name : String) : Option Nat := do
  let flag ← manual.flag? name
  flag.kind.number? (← arguments.value? flag)

def format? (manual : Manual) (arguments : Arguments) : Option FileFormat := do
  FileFormat.ofName? (← manual.value? arguments formatFlag.name)

/-- What a command does for arguments that fit it, absent where one is missing. -/
def command? (manual : Manual) (arguments : Arguments) : Option Command := do
  match manual.name with
  | "layout" => some (.layout (← manual.value? arguments "config"))
  | "units" => if arguments.operands.isEmpty then none else some (.units arguments.operands)
  | "demo" =>
      some (.demo (← manual.value? arguments "path") (← manual.format? arguments)
        (← manual.value? arguments "duration") (← manual.number? arguments "interval-ms"))
  | "bench" =>
      some (.bench (← manual.number? arguments "updates") (← manual.number? arguments "metrics")
        (← manual.format? arguments))
  | _ => none

/-- The command that arguments after its name ask for. -/
def parse? (manual : Manual) (texts : List String) : Option Command := do
  let arguments ← Arguments.parse? texts
  if !manual.admits arguments then none
  match arguments.help with
  | some form => some (.help (manual.page form))
  | none => manual.command? arguments

end Manual

namespace Command

def helpOf? : List String → Option Command
  | [] => some (.help programPage)
  | [name] =>
      if name = helpRow.1 then some (.help helpPage)
      else (Manual.find? name).map fun manual => .help (manual.page .full)
  | _ => none

/-- The command of the program's arguments, absent where they are not understood. -/
def parse? : List String → Option Command
  | [] => none
  | "--version" :: _ => some .version
  | "--help" :: _ => some (.help programPage)
  | "help" :: rest => helpOf? rest
  | name :: rest =>
      match name.toList with
      | '-' :: 'V' :: _ => some .version
      | '-' :: 'h' :: _ => some (.help programPage)
      | _ => (Manual.find? name).bind fun manual => manual.parse? rest

end Command

end MappedMetrics.Cli
