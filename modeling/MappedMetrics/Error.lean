import MappedMetrics.MetricValue
import MappedMetrics.PhysicalUnit.Parser
import MappedMetrics.Text.Quoted

namespace MappedMetrics

open MappedMetrics.Text

inductive NameFlaw where
  | empty
  | nul
  /-- A character with a meaning of its own in the sidecar. -/
  | reserved (c : Char)
deriving DecidableEq, Repr

def NameFlaw.message : NameFlaw → String
  | .empty => "name cannot be empty"
  | .nul => "name cannot contain NUL"
  | .reserved c => s!"character {quotedChar c} is not allowed in the sidecar"

inductive SettingFlaw where
  /-- The capacity of a bridge. -/
  | bridgeCapacity
  /-- The capacity in a configuration. -/
  | queueCapacity
deriving DecidableEq, Repr

def SettingFlaw.message : SettingFlaw → String
  | .bridgeCapacity => "update queue capacity must be at least 1"
  | .queueCapacity => "queue_capacity must be at least 1"

inductive ConfigurationError where
  | noHandler (kind : Kind)
  | duplicateMetric (name : String)
  | nameTooLong (name : String) (length limit : Nat)
  | invalidName (name : String) (flaw : NameFlaw)
  | typeMismatch (expected actual : Kind)
  | slotSize (expected actual : Nat)
  | invalidUnit (text : String) (flaw : UnitFlaw)
  | invalidConfig (flaw : SettingFlaw)
deriving DecidableEq, Repr

def ConfigurationError.message : ConfigurationError → String
  | .noHandler kind => s!"no type handler registered for value kind {kind.title}"
  | .duplicateMetric name => s!"metric '{name}' is already registered"
  | .nameTooLong name length limit => s!"metric name '{name}' is {length} bytes, limit is {limit}"
  | .invalidName name flaw => s!"invalid metric name '{name}': {flaw.message}"
  | .typeMismatch expected actual =>
      s!"type mismatch: handler encodes {expected.title}, got {actual.title}"
  | .slotSize expected actual => s!"slot is {actual} bytes, handler writes {expected}"
  | .invalidUnit text flaw => s!"invalid unit '{text}': {flaw.message}"
  | .invalidConfig flaw => s!"invalid configuration: {flaw.message}"

inductive LifecycleError where
  | alreadyStarted
  | addAfterStart
  | notStarted
  | stopped
  | bridgeRunning
deriving DecidableEq, Repr

def LifecycleError.message : LifecycleError → String
  | .alreadyStarted => "writer is already started"
  | .addAfterStart => "metrics and handlers cannot be added after start"
  | .notStarted => "writer has not been started"
  | .stopped => "writer has been stopped"
  | .bridgeRunning => "update bridge is already running"

inductive PathFlaw where
  | missing
  | exists
  | notDirectory
  | isDirectory
  | tooLong
  | nul
  | notText
deriving DecidableEq, Repr

def PathFlaw.message : PathFlaw → String
  | .missing => "No such file or directory (os error 2)"
  | .exists => "File exists (os error 17)"
  | .notDirectory => "Not a directory (os error 20)"
  | .isDirectory => "Is a directory (os error 21)"
  | .tooLong => "File name too long (os error 36)"
  | .nul => "file name contained an unexpected NUL byte"
  | .notText => "stream did not contain valid UTF-8"

inductive MappingError where
  | create (path : String) (flaw : PathFlaw)
  | resize (path : String) (length : Nat)
  | map (path reason : String)
  | flush (path reason : String)
  | sidecar (path : String) (flaw : PathFlaw)
  | tooLarge (length : Nat)
  | boundsViolation (offset length size : Nat)
deriving DecidableEq, Repr

def MappingError.message : MappingError → String
  | .create path flaw => s!"failed to create '{path}': {flaw.message}"
  | .resize path length =>
      s!"failed to size '{path}' to {length} bytes: " ++
        "out of range integral type conversion attempted"
  | .map path reason => s!"memory mapping failed for '{path}': {reason}"
  | .flush path reason => s!"failed to flush '{path}': {reason}"
  | .sidecar path flaw => s!"failed to write sidecar '{path}': {flaw.message}"
  | .tooLarge length =>
      s!"layout of {length} bytes exceeds the format's 4294967295 byte address space"
  | .boundsViolation offset length size =>
      s!"access beyond mapping: offset {offset} + length {length} > size {size}"

inductive UpdateError where
  | unknownMetric (name : String)
  | bridgeFailed (reason : String)
deriving DecidableEq, Repr

def UpdateError.message : UpdateError → String
  | .unknownMetric name => s!"unknown metric '{name}'"
  | .bridgeFailed reason => s!"update bridge thread failed: {reason}"

inductive ConfigFileError where
  | read (path : String) (flaw : PathFlaw)
  | parse (path : String)
deriving DecidableEq, Repr

/-- The wording ends where the reader of the file says what it did not understand. -/
def ConfigFileError.message : ConfigFileError → String
  | .read path flaw => s!"failed to read config '{path}': {flaw.message}"
  | .parse path => s!"failed to parse config '{path}'"

inductive Error where
  | configuration (cause : ConfigurationError)
  | lifecycle (cause : LifecycleError)
  | mapping (cause : MappingError)
  | update (cause : UpdateError)
  | configFile (cause : ConfigFileError)
deriving DecidableEq, Repr

def Error.message : Error → String
  | .configuration cause => s!"configuration error: {cause.message}"
  | .lifecycle cause => s!"lifecycle error: {cause.message}"
  | .mapping cause => s!"mapping error: {cause.message}"
  | .update cause => s!"update error: {cause.message}"
  | .configFile cause => s!"config file error: {cause.message}"

/-- Why a call cannot go on at all. -/
inductive Halt where
  /-- A sum leaves the range of its word. -/
  | overflow
  /-- A range of bytes ends after the buffer, or a position is after the end of a list. -/
  | outOfBounds
  /-- Bytes are copied between ranges of different lengths. -/
  | lengthMismatch
  /-- A source of values gives up when it is read. -/
  | probe
deriving DecidableEq, Repr

inductive Fault where
  | refused (error : Error)
  | halted (halt : Halt)
deriving DecidableEq, Repr

abbrev Outcome := Except Fault

theorem Outcome.bind_eq_ok {ε α β : Type} {outcome : Except ε α} {next : α → Except ε β}
    {result : β} :
    outcome >>= next = .ok result ↔ ∃ value, outcome = .ok value ∧ next value = .ok result := by
  constructor
  · intro h
    cases outcome with
    | error fault => cases h
    | ok value => exact ⟨value, rfl, h⟩
  · rintro ⟨value, rfl, h⟩
    exact h

def ConfigurationError.refuse {α : Type} (cause : ConfigurationError) : Outcome α :=
  .error (.refused (.configuration cause))

/-- The refusal of a call in the wrong order. -/
def LifecycleError.refuse {α : Type} (cause : LifecycleError) : Outcome α :=
  .error (.refused (.lifecycle cause))

def MappingError.refuse {α : Type} (cause : MappingError) : Outcome α :=
  .error (.refused (.mapping cause))

def UpdateError.refuse {α : Type} (cause : UpdateError) : Outcome α :=
  .error (.refused (.update cause))

def ConfigFileError.refuse {α : Type} (cause : ConfigFileError) : Outcome α :=
  .error (.refused (.configFile cause))

/-- The unit of a text, or the refusal that names the text. -/
def PhysicalUnit.parse (text : String) : Outcome PhysicalUnit :=
  match ofText text with
  | .ok unit => .ok unit
  | .error flaw => (ConfigurationError.invalidUnit text flaw).refuse

end MappedMetrics
