import QueueBench.Chart.Basic
import QueueBench.OsString
import QueueBench.RowError
import QueueBench.Schema

/-!
# Events

What happens on the way from files to images, in the order in which it happens, with the level
and the wording under which it is logged.
-/
namespace QueueBench

inductive Level where
  | debug
  | info
  | warn
  deriving DecidableEq, Repr

namespace Level

def name : Level → String
  | debug => "DEBUG"
  | info => "INFO"
  | warn => "WARN"

def severity : Level → Nat
  | debug => 0
  | info => 1
  | warn => 2

end Level

inductive Event where
  /-- The arguments of the program, as text. -/
  | started (arguments : String)
  | folderMissing (path : OsString)
  | schemaRead (source : String) (version : SchemaVersion) (missing : Nat)
  | headerSkipped (source : String) (line : Nat)
  | rowDropped (row : Rejection)
  | fileLoaded (path : OsString) (runs rejected : Nat)
  | fileSkipped (path : OsString) (cause : LoadError)
  | filesLoaded (runs files rejected : Nat)
  | scalingBuilt (runs metrics : Nat)
  | payloadFixed (payload : Option Nat)
  | threadsFixed (threads : Option Nat)
  | chartSkipped (cause : InsufficientData)
  | chartSaved (path : OsString)
  | chartFailed (path : OsString) (error : String)
  | chartDrawn (panels : Nat)
  deriving DecidableEq, Repr

namespace Event

def level : Event → Level
  | rowDropped _ | fileSkipped .. | chartSkipped _ | chartFailed .. => .warn
  | filesLoaded .. | payloadFixed _ | threadsFixed _ | chartSaved _ => .info
  | _ => .debug

def message : Event → String
  | started arguments => arguments
  | folderMissing path => s!"Results directory {path.display} does not exist"
  | schemaRead source version missing =>
    s!"{source}: schema {version.name} ({missing} missing mandatory columns)"
  | headerSkipped source line => s!"{source}:{line}: skipping repeated header"
  | rowDropped row => s!"Dropping malformed row {row.message}"
  | fileLoaded path runs rejected => s!"{path.display}: {runs} rows, {rejected} malformed"
  | fileSkipped path cause => s!"Skipping {path.display}: {cause.message}"
  | filesLoaded runs files rejected =>
    s!"Loaded {runs} rows from {files} file(s) ({rejected} malformed rows dropped)"
  | scalingBuilt runs metrics => s!"Scaling chart: {runs} runs, {metrics} metrics"
  | payloadFixed (some payload) => s!"Thread sweep detected at payload {payload}μs"
  | payloadFixed none => "No thread sweep detected"
  | threadsFixed (some threads) => s!"Payload sweep detected at P={threads}"
  | threadsFixed none => "No payload sweep detected"
  | chartSkipped cause => s!"Skipping {cause.message}"
  | chartSaved path => s!"Saved {path.display}"
  | chartFailed path error => s!"Failed to render {path.display}: {error}"
  | chartDrawn panels => s!"Drew {panels} panels"

end Event

def Level.shown (l : Level) (events : List Event) : List Event :=
  events.filter fun e => l.severity ≤ e.level.severity

end QueueBench
