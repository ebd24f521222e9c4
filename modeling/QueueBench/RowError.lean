import QueueBench.Column

/-!
# Rejected rows and files

Why a row cannot be read as a run, or nothing from a file, and the messages that say so.
-/
namespace QueueBench

/-- A record that is not UTF-8: where it starts, and the first bad byte of which cell. -/
structure EncodingFault where
  record : Nat
  line : Nat
  byte : Nat
  cell : Nat
  index : Nat
  deriving DecidableEq, Repr

def EncodingFault.message (f : EncodingFault) : String :=
  s!"CSV parse error: record {f.record} (line {f.line}, field: {f.cell}, byte: {f.byte}): " ++
    s!"invalid utf-8: invalid UTF-8 in field {f.cell} near byte index {f.index}"

inductive RowError where
  | missingField (column : Column)
  | invalidNumber (column : Column) (value : String)
  | negative (column : Column) (value : String)
  | notPositive (column : Column) (value : String)
  | unknownMode (value : String)
  | unreadable (fault : EncodingFault)
  /-- Reading the file fails before the row is complete. -/
  | interrupted (cause : String)
  deriving DecidableEq, Repr

def RowError.message : RowError → String
  | missingField c => s!"missing mandatory field '{c.name}'"
  | invalidNumber c v => s!"field '{c.name}' has non-numeric value '{v}'"
  | negative c v => s!"field '{c.name}' must be non-negative, got {v}"
  | notPositive c v => s!"field '{c.name}' must be positive, got {v}"
  | unknownMode v => s!"unrecognized allocation mode '{v}'"
  | unreadable f => s!"unreadable record: {f.message}"
  | interrupted cause => s!"unreadable record: {cause}"

structure Rejection where
  file : String
  line : Nat
  cause : RowError
  deriving DecidableEq, Repr

def Rejection.message (r : Rejection) : String := s!"{r.file}:{r.line}: {r.cause.message}"

inductive LoadError where
  | notFound
  | isFolder
  | closed (cause : String)
  /-- Reading fails before the header is complete. -/
  | interrupted (cause : String)
  | header (fault : EncodingFault)
  deriving DecidableEq, Repr

def LoadError.message : LoadError → String
  | notFound => "I/O error: No such file or directory (os error 2)"
  | isFolder => "CSV error: Is a directory (os error 21)"
  | closed cause => s!"I/O error: {cause}"
  | interrupted cause => s!"CSV error: {cause}"
  | header f => s!"CSV error: {f.message}"

end QueueBench
