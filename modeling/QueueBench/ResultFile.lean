import QueueBench.Csv
import QueueBench.FileTree
import QueueBench.Logged
import QueueBench.Row

/-!
# Result files

The bytes of one result file become its schema and one outcome for each record after the
header: a run, a rejected row, or a repeated header. A header that is not UTF-8, or not there
before reading fails, fails the whole file; what is read behind the header stays.
-/
namespace QueueBench

inductive RowOutcome where
  | run (r : Run)
  | rejected (r : Rejection)
  | repeatedHeader (line : Nat)
  deriving DecidableEq, Repr

namespace RowOutcome

def run? : RowOutcome → Option Run
  | run r => some r
  | _ => none

def rejection? : RowOutcome → Option Rejection
  | rejected r => some r
  | _ => none

def isRepeatedHeader : RowOutcome → Bool
  | repeatedHeader _ => true
  | _ => false

def logged (source : String) : RowOutcome → Logged RowOutcome
  | run r => return run r
  | rejected row => do
    Logged.log (.rowDropped row)
    return rejected row
  | repeatedHeader line => do
    Logged.log (.headerSkipped source line)
    return repeatedHeader line

end RowOutcome

structure ResultFile where
  source : String
  schema : Schema
  rows : List RowOutcome
  deriving DecidableEq, Repr

namespace ResultFile

def runs (f : ResultFile) : List Run := f.rows.filterMap RowOutcome.run?

def rejections (f : ResultFile) : List Rejection := f.rows.filterMap RowOutcome.rejection?

def repeatedHeaders (f : ResultFile) : Nat := f.rows.countP RowOutcome.isRepeatedHeader

def isBlankByte (b : UInt8) : Bool :=
  b == 0x09 || b == 0x0A || b == 0x0C || b == 0x0D || b == 0x20

/-- The cells from number `i` on as text, or the first cell that is not UTF-8 and where. -/
def decodeCells (i : Nat) : List (List UInt8) → Except (Nat × Nat) (List String)
  | [] => .ok []
  | cell :: cells => do
    let text ← (Text.decode cell).mapError fun index => (i, index)
    return text :: (← decodeCells (i + 1) cells)

def textCells (position : Csv.Position) (cells : List (List UInt8)) :
    Except EncodingFault (List String) :=
  (decodeCells 0 cells).mapError fun (cell, index) =>
    ⟨position.record, position.line, position.byte, cell, index⟩

/-- The header is checked as it stands in the file. -/
def readSchema : Option Csv.Record → Except EncodingFault Schema
  | none => .ok (.ofHeaders [])
  | some r => (textCells r.position r.cells).map Schema.ofHeaders

/-- A row after the header. Its cells lose their ASCII blanks before they are checked. -/
def readRow (schema : Schema) (source marker : String) (r : Csv.Record) : RowOutcome :=
  let reject (cause : RowError) : RowOutcome := .rejected ⟨source, r.position.line, cause⟩
  match textCells r.position (r.cells.map (Text.strip isBlankByte)) with
  | .error fault => reject (.unreadable fault)
  | .ok texts =>
    let cells := texts.map Text.trim
    if schema.isHeaderRow cells then .repeatedHeader r.position.line
    else match Row.toRun ⟨schema, cells⟩ source marker with
      | .ok run => .run run
      | .error cause => reject cause

/-- The outcome of a row that reading the file cuts off, behind `before` other rows. It counts from
the line after the header, one line for each row. -/
def interruptedRow (source cause : String) (before : Nat) : RowOutcome :=
  .rejected ⟨source, before + 2, .interrupted cause⟩

def readRecords (source marker : String) (header : Option Csv.Record) (rows : List Csv.Record)
    (failure : Option String) : Logged (Except LoadError ResultFile) :=
  match readSchema header with
  | .error fault => return .error (.header fault)
  | .ok schema => do
    Logged.log (.schemaRead source schema.version schema.missing.length)
    let outcomes ← rows.mapM fun r => (readRow schema source marker r).logged source
    let last ← failure.toList.mapM fun cause =>
      (interruptedRow source cause rows.length).logged source
    return .ok ⟨source, schema, outcomes ++ last⟩

def read (source marker : String) : Content → Logged (Except LoadError ResultFile)
  | .whole bytes =>
    readRecords source marker (Csv.records bytes).head? (Csv.records bytes).tail none
  | .broken bytes cause =>
    match Csv.completed bytes with
    | [] => return .error (.interrupted cause)
    | header :: rows => readRecords source marker (some header) rows (some cause)
  | .closed cause => return .error (.closed cause)

def ofBytes (source marker : String) (bytes : List UInt8) : Except LoadError ResultFile :=
  (read source marker (.whole bytes)).value

end ResultFile

end QueueBench
