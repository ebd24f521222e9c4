/-!
# Comma-separated records

A byte stream is cut into records by one pass over its bytes. A line feed or a carriage
return ends a record, blank lines between records are dropped, and a cell that opens with a
quote runs to the next single quote; two quotes inside stand for one. End of input ends the
last record, also inside quotes.

The position of a record is where the one before it ended. Blank lines in front of a record,
and the line feed of a preceding carriage return, are therefore not yet counted.
-/
namespace QueueBench.Csv

def comma : UInt8 := 0x2C
def quote : UInt8 := 0x22
def lineFeed : UInt8 := 0x0A
def carriageReturn : UInt8 := 0x0D

def endsRecord (b : UInt8) : Bool := b == lineFeed || b == carriageReturn

/-- Records, lines and bytes passed so far; lines count from one. -/
structure Position where
  record : Nat
  line : Nat
  byte : Nat
  deriving DecidableEq, Repr

structure Record where
  position : Position
  cells : List (List UInt8)
  deriving DecidableEq, Repr

inductive Phase where
  /-- Between records. -/
  | gap
  /-- Between records, where a line feed may complete the line end. -/
  | afterReturn
  | cellStart
  | plain
  | quoted
  /-- After a quote inside a quoted cell. -/
  | quoteSeen
  deriving DecidableEq, Repr

/-- A scan under way; cells and their bytes are kept last first. -/
structure Scan where
  phase : Phase
  start : Position
  here : Position
  cell : List UInt8
  cells : List (List UInt8)
  deriving DecidableEq, Repr

namespace Scan

def pass (s : Scan) (b : UInt8) : Scan :=
  { s with here := { s.here with
      line := s.here.line + (if b = lineFeed then 1 else 0), byte := s.here.byte + 1 } }

def goto (s : Scan) (p : Phase) : Scan := { s with phase := p }

def keep (s : Scan) (b : UInt8) (p : Phase) : Scan := { s with cell := b :: s.cell, phase := p }

def endCell (s : Scan) : Scan :=
  { s with cell := [], cells := s.cell.reverse :: s.cells, phase := .cellStart }

def record (s : Scan) : Record := ⟨s.start, s.endCell.cells.reverse⟩

def endRecord (s : Scan) (b : UInt8) : Scan :=
  let here := { s.here with record := s.here.record + 1 }
  { phase := if b = carriageReturn then .afterReturn else .gap
    start := here, here, cell := [], cells := [] }

def bare (s : Scan) (b : UInt8) : Scan × Option Record :=
  if b = comma then (s.endCell, none)
  else if endsRecord b then (s.endRecord b, some s.record)
  else (s.keep b .plain, none)

def opening (s : Scan) (b : UInt8) : Scan × Option Record :=
  if b = quote then (s.goto .quoted, none) else s.bare b

/-- One byte, already passed. -/
def consume (s : Scan) (b : UInt8) : Scan × Option Record :=
  match s.phase with
  | .gap => if endsRecord b then (s, none) else s.opening b
  | .afterReturn =>
    if endsRecord b then (s.goto .gap, none) else s.opening b
  | .cellStart => s.opening b
  | .plain => s.bare b
  | .quoted => if b = quote then (s.goto .quoteSeen, none) else (s.keep b .quoted, none)
  | .quoteSeen => if b = quote then (s.keep b .quoted, none) else s.bare b

def step (s : Scan) (b : UInt8) : Scan × Option Record := (s.pass b).consume b

def finish (s : Scan) : Option Record :=
  match s.phase with
  | .gap | .afterReturn => none
  | _ => some s.record

def records (s : Scan) : List UInt8 → List Record
  | [] => s.finish.toList
  | b :: bs =>
    match s.step b with
    | (s, some r) => r :: s.records bs
    | (s, none) => s.records bs

end Scan

def byteOrderMark : List UInt8 := [0xEF, 0xBB, 0xBF]

def Scan.fresh (skipped : Nat) : Scan :=
  { phase := .gap, start := ⟨0, 1, 0⟩, here := ⟨0, 1, skipped⟩, cell := [], cells := [] }

/-- The records of a stream; a byte order mark in front is dropped. -/
def records (bytes : List UInt8) : List Record :=
  if byteOrderMark.isPrefixOf bytes then
    (Scan.fresh byteOrderMark.length).records (bytes.drop byteOrderMark.length)
  else (Scan.fresh 0).records bytes

/-- The records of a stream that breaks off: the one under way is lost. -/
def completed (bytes : List UInt8) : List Record :=
  let skipped := if byteOrderMark.isPrefixOf bytes then byteOrderMark.length else 0
  let broken := (bytes.drop skipped).foldl (fun s b => (s.step b).1) (Scan.fresh skipped)
  if broken.finish.isSome then (records bytes).dropLast else records bytes

end QueueBench.Csv
