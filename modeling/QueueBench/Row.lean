import QueueBench.Number.Numeral
import QueueBench.RowError
import QueueBench.Schema

/-!
# Reading a row

A row becomes a run when every mandatory cell is present and every cell that is present can
be read; otherwise the first offending column, in the order below, is reported. Units change
here and nowhere else: nanoseconds to microseconds, kilobytes to megabytes.
-/
namespace QueueBench

open Number (Numeral count? max32 max64)

structure Row where
  schema : Schema
  cells : List String
  deriving DecidableEq, Repr

namespace Row

/-- The text of a cell; an absent column, a short row and a blank cell all give `none`. -/
def text? (row : Row) (c : Column) : Option String := do
  let i ← row.schema.index? c
  let cell ← row.cells[i]?
  let t := Text.trim cell
  if t = "" then none else some t

def hasMinusSign (value : String) : Bool :=
  match value.toList with
  | '-' :: cs => (Numeral.ofChars? cs).isSome
  | _ => false

def refusal (c : Column) (value : String) : RowError :=
  if hasMinusSign value then .negative c value else .invalidNumber c value

def count (row : Row) (limit : Nat) (c : Column) : Except RowError (Option Nat) :=
  match row.text? c with
  | none => .ok none
  | some value =>
    match count? limit value with
    | some n => .ok (some n)
    | none => .error (refusal c value)

def quantity (row : Row) (c : Column) : Except RowError (Option Float) :=
  match row.text? c with
  | none => .ok none
  | some value =>
    match Numeral.read? value with
    | none => .error (refusal c value)
    | some numeral =>
      if !numeral.toFloat.isFinite then .error (.invalidNumber c value)
      else if numeral.toFloat < 0 then .error (.negative c value)
      else .ok (some numeral.toFloat)

def required {α : Type} (c : Column) : Option α → Except RowError α
  | some a => .ok a
  | none => .error (.missingField c)

def positive (c : Column) (n : Nat) : Except RowError Nat :=
  if n = 0 then .error (.notPositive c "0") else .ok n

def positiveCount (row : Row) (c : Column) : Except RowError Nat := do
  positive c (← required c (← row.count max32 c))

/-- The mode cell decides; without one the file name does. -/
def mode (row : Row) (file marker : String) : Except RowError AllocMode :=
  match row.text? .mode with
  | none => .ok (.ofFileName file marker)
  | some value =>
    match AllocMode.ofCell? value with
    | some m => .ok m
    | none => .error (.unknownMode value)

def duration (row : Row) : Except RowError (Option Nat) := do
  match ← row.count max32 .duration with
  | none => return none
  | some n => return some (← positive .duration n)

def latencyAt (row : Row) (p : Percentile) : Except RowError (Option Double) := do
  return (← row.quantity (.latency p)).map fun x => .ofFloat (x / 1000)

def latency (row : Row) : Except RowError Latency := do
  let avg ← row.latencyAt .avg
  let p50 ← row.latencyAt .p50
  let p95 ← row.latencyAt .p95
  let p99 ← row.latencyAt .p99
  let p999 ← row.latencyAt .p999
  let max ← row.latencyAt .max
  return { avg, p50, p95, p99, p999, max }

/-- The run that the row of `file` records; `marker` in the name of a file means pooled. -/
def toRun (row : Row) (file marker : String) : Except RowError Run := do
  let implementation ← required .implementation (row.text? .implementation)
  let producers ← row.positiveCount .producers
  let consumers ← row.positiveCount .consumers
  let payload ← required .payload (← row.count max32 .payload)
  let throughput ← required .throughput (← row.quantity .throughput)
  let mode ← row.mode file marker
  let duration ← row.duration
  let latency ← row.latency
  let peakMemory := (← row.quantity .peakMemory).map fun x => .ofFloat (x / 1024)
  let maxDepth ← row.count max64 .maxDepth
  return { implementation, mode, producers, consumers, payload, duration
           throughput := .ofFloat throughput, latency, peakMemory, maxDepth, source := file }

end Row

end QueueBench
