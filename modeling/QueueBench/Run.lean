import QueueBench.Number.Double
import QueueBench.Text.Blank
import QueueBench.Text.Ascii

/-!
# Runs

One benchmark run of a concurrent queue, in the units used from here on: latency in
microseconds, memory in megabytes. Older harness versions report fewer measurements, so
each of them may be absent.
-/
namespace QueueBench

/-- How the queue obtained memory for its nodes; heap sorts before pooled. -/
inductive AllocMode where
  | heap
  | pooled
  deriving DecidableEq, Repr

namespace AllocMode

def all : List AllocMode := [heap, pooled]

def name : AllocMode → String
  | heap => "heap"
  | pooled => "pooled"

def rank : AllocMode → Nat
  | heap => 0
  | pooled => 1

def ofCell? (cell : String) : Option AllocMode :=
  let word := Text.asciiLower (Text.trim cell)
  if word ∈ ["pool", "pooled", "pool_alloc"] then some pooled
  else if word ∈ ["heap", "malloc", "new", "default"] then some heap
  else none

/-- The mode of a file without a mode column: a non-empty marker in the name means pooled. -/
def ofFileName (file marker : String) : AllocMode :=
  if marker ≠ "" ∧ Text.occursIn (Text.asciiLower marker).toList (Text.asciiLower file).toList then
    pooled
  else heap

end AllocMode

inductive Percentile where
  | avg
  | p50
  | p95
  | p99
  | p999
  | max
  deriving DecidableEq, Repr

namespace Percentile

def all : List Percentile := [avg, p50, p95, p99, p999, max]

def label : Percentile → String
  | avg => "avg"
  | p50 => "p50"
  | p95 => "p95"
  | p99 => "p99"
  | p999 => "p99.9"
  | max => "max"

end Percentile

/-- Latency of one operation, in microseconds. -/
structure Latency where
  avg : Option Double
  p50 : Option Double
  p95 : Option Double
  p99 : Option Double
  p999 : Option Double
  max : Option Double
  deriving DecidableEq, Repr

namespace Latency

def none : Latency := ⟨.none, .none, .none, .none, .none, .none⟩

def get (l : Latency) : Percentile → Option Double
  | .avg => l.avg
  | .p50 => l.p50
  | .p95 => l.p95
  | .p99 => l.p99
  | .p999 => l.p999
  | .max => l.max

def isEmpty (l : Latency) : Bool := Percentile.all.all fun p => (l.get p).isNone

end Latency

structure Run where
  implementation : String
  mode : AllocMode
  producers : Nat
  consumers : Nat
  /-- Simulated work per operation, in microseconds. -/
  payload : Nat
  /-- Length of the run, in seconds. -/
  duration : Option Nat
  /-- Completed operations per second on the consumer side. -/
  throughput : Double
  latency : Latency
  /-- Megabytes. -/
  peakMemory : Option Double
  maxDepth : Option Nat
  /-- Name of the file that the run was read from. -/
  source : String
  deriving DecidableEq, Repr

def Run.threads (r : Run) : Nat := r.producers + r.consumers

end QueueBench
