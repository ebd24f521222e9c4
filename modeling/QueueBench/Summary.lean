import QueueBench.Axis
import QueueBench.Number.Fixed
import QueueBench.Text.Case

/-!
# Performance summary

For each implementation, in the order of names: how many runs it has, mean and range of its
throughput, queue depth and tail latency, and how its throughput grows from the smallest to
the largest thread count at the fixed payload. Ranges are taken in the total order of floats.
-/
namespace QueueBench

open Number (fixed)

structure Stats where
  mean : Float
  min : Double
  max : Double
  deriving DecidableEq, Repr

def Stats.ofValues : List Double → Option Stats
  | [] => none
  | x :: xs => some
    { mean := Number.mean ((x :: xs).map Double.value)
      min := xs.foldl Double.lesser x
      max := xs.foldl Double.greater x }

structure ThreadScaling where
  fromThreads : Nat
  fromThroughput : Float
  toThreads : Nat
  toThroughput : Float
  speedup : Float
  deriving DecidableEq, Repr

namespace ThreadScaling

def meanAt (runs : List Run) (axis : ThreadAxis) (threads : Nat) : Float :=
  Number.mean ((runs.filter fun r => axis.value r = threads).map fun r => r.throughput.value)

/-- From the runs of a sweep; a baseline that is not positive gives no speedup. -/
def ofSweep (runs : List Run) (axis : ThreadAxis) : Option ThreadScaling := do
  let counts := runs.map axis.value
  let fromThreads ← counts.min?
  let toThreads ← counts.max?
  if fromThreads = toThreads then none
  else
    let fromThroughput := meanAt runs axis fromThreads
    let toThroughput := meanAt runs axis toThreads
    if fromThroughput ≤ 0 then none
    else some ⟨fromThreads, fromThroughput, toThreads, toThroughput, toThroughput / fromThroughput⟩

end ThreadScaling

structure ImplementationSummary where
  implementation : String
  runs : Nat
  throughput : Stats
  maxDepth : Option Stats
  /-- Microseconds. -/
  p99Latency : Option Stats
  scaling : Option ThreadScaling
  deriving DecidableEq, Repr

structure Summary where
  implementations : List ImplementationSummary
  deriving DecidableEq, Repr

namespace ImplementationSummary

def ofRuns (implementation : String) (runs : List Run) (fixedPayload : Option Nat)
    (axis : ThreadAxis) : Option ImplementationSummary :=
  (Stats.ofValues (runs.map Run.throughput)).map fun throughput =>
    { implementation
      runs := runs.length
      throughput
      maxDepth := Stats.ofValues (runs.filterMap fun r => r.maxDepth.map Double.ofNat)
      p99Latency := Stats.ofValues (runs.filterMap fun r => r.latency.p99)
      scaling := fixedPayload.bind fun payload =>
        ThreadScaling.ofSweep (runs.filter fun r => r.payload = payload) axis }

def text (s : ImplementationSummary) : String :=
  s!"\n[{Text.upper s.implementation}] {s.runs} runs\n" ++
  s!"  Avg Throughput: {fixed 0 s.throughput.mean} ops/s " ++
  s!"(min: {fixed 0 s.throughput.min.value}, max: {fixed 0 s.throughput.max.value})" ++
  (match s.maxDepth with
    | none => ""
    | some d =>
      s!"\n  Avg Max Depth:  {fixed 1 d.mean} " ++
        s!"(min: {fixed 0 d.min.value}, max: {fixed 0 d.max.value})") ++
  (match s.p99Latency with
    | none => ""
    | some l =>
      s!"\n  Avg p99:        {fixed 2 l.mean} μs " ++
        s!"(min: {fixed 2 l.min.value}, max: {fixed 2 l.max.value})") ++
  (match s.scaling with
    | none => ""
    | some t =>
      s!"\n  Thread Scaling: {t.fromThreads}T={fixed 0 t.fromThroughput} ops/s -> " ++
      s!"{t.toThreads}T={fixed 0 t.toThroughput} ops/s (speedup: {fixed 2 t.speedup}x)")

end ImplementationSummary

namespace Summary

def names (runs : List Run) : List String :=
  (runs.map Run.implementation).eraseDups.mergeSort fun a b => decide (a ≤ b)

def ofRuns (runs : List Run) (fixedPayload : Option Nat) (axis : ThreadAxis) : Summary :=
  ⟨(names runs).filterMap fun n =>
    ImplementationSummary.ofRuns n (runs.filter fun r => r.implementation = n) fixedPayload axis⟩

def rule : String := String.ofList (List.replicate 72 '=')

def text (s : Summary) : String :=
  s!"{rule}\nPERFORMANCE SUMMARY\n{rule}" ++
    String.join (s.implementations.map fun e => "\n" ++ e.text)

end Summary

end QueueBench
