import QueueBench.Run

/-!
# Axes and metrics

What a chart plots against what. Harness versions disagree on whether "threads" means
producers, consumers or both, so all three can be selected.
-/
namespace QueueBench

inductive ThreadAxis where
  | producers
  | consumers
  | total
  deriving DecidableEq, Repr

namespace ThreadAxis

def name : ThreadAxis → String
  | producers => "producers"
  | consumers => "consumers"
  | total => "total"

def shortName : ThreadAxis → String
  | producers => "p"
  | consumers => "c"
  | total => "p+c"

def all : List ThreadAxis := [producers, consumers, total]

/-- The axis with this name or short name, up to ASCII case. -/
def ofName? (s : String) : Option ThreadAxis :=
  all.find? fun a => Text.sameLetters s a.name || Text.sameLetters s a.shortName

def unknownNameMessage : String := "Matching variant not found"

def value : ThreadAxis → Run → Nat
  | producers, r => r.producers
  | consumers, r => r.consumers
  | total, r => r.threads

end ThreadAxis

inductive XAxis where
  | threads (axis : ThreadAxis)
  | payload
  deriving DecidableEq, Repr

namespace XAxis

def raw : XAxis → Run → Nat
  | threads a, r => a.value r
  | payload, r => r.payload

def value (x : XAxis) (r : Run) : Float := Float.ofNat (x.raw r)

/-- A producer axis is labelled as symmetric when every run has as many consumers. -/
def label (x : XAxis) (runs : List Run) : String :=
  match x with
  | payload => "Payload (μs)"
  | threads .producers =>
    if runs ≠ [] ∧ ∀ r ∈ runs, r.producers = r.consumers then "Threads (P=C)" else "Threads (P)"
  | threads .consumers => "Threads (C)"
  | threads .total => "Threads (P+C)"

def title : XAxis → String
  | threads _ => "Threads"
  | payload => "Payload"

end XAxis

inductive Metric where
  | throughput
  | latency (p : Percentile)
  | peakMemory
  | maxDepth
  /-- Throughput as a percentage of what the consumers could reach if the payload were the
  only cost. -/
  | efficiency
  deriving DecidableEq, Repr

/-- Without a payload the ideal rate is unbounded, and there is no efficiency. -/
def Run.efficiency (r : Run) : Option Float :=
  if r.payload = 0 then none
  else
    let ideal := Float.ofNat r.consumers * (1000000 / Float.ofNat r.payload)
    some (r.throughput.value / ideal * 100)

namespace Metric

def value : Metric → Run → Option Float
  | throughput, r => some r.throughput.value
  | latency p, r => (r.latency.get p).map Double.value
  | peakMemory, r => r.peakMemory.map Double.value
  | maxDepth, r => r.maxDepth.map Float.ofNat
  | efficiency, r => r.efficiency

def label : Metric → String
  | throughput => "Throughput (ops/s)"
  | latency p => s!"{p.label} latency (μs)"
  | peakMemory => "Peak memory (MB)"
  | maxDepth => "Max queue depth"
  | efficiency => "Efficiency (% of ideal)"

def title : Metric → String
  | throughput => "Throughput"
  | latency p => s!"{p.label} Latency"
  | peakMemory => "Memory Peak"
  | maxDepth => "Max Depth"
  | efficiency => "Efficiency"

def withData (runs : List Run) (metrics : List Metric) : List Metric :=
  metrics.filter fun m => runs.any fun r => (m.value r).isSome

end Metric

end QueueBench
