import QueueBench.Run

/-!
# Columns

The columns of a result table and the header names that stand for them.
-/
namespace QueueBench

inductive Column where
  | implementation
  | mode
  | producers
  | consumers
  | payload
  | duration
  | throughput
  | latency (p : Percentile)
  | peakMemory
  | maxDepth
  deriving DecidableEq, Repr

namespace Column

def all : List Column :=
  [implementation, mode, producers, consumers, payload, duration, throughput] ++
    Percentile.all.map latency ++ [peakMemory, maxDepth]

def name : Column → String
  | implementation => "impl"
  | mode => "mode"
  | producers => "P"
  | consumers => "C"
  | payload => "payload_us"
  | duration => "duration_s"
  | throughput => "throughput"
  | latency .avg => "avg_lat"
  | latency .p50 => "p50"
  | latency .p95 => "p95"
  | latency .p99 => "p99"
  | latency .p999 => "p999"
  | latency .max => "max_lat"
  | peakMemory => "peak_mem_kb"
  | maxDepth => "max_depth"

def aliases : Column → List String
  | implementation => ["impl", "implementation", "queue"]
  | mode => ["mode", "alloc", "alloc_mode", "allocator"]
  | producers => ["p", "producers"]
  | consumers => ["c", "consumers"]
  | payload => ["payload_us", "payload"]
  | duration => ["duration_s", "duration"]
  | throughput => ["throughput", "throughput_ops", "throughput_cons"]
  | latency .avg => ["avg_lat", "avg_lat_ns", "avg"]
  | latency .p50 => ["p50", "p50_lat", "p50_ns"]
  | latency .p95 => ["p95", "p95_lat", "p95_ns"]
  | latency .p99 => ["p99", "p99_lat", "p99_ns"]
  | latency .p999 => ["p999", "p99.9", "p999_lat", "p999_ns"]
  | latency .max => ["max_lat", "max_lat_ns"]
  | peakMemory => ["peak_mem_kb", "peak_rss_kb"]
  | maxDepth => ["max_depth", "depth"]

/-- The column that a header names, whatever the blanks around it and the case of its letters. -/
def ofHeader? (header : String) : Option Column :=
  all.find? fun c => c.aliases.contains (Text.asciiLower (Text.trim header))

def percentile? : Column → Option Percentile
  | latency p => some p
  | _ => none

def isMandatory : Column → Bool
  | implementation | producers | consumers | payload | throughput => true
  | _ => false

theorem mem_all (c : Column) : c ∈ all := by
  cases c with
  | latency p => cases p <;> decide
  | _ => decide

end Column

end QueueBench
