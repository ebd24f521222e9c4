import QueueBench.Chart.Sweep
import QueueBench.FixedAxes

/-!
# Charts at one point

Bar charts of the runs at one producer count and one payload: the latency percentiles of each
implementation, and the implementations side by side. Each shows the latest run of every
implementation and mode.
-/
namespace QueueBench.Chart

def latencyRuns (runs : List Run) (payload : Nat) : List Run :=
  runs.filter fun r => r.payload = payload ∧ r.latency.isEmpty = false

/-- Files without latency may sweep further than those with it, so only the latter count. -/
def mostThreads (runs : List Run) : Option Nat := (runs.map Run.producers).max?

def distributionRuns (runs : List Run) (threads : Nat) : List Run :=
  latestBy Run.seriesKey (runs.filter fun r => r.producers = threads)

def percentilesOf (runs : List Run) : List Percentile :=
  Percentile.all.filter fun p => runs.any fun r => (r.latency.get p).isSome

def allocationTitle : AllocMode → String
  | .heap => "Heap allocation"
  | .pooled => "Pooled allocation"

def modePanel (runs : List Run) (mode : AllocMode) (styles : StyleTable) : Option Panel :=
  let percentiles := percentilesOf runs
  if percentiles = [] then none
  else some
    { title := allocationTitle mode
      xLabel := "Percentile"
      yLabel := "Latency (μs, log scale)"
      scale := .log10
      limit := none
      body := .bars (percentiles.map Percentile.label)
        ((group runs .byImplementation .payload styles).map fun s =>
          ⟨s.label, s.style, percentiles.map fun p => s.runs.head?.bind (Metric.latency p).value⟩) }

def distribution (runs : List Run) (fixedPayload : Option Nat) (styles : StyleTable) :
    ChartOutcome :=
  let missing (reason : String) : ChartOutcome := .error ⟨.distribution, reason⟩
  match fixedPayload with
  | none => missing "no thread sweep detected"
  | some payload =>
    let withLatency := latencyRuns runs payload
    match mostThreads withLatency with
    | none => missing s!"no latency data at payload {payload}μs"
    | some threads =>
      let subset := distributionRuns withLatency threads
      let panels := (modesOf subset).filterMap fun mode =>
        modePanel (subset.filter fun r => r.mode = mode) mode styles
      .ok
        { family := .distribution
          title := s!"Latency distribution (P={threads}, payload={payload}μs)"
          columns := panels.length
          panels }

def comparisonRuns (runs : List Run) (threads payload : Nat) : List Run :=
  latestBy Run.seriesKey (runs.filter fun r => r.producers = threads ∧ r.payload = payload)

/-- What stands beside throughput: depth, or tail latency where no run has a depth. -/
def secondaryMetric (runs : List Run) : Option Metric :=
  [Metric.maxDepth, .latency .p99].find? fun m => runs.any fun r => (m.value r).isSome

def comparisonPanel (series : List Series) (m : Metric) : Panel :=
  { title := s!"{m.title} Comparison"
    xLabel := ""
    yLabel := m.label
    scale := .linear
    limit := none
    body := .bars [m.title]
      (series.map fun s => ⟨s.label, s.style, [s.runs.head?.bind m.value]⟩) }

def comparison (runs : List Run) (axes : FixedAxes) (styles : StyleTable) : ChartOutcome :=
  let missing (reason : String) : ChartOutcome := .error ⟨.comparison, reason⟩
  match axes.threads, axes.payload with
  | some threads, some payload =>
    let subset := comparisonRuns runs threads payload
    if subset = [] then missing s!"no runs at P={threads}, payload {payload}μs"
    else
      let series := group subset (Grouping.infer subset) .payload styles
      let metrics := Metric.throughput :: (secondaryMetric subset).toList
      let panels := metrics.map (comparisonPanel series)
      .ok
        { family := .comparison
          title := s!"Implementation comparison (P={threads}, payload={payload}μs)"
          columns := panels.length
          panels }
  | _, _ => missing "fixed thread count or payload not detected"

end QueueBench.Chart
