import QueueBench.Chart.Basic
import QueueBench.Latest
import QueueBench.Logged

/-!
# Charts of a sweep

Line charts of one quantity that was swept while another was held fixed: metrics against
thread counts, metrics against payloads, and efficiency against payloads. Each shows the
latest run of every configuration.
-/
namespace QueueBench

/-- Points of a series for one metric; runs without a value are left out. -/
def Series.points (s : Series) (x : XAxis) (m : Metric) : List Point :=
  s.runs.filterMap fun r => (m.value r).map fun y => ⟨x.value r, y⟩

def metricLines (series : List Series) (x : XAxis) (m : Metric) : List Line :=
  (series.map fun s => (⟨s.label, s.style, s.points x m⟩ : Line)).filter fun l => l.points ≠ []

def linePanels (runs : List Run) (x : XAxis) (metrics : List Metric) (g : Grouping)
    (styles : StyleTable) (suffix : String) : List Panel :=
  let series := group runs g x styles
  metrics.map fun m =>
    { title := s!"{m.title} vs {x.title}{suffix}"
      xLabel := x.label runs
      yLabel := m.label
      scale := .linear
      limit := none
      body := .lines (metricLines series x m) }

def Run.configuration (x : XAxis) (r : Run) : String × AllocMode × Nat :=
  (r.implementation, r.mode, x.raw r)

def modesOf (runs : List Run) : List AllocMode :=
  AllocMode.all.filter fun m => runs.any fun r => r.mode = m

def noMetricReason : String := "none of the requested metrics has data"

namespace Chart

structure ScalingOptions where
  axis : ThreadAxis
  /-- One row of panels for each mode, instead of one row for all. -/
  splitByMode : Bool
  metrics : List Metric
  deriving DecidableEq, Repr

def scalingRuns (runs : List Run) (payload : Nat) (axis : ThreadAxis) : List Run :=
  latestBy (Run.configuration (.threads axis)) (runs.filter fun r => r.payload = payload)

def scalingPanels (runs : List Run) (o : ScalingOptions) (metrics : List Metric)
    (styles : StyleTable) : List Panel :=
  let x := XAxis.threads o.axis
  if o.splitByMode then
    (modesOf runs).flatMap fun mode =>
      linePanels (runs.filter fun r => r.mode = mode) x metrics .byImplementation styles
        s!" [{mode.name}]"
  else linePanels runs x metrics (Grouping.infer runs) styles ""

def buildScaling (runs : List Run) (fixedPayload : Option Nat) (o : ScalingOptions)
    (styles : StyleTable) : Logged ChartOutcome :=
  let missing (reason : String) : Logged ChartOutcome := return .error ⟨.scaling, reason⟩
  match fixedPayload with
  | none => missing "no thread sweep detected"
  | some payload =>
    let subset := scalingRuns runs payload o.axis
    let metrics := Metric.withData subset o.metrics
    if subset = [] then missing s!"no runs at payload {payload}μs"
    else if metrics = [] then missing noMetricReason
    else do
      Logged.log (.scalingBuilt subset.length metrics.length)
      return .ok
        { family := .scaling
          title := s!"Scaling with threads (payload={payload}μs)"
          columns := metrics.length
          panels := scalingPanels subset o metrics styles }

def scaling (runs : List Run) (fixedPayload : Option Nat) (o : ScalingOptions)
    (styles : StyleTable) : ChartOutcome :=
  (buildScaling runs fixedPayload o styles).value

def sensitivityRuns (runs : List Run) (threads : Nat) : List Run :=
  latestBy (Run.configuration .payload) (runs.filter fun r => r.producers = threads)

def sensitivity (runs : List Run) (fixedThreads : Option Nat) (requested : List Metric)
    (styles : StyleTable) : ChartOutcome :=
  let missing (reason : String) : ChartOutcome := .error ⟨.sensitivity, reason⟩
  match fixedThreads with
  | none => missing "no payload sweep detected"
  | some threads =>
    let subset := sensitivityRuns runs threads
    let metrics := Metric.withData subset requested
    if subset = [] then missing s!"no runs at P={threads}"
    else if metrics = [] then missing noMetricReason
    else .ok
      { family := .sensitivity
        title := s!"Payload sensitivity (P={threads})"
        columns := metrics.length
        panels := linePanels subset .payload metrics (Grouping.infer subset) styles "" }

/-- The runs of an efficiency chart; a run without payload has no efficiency. -/
def efficiencyRuns (runs : List Run) (threads : Nat) : List Run :=
  latestBy (Run.configuration .payload)
    (runs.filter fun r => r.producers = threads ∧ 0 < r.payload)

/-- Y range of an efficiency panel, in percent. -/
def efficiencyLimit : Float × Float := (0, 110)

def efficiency (runs : List Run) (fixedThreads : Option Nat) (styles : StyleTable) :
    ChartOutcome :=
  let missing (reason : String) : ChartOutcome := .error ⟨.efficiency, reason⟩
  match fixedThreads with
  | none => missing "no payload sweep detected"
  | some threads =>
    let subset := efficiencyRuns runs threads
    if subset = [] then missing s!"no runs with non-zero payload at P={threads}"
    else
      let series := group subset (Grouping.infer subset) .payload styles
      .ok
        { family := .efficiency
          title := s!"Efficiency (P={threads})"
          columns := 1
          panels :=
            [{ title := s!"Efficiency vs Payload (P={threads})"
               xLabel := XAxis.payload.label subset
               yLabel := Metric.efficiency.label
               scale := .linear
               limit := some efficiencyLimit
               body := .lines (metricLines series .payload .efficiency) }] }

end Chart

end QueueBench
