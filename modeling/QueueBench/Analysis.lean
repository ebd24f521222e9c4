import QueueBench.Chart.AtPoint
import QueueBench.Summary

/-!
# Analysis

Everything derived from one list of runs: the fixed axes, an outcome for each family of charts
in the order of output, and the summary.
-/
namespace QueueBench

structure Options where
  axis : ThreadAxis
  splitByMode : Bool
  /-- Panels of the scaling and sensitivity charts; a metric without data is dropped. -/
  metrics : List Metric
  deriving DecidableEq, Repr

namespace Options

def default : Options :=
  ⟨.producers, false, [.throughput, .latency .p99, .peakMemory, .maxDepth]⟩

def scaling (o : Options) : Chart.ScalingOptions := ⟨o.axis, o.splitByMode, o.metrics⟩

end Options

structure Analysis where
  axes : FixedAxes
  charts : List ChartOutcome
  summary : Summary

namespace Analysis

def build (runs : List Run) (axes : FixedAxes) (o : Options) (styles : StyleTable) :
    Family → Logged ChartOutcome
  | .scaling => Chart.buildScaling runs axes.payload o.scaling styles
  | .sensitivity => return Chart.sensitivity runs axes.threads o.metrics styles
  | .distribution => return Chart.distribution runs axes.payload styles
  | .efficiency => return Chart.efficiency runs axes.threads styles
  | .comparison => return Chart.comparison runs axes styles

def outcome (runs : List Run) (axes : FixedAxes) (o : Options) (styles : StyleTable)
    (f : Family) : ChartOutcome :=
  (build runs axes o styles f).value

def perform (runs : List Run) (o : Options) (styles : StyleTable) : Logged Analysis := do
  let axes := FixedAxes.detect runs
  let charts ← Family.all.mapM (build runs axes o styles)
  return { axes, charts, summary := Summary.ofRuns runs axes.payload o.axis }

def ofRuns (runs : List Run) (o : Options) (styles : StyleTable) : Analysis :=
  (perform runs o styles).value

def built (a : Analysis) : List Chart := a.charts.filterMap Except.toOption

end Analysis

end QueueBench
