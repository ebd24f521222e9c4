import QueueBench.Series

/-!
# Charts

A chart describes one figure: a grid of panels, filled row by row. Nothing here knows about
pixels or fonts. A builder that finds no data says so instead of giving an empty chart.
-/
namespace QueueBench

inductive Family where
  | scaling
  | sensitivity
  | distribution
  | efficiency
  | comparison
  deriving DecidableEq, Repr

namespace Family

/-- In the order of output. -/
def all : List Family := [scaling, distribution, sensitivity, efficiency, comparison]

def label : Family → String
  | scaling => "scaling"
  | sensitivity => "payload sensitivity"
  | distribution => "latency distribution"
  | efficiency => "efficiency"
  | comparison => "implementation comparison"

def tag : Family → String
  | scaling => "Scaling"
  | sensitivity => "Sensitivity"
  | distribution => "Distribution"
  | efficiency => "Efficiency"
  | comparison => "Comparison"

def fileStem : Family → String
  | scaling => "fig_threads_metrics"
  | sensitivity => "fig_payload_metrics"
  | distribution => "fig_latency_breakdown"
  | efficiency => "fig_efficiency"
  | comparison => "fig_implementation_comparison"

end Family

inductive Scale where
  | linear
  | log10
  deriving DecidableEq, Repr

structure Point where
  x : Float
  y : Float
  deriving DecidableEq, Repr

structure Line where
  label : String
  style : Style
  points : List Point
  deriving DecidableEq, Repr

/-- One value for each category; `none` leaves a gap. -/
structure BarGroup where
  label : String
  style : Style
  values : List (Option Float)
  deriving DecidableEq, Repr

inductive PanelBody where
  | lines (lines : List Line)
  | bars (categories : List String) (groups : List BarGroup)
  deriving DecidableEq, Repr

namespace PanelBody

def seriesLabels : PanelBody → List String
  | lines ls => ls.map Line.label
  | bars _ gs => gs.map BarGroup.label

def yValues : PanelBody → List Float
  | lines ls => ls.flatMap fun l => l.points.map Point.y
  | bars _ gs => gs.flatMap fun g => g.values.filterMap id

end PanelBody

structure Panel where
  title : String
  xLabel : String
  yLabel : String
  scale : Scale
  /-- A fixed y range; without one it follows from the data. -/
  limit : Option (Float × Float)
  body : PanelBody
  deriving DecidableEq, Repr

structure Chart where
  family : Family
  title : String
  columns : Nat
  panels : List Panel
  deriving DecidableEq, Repr

/-- Rows of the grid; a grid without columns has none. -/
def Chart.rows (c : Chart) : Nat :=
  if c.columns = 0 then 0 else (c.panels.length + c.columns - 1) / c.columns

structure InsufficientData where
  family : Family
  reason : String
  deriving DecidableEq, Repr

def InsufficientData.message (e : InsufficientData) : String :=
  s!"not enough data for {e.family.label} chart: {e.reason}"

abbrev ChartOutcome := Except InsufficientData Chart

end QueueBench
