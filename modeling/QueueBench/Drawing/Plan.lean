import QueueBench.Drawing.Call
import QueueBench.Drawing.Layout
import QueueBench.Event

/-!
# Drawing a chart

A chart becomes the list of calls that draw it. The list does not depend on what the surface
answers: the first refusal ends the drawing, with everything before it already drawn.
-/
namespace QueueBench

structure Step where
  call : Call
  purpose : String
  deriving DecidableEq, Repr

inductive DrawError where
  | tooLarge (rows columns : Nat)
  | refused (purpose : String) (call : String)
  /-- An image format holds no image without pixels. -/
  | noPixels (side : String)
  deriving DecidableEq, Repr

def DrawError.message : DrawError → String
  | tooLarge rows columns => s!"chart grid of {rows}x{columns} panels is too large to render"
  | refused purpose call => s!"failed to {purpose}: {call} refused"
  | noPixels side => s!"failed to PNG encode plot: Zero {side} not allowed"

def white : Rgb := ⟨255, 255, 255⟩

def black : Rgb := ⟨0, 0, 0⟩

def Step.silent (c : Call) : Step := ⟨c, ""⟩

namespace Layout

def font (l : Layout) (size : Nat) : Font := ⟨l.fontFamily, size⟩

def legend (l : Layout) : Step :=
  ⟨.legend ⟨.upperLeft, white, 0.8, black, l.font l.labelFont⟩, "draw legend"⟩

def frame (l : Layout) (cell : Nat) (p : Panel) (x : Range) : Step :=
  ⟨.chart
    { cell, caption := ⟨p.title, l.font l.panelTitleFont⟩, margin := l.margin
      xLabelArea := l.xLabelArea, yLabelArea := l.yLabelArea, x, y := p.yRange }, "build chart"⟩

def lineMesh (l : Layout) (p : Panel) (x : Range) : Step :=
  ⟨.mesh
    { x := ⟨x, .value .linear⟩, y := ⟨p.yRange, .value p.scale⟩
      xDescription := some p.xLabel, yDescription := p.yLabel, vertical := true, xLabels := none
      labelFont := l.font l.labelFont, descriptionFont := l.font l.axisFont }, "draw plot mesh"⟩

/-- Grid and axes of a bar panel; an empty x description is left out. -/
def barMesh (l : Layout) (p : Panel) (categories : List String) (x : Range) : Step :=
  ⟨.mesh
    { x := ⟨x, .category categories⟩, y := ⟨p.yRange, .value p.scale⟩
      xDescription := if p.xLabel = "" then none else some p.xLabel, yDescription := p.yLabel
      vertical := false, xLabels := some (max categories.length 1)
      labelFont := l.font l.labelFont, descriptionFont := l.font l.axisFont }, "draw plot mesh"⟩

end Layout

def Line.drawn (s : Scale) (l : Line) : List Point :=
  l.points.filterMap fun p => (s.position? p.y).map fun y => ⟨p.x, y⟩

def Line.stroke (l : Line) (points : List Point) : Element :=
  let paint := Paint.stroke l.style.color l.style.weight
  match l.style.line with
  | .solid => .polyline points paint
  | .dashed => .dashed points 6 4 paint

def Line.marker (l : Line) (p : Point) : Element :=
  let paint := Paint.fill l.style.color
  match l.style.marker with
  | .circle => .circle p (l.style.weight + 2) paint
  | .triangle => .triangle p (l.style.weight + 2) paint

/-- The line itself, its entry in the legend, then its markers. -/
def Line.steps (s : Scale) (l : Line) : List Step :=
  [⟨.series [l.stroke (l.drawn s)], s!"draw series {l.label}"⟩,
   .silent (.label l.label),
   .silent (.swatch (.stroke (.stroke l.style.color l.style.weight))),
   ⟨.series ((l.drawn s).map l.marker), s!"draw markers for {l.label}"⟩]

def linePanelSteps (cell : Nat) (p : Panel) (lines : List Line) (l : Layout) : List Step :=
  let x := xRangeOf lines
  [l.frame cell p x, l.lineMesh p x] ++ lines.flatMap (Line.steps p.scale) ++
    (if lines.isEmpty then [] else [l.legend])

/-- Left and right edge of the bar of group `index` in a category, when `groups` groups share
`groupWidth` of the unit and `inset` is left free on each side. `ofNat` embeds the natural
numbers into the numbers used. -/
def barEdges {α : Type} [Add α] [Sub α] [Mul α] [Div α] (ofNat : Nat → α) (groupWidth inset : α)
    (groups index category : Nat) : α × α :=
  let width := groupWidth / ofNat groups
  let offset := (ofNat index - (ofNat groups - ofNat 1) / ofNat 2) * width
  let center := ofNat category + offset
  (center - width / ofNat 2 + inset, center + width / ofNat 2 - inset)

/-- The bars of one group, each standing on `base`; gaps and values without a place are left out. -/
def BarGroup.bars (g : BarGroup) (s : Scale) (base : Float) (groups index : Nat) : List Element :=
  g.values.zipIdx.filterMap fun (value, category) => do
    let top ← s.position? (← value)
    let (left, right) := barEdges Float.ofNat 0.8 0.01 groups index category
    return .rectangle ⟨left, base⟩ ⟨right, top⟩ (.fill g.style.color)

def BarGroup.steps (g : BarGroup) (s : Scale) (base : Float) (groups index : Nat) : List Step :=
  [⟨.series (g.bars s base groups index), s!"draw bars for {g.label}"⟩,
   .silent (.label g.label),
   .silent (.swatch (.box (.fill g.style.color)))]

def barPanelSteps (cell : Nat) (p : Panel) (categories : List String) (groups : List BarGroup)
    (l : Layout) : List Step :=
  let x := barRange categories.length
  [l.frame cell p x, l.barMesh p categories x] ++
    groups.zipIdx.flatMap (fun (g, index) =>
      g.steps p.scale p.yRange.start (max groups.length 1) index) ++
    (if groups.isEmpty then [] else [l.legend])

def Panel.steps (p : Panel) (cell : Nat) (l : Layout) : List Step :=
  match p.body with
  | .lines lines => linePanelSteps cell p lines l
  | .bars categories groups => barPanelSteps cell p categories groups l

namespace Chart

/-- Columns of the drawn grid; it has at least one cell. -/
def gridColumns (c : Chart) : Nat := max c.columns 1

def gridRows (c : Chart) : Nat := max c.rows 1

def canvas (c : Chart) (l : Layout) : Except DrawError Canvas :=
  match Canvas.ofGrid? c.gridRows c.gridColumns l with
  | some canvas => .ok canvas
  | none => .error (.tooLarge c.gridRows c.gridColumns)

def placed (c : Chart) : List (Panel × Nat) :=
  (c.panels.take (c.gridRows * c.gridColumns)).zipIdx

def steps (c : Chart) (canvas : Canvas) (l : Layout) : List Step :=
  [.silent (.canvas canvas.width canvas.height canvas.buffer),
   ⟨.fill white, "fill plot background"⟩,
   ⟨.title ⟨c.title, l.font l.titleFont⟩, "draw chart title"⟩,
   .silent (.split c.gridRows c.gridColumns)] ++
    c.placed.flatMap (fun (p, cell) => p.steps cell l) ++
    [⟨.present, "present plotters buffer"⟩]

end Chart

/-- The calls made and the error that ended them, when the surface refuses the fallible call
number `refused`, counted from zero. -/
def runSteps (refused : Option Nat) : List Step → List Call × Option DrawError
  | [] => ([], none)
  | s :: rest =>
    if s.call.isFallible && refused == some 0 then ([], some (.refused s.purpose s.call.key))
    else
      let later := if s.call.isFallible then refused.map (· - 1) else refused
      let (calls, error) := runSteps later rest
      (s.call :: calls, error)

inductive Attempt (ε α : Type) where
  | ok (a : α)
  | error (e : ε)
  /-- More bytes were asked for than one allocation holds, which ends the program at once. -/
  | overflow (bytes : Nat)
  deriving DecidableEq, Repr

structure Drawing where
  calls : List Call
  /-- What was logged meanwhile. -/
  events : List Event
  outcome : Attempt DrawError Canvas

namespace Drawing

/-- An image has pixels in both directions. -/
def image (canvas : Canvas) : Attempt DrawError Canvas :=
  if canvas.width = 0 then .error (.noPixels "width")
  else if canvas.height = 0 then .error (.noPixels "height")
  else .ok canvas

/-- The buffer is allocated before the first call, and the image is encoded after the last. -/
def ofChart (c : Chart) (l : Layout) (refused : Option Nat) : Drawing :=
  match c.canvas l with
  | .error e => ⟨[], [], .error e⟩
  | .ok canvas =>
    if canvas.buffer ≤ Canvas.maxAllocation then
      match runSteps refused (c.steps canvas l) with
      | (calls, some e) => ⟨calls, [], .error e⟩
      | (calls, none) => ⟨calls, [.chartDrawn c.panels.length], image canvas⟩
    else ⟨[], [], .overflow canvas.buffer⟩

end Drawing

end QueueBench
