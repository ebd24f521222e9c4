import QueueBench.Drawing.Tick

/-!
# Drawing calls

The calls that a drawing makes to its surface, in data coordinates. Some of them can be
refused; the others always succeed.
-/
namespace QueueBench

structure Font where
  family : String
  size : Nat
  deriving DecidableEq, Repr

structure StyledText where
  text : String
  font : Font
  deriving DecidableEq, Repr

inductive Paint where
  | stroke (color : Rgb) (width : Nat)
  | fill (color : Rgb)
  deriving DecidableEq, Repr

inductive Element where
  | polyline (points : List Point) (paint : Paint)
  | dashed (points : List Point) (size spacing : Nat) (paint : Paint)
  | circle (center : Point) (size : Nat) (paint : Paint)
  | triangle (center : Point) (size : Nat) (paint : Paint)
  | rectangle (corner opposite : Point) (paint : Paint)
  deriving DecidableEq, Repr

inductive Swatch where
  | stroke (paint : Paint)
  | box (paint : Paint)
  deriving DecidableEq, Repr

def Swatch.ends (s : Swatch) (x y : Int) : (Int × Int) × (Int × Int) :=
  match s with
  | stroke _ => ((x, y), (x + 20, y))
  | box _ => ((x, y - 5), (x + 20, y + 5))

structure Frame where
  /-- Number of the cell, row by row. -/
  cell : Nat
  caption : StyledText
  margin : Nat
  xLabelArea : Nat
  yLabelArea : Nat
  x : Range
  y : Range
  deriving DecidableEq, Repr

structure DrawnAxis where
  range : Range
  ticks : TickText
  deriving DecidableEq, Repr

/-- Texts at the start, at zero, at one and at the end. -/
def DrawnAxis.samples (a : DrawnAxis) : List String :=
  [a.range.start, 0, 1, a.range.stop].map a.ticks.text

structure Mesh where
  x : DrawnAxis
  y : DrawnAxis
  xDescription : Option String
  yDescription : String
  /-- Vertical lines are drawn. -/
  vertical : Bool
  /-- Number of x labels, when it is fixed. -/
  xLabels : Option Nat
  labelFont : Font
  descriptionFont : Font
  deriving DecidableEq, Repr

inductive LegendPosition where
  | upperLeft
  deriving DecidableEq, Repr

structure Legend where
  position : LegendPosition
  background : Rgb
  opacity : Float
  border : Rgb
  font : Font
  deriving DecidableEq, Repr

inductive Call where
  | canvas (width height buffer : Nat)
  | fill (color : Rgb)
  | title (text : StyledText)
  | split (rows columns : Nat)
  | chart (frame : Frame)
  | mesh (mesh : Mesh)
  | series (elements : List Element)
  | label (text : String)
  | swatch (swatch : Swatch)
  | legend (legend : Legend)
  | present
  deriving DecidableEq, Repr

namespace Call

def key : Call → String
  | canvas .. => "canvas"
  | fill _ => "fill"
  | title _ => "title"
  | split .. => "split"
  | chart _ => "chart"
  | mesh _ => "mesh"
  | series _ => "series"
  | label _ => "label"
  | swatch _ => "swatch"
  | legend _ => "legend"
  | present => "present"

def isFallible : Call → Bool
  | canvas .. | split .. | label _ | swatch _ => false
  | _ => true

end Call

end QueueBench
