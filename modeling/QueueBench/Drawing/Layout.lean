/-!
# Layout

Sizes and type of a drawing, and the canvas that a grid of panels needs. Sizes are pixels. A
canvas is refused when a side does not fit 32 bits or its buffer does not fit 64. A buffer that
fits may still be more than one allocation holds.
-/
namespace QueueBench

structure Layout where
  panelWidth : Nat
  panelHeight : Nat
  /-- Height above the panels, for the title. -/
  titleArea : Nat
  margin : Nat
  xLabelArea : Nat
  yLabelArea : Nat
  fontFamily : String
  titleFont : Nat
  panelTitleFont : Nat
  axisFont : Nat
  /-- Ticks and legend. -/
  labelFont : Nat
  deriving DecidableEq, Repr

def Layout.default : Layout :=
  { panelWidth := 500, panelHeight := 400, titleArea := 50, margin := 10, xLabelArea := 50
    yLabelArea := 70, fontFamily := "sans-serif", titleFont := 28, panelTitleFont := 18
    axisFont := 16, labelFont := 13 }

structure Canvas where
  width : Nat
  height : Nat
  /-- Bytes of the pixel buffer, three for each pixel. -/
  buffer : Nat
  deriving DecidableEq, Repr

/-- The most bytes that one allocation holds. -/
def Canvas.maxAllocation : Nat := Nat.pow 2 63 - 1

def bounded (limit n : Nat) : Option Nat := if n ≤ limit then some n else none

def Canvas.ofGrid? (rows columns : Nat) (l : Layout) : Option Canvas := do
  let side := Nat.pow 2 32 - 1
  let columns ← bounded side columns
  let rows ← bounded side rows
  let width ← bounded side (l.panelWidth * columns)
  let panels ← bounded side (l.panelHeight * rows)
  let height ← bounded side (panels + l.titleArea)
  let pixels ← bounded (Nat.pow 2 64 - 1) (width * height)
  let buffer ← bounded (Nat.pow 2 64 - 1) (pixels * 3)
  return ⟨width, height, buffer⟩

end QueueBench
