import QueueBench.Chart.Basic

/-!
# Axis ranges

The range that an axis covers: whole steps of a power of ten around linear data, whole decades
around logarithmic data, and a small margin around the x values.
-/
namespace QueueBench

structure Range where
  start : Float
  stop : Float
  deriving DecidableEq, Repr

/-- The smaller operand; a NaN gives way to the other, and of equals the second is taken. -/
def floatMin (a b : Float) : Float :=
  if a.isNaN then b else if b.isNaN || a < b then a else b

/-- The larger operand; a NaN gives way to the other, and of equals the second is taken. -/
def floatMax (a b : Float) : Float :=
  if a.isNaN then b else if b.isNaN || b < a then a else b

def infinity : Float := 1 / 0

def smallestNormal : Float := Float.ofBits 0x0010000000000000

namespace Range

def unit : Range := ⟨0, 1⟩

def nice (min max : Float) : Range :=
  if !min.isFinite || !max.isFinite then unit
  else
    let width := max - min
    if width == 0 then ⟨min - 0.5, min + 0.5⟩
    else
      let step := Float.pow 10 width.log10.floor
      ⟨(min / step).floor * step, (max / step).ceil * step⟩

/-- Exponents of the whole decades around `min` to `max`, both positive. -/
def decades (min max : Float) : Range :=
  let lo := min.log10.floor
  let hi := (floatMax max min).log10.ceil
  ⟨lo, if hi ≤ lo then lo + 1 else hi⟩

/-- Smallest and largest of the values; the empty range is turned inside out. -/
def hull (values : List Float) : Range :=
  values.foldl (fun r v => ⟨floatMin r.start v, floatMax r.stop v⟩) ⟨infinity, -infinity⟩

/-- A linear axis always shows zero, and starts at plus zero when no value is below it. -/
def linear (values : List Float) : Range :=
  if values.isEmpty then unit
  else nice (floatMin (hull values).start 0) (hull values).stop

def logarithmic (values : List Float) : Range :=
  let least := (values.filter (0 < ·)).foldl floatMin infinity
  if least.isFinite then decades least (hull values).stop else unit

def padded (r : Range) : Range :=
  if !r.start.isFinite then unit
  else if r.start == r.stop then ⟨r.start - 1, r.stop + 1⟩
  else
    let pad := (r.stop - r.start) * 0.05
    ⟨r.start - pad, r.stop + pad⟩

end Range

def Panel.yRange (p : Panel) : Range :=
  match p.limit, p.scale with
  | some (lo, hi), .linear => ⟨lo, hi⟩
  | some (lo, hi), .log10 => .decades (floatMax lo smallestNormal) hi
  | none, .linear => .linear (p.body.yValues.filter Float.isFinite)
  | none, .log10 => .logarithmic (p.body.yValues.filter Float.isFinite)

def xRangeOf (lines : List Line) : Range :=
  (Range.hull (lines.flatMap fun l => l.points.map Point.x)).padded

def barRange (categories : Nat) : Range := ⟨-0.5, Float.ofNat (max categories 1) - 0.5⟩

end QueueBench
