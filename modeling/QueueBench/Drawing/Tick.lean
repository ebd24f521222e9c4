import QueueBench.Drawing.Range
import QueueBench.Number.Fixed

/-!
# Tick labels

Where a value stands on a drawn axis, and the text at a tick of that axis.
-/
namespace QueueBench

open Number (fixed scientific)

/-- Position on the drawn axis; a value that is not positive has none on a logarithmic axis. -/
def Scale.position? (s : Scale) (value : Float) : Option Float :=
  match s with
  | .linear => some value
  | .log10 => if 0 < value then some value.log10 else none

def valueText (value : Float) : String :=
  let magnitude := value.abs
  if 1000000 ≤ magnitude then scientific 1 value
  else if 100 ≤ magnitude || value.floor == value then fixed 0 value
  else if 1 ≤ magnitude then fixed 1 value
  else fixed 2 value

def Scale.valueAt (s : Scale) (position : Float) : Float :=
  match s with
  | .linear => position
  | .log10 => Float.pow 10 position

def categoryText (categories : List String) (x : Float) : String :=
  let index := x.round
  if (x - index).abs > 1e-6 || index < 0 then ""
  else (categories[index.toUInt64.toNat]?).getD ""

inductive TickText where
  | value (scale : Scale)
  | category (names : List String)
  deriving DecidableEq, Repr

def TickText.text : TickText → Float → String
  | value scale, x => valueText (scale.valueAt x)
  | category names, x => categoryText names x

end QueueBench
