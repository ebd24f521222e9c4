import QueueBench.Run

/-!
# Fixed axes

The harness sweeps thread counts at one payload and payloads at one producer count, and
records neither. Each fixed value is recovered as the one under which the other quantity
takes the most values; between equals the smaller one is chosen.
-/
namespace QueueBench

/-- Values held fixed; `none` without data. -/
structure FixedAxes where
  payload : Option Nat
  threads : Option Nat
  deriving DecidableEq, Repr

def ascending (ns : List Nat) : List Nat := ns.eraseDups.mergeSort (· ≤ ·)

/-- How many values of `swept` occur together with `value` of `fixed`. -/
def coverage (runs : List Run) (fixed swept : Run → Nat) (value : Nat) : Nat :=
  ((runs.filter fun r => fixed r = value).map swept).eraseDups.length

def firstLargest (measure : Nat → Nat) : List Nat → Option Nat
  | [] => none
  | n :: ns => some (ns.foldl (fun best m => if measure best < measure m then m else best) n)

def widestSweep (runs : List Run) (fixed swept : Run → Nat) : Option Nat :=
  firstLargest (coverage runs fixed swept) (ascending (runs.map fixed))

namespace FixedAxes

def payloadOf (runs : List Run) : Option Nat := widestSweep runs Run.payload Run.producers

def threadsOf (runs : List Run) : Option Nat := widestSweep runs Run.producers Run.payload

def detect (runs : List Run) : FixedAxes := ⟨payloadOf runs, threadsOf runs⟩

end FixedAxes

end QueueBench
