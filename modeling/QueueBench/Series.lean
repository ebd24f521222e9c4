import QueueBench.Axis
import QueueBench.Style

/-!
# Series

Runs are partitioned by implementation, or by implementation and mode, into series that are
ordered by their keys. Inside a series runs stand in the order of the x axis, and runs at one
x value in the order in which they came.
-/
namespace QueueBench

/-- Without a mode, modes are not told apart. -/
structure SeriesKey where
  implementation : String
  mode : Option AllocMode
  deriving DecidableEq, Repr

namespace SeriesKey

def label (k : SeriesKey) : String :=
  match k.mode with
  | some m => s!"{k.implementation} ({m.name})"
  | none => k.implementation

def modeRank (k : SeriesKey) : Nat :=
  match k.mode with
  | none => 0
  | some m => m.rank + 1

def le (a b : SeriesKey) : Bool :=
  decide (a.implementation < b.implementation) ||
    (a.implementation == b.implementation && a.modeRank ≤ b.modeRank)

end SeriesKey

inductive Grouping where
  | byImplementation
  | byImplementationAndMode
  deriving DecidableEq, Repr

namespace Grouping

/-- Modes are told apart only when the runs mix them. -/
def infer : List Run → Grouping
  | [] => byImplementation
  | first :: rest =>
    if rest.all fun r => r.mode = first.mode then byImplementation else byImplementationAndMode

def key (g : Grouping) (r : Run) : SeriesKey :=
  match g with
  | byImplementation => ⟨r.implementation, none⟩
  | byImplementationAndMode => ⟨r.implementation, some r.mode⟩

def keys (g : Grouping) (runs : List Run) : List SeriesKey :=
  (runs.map g.key).eraseDups.mergeSort SeriesKey.le

end Grouping

structure Series where
  key : SeriesKey
  runs : List Run
  style : Style
  deriving DecidableEq, Repr

namespace Series

def label (s : Series) : String := s.key.label

/-- The mode on which all runs agree, else heap. -/
def sharedMode : List Run → AllocMode
  | [] => .heap
  | first :: rest => if rest.all fun r => r.mode = first.mode then first.mode else .heap

def ofKey (runs : List Run) (g : Grouping) (x : XAxis) (styles : StyleTable) (k : SeriesKey) :
    Series :=
  let members := (runs.filter fun r => g.key r = k).mergeSort fun a b => x.raw a ≤ x.raw b
  ⟨k, members, styles.style k.implementation (k.mode.getD (sharedMode members))⟩

end Series

def group (runs : List Run) (g : Grouping) (x : XAxis) (styles : StyleTable) : List Series :=
  (g.keys runs).map (Series.ofKey runs g x styles)

end QueueBench
