import QueueBench.Run

/-!
# The latest run of each configuration

Runs are visited in the order in which they were read. A later run replaces an earlier one
with the same key and takes its place in the list.
-/
namespace QueueBench

/-- Put `a` in the place of the element with its key, or at the end. -/
def upsert {α κ : Type} [DecidableEq κ] (key : α → κ) (a : α) : List α → List α
  | [] => [a]
  | b :: bs => if key b = key a then a :: bs else b :: upsert key a bs

/-- One element for each key: the last, in the place of the first. -/
def latestBy {α κ : Type} [DecidableEq κ] (key : α → κ) (as : List α) : List α :=
  as.foldl (fun kept a => upsert key a kept) []

def Run.seriesKey (r : Run) : String × AllocMode := (r.implementation, r.mode)

@[simp] theorem latestBy_nil {α κ : Type} [DecidableEq κ] (key : α → κ) :
    latestBy key [] = [] := rfl

theorem latestBy_concat {α κ : Type} [DecidableEq κ] (key : α → κ) (as : List α) (a : α) :
    latestBy key (as ++ [a]) = upsert key a (latestBy key as) := by
  simp [latestBy]

end QueueBench
