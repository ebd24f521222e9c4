import QueueBench.Drawing.Plan
import QueueBench.FileTree

/-!
# Image files

A drawing that succeeds is written to a file. The error names the step that failed, the
outermost first.
-/
namespace QueueBench

inductive ImageError where
  | drawing (family : Family) (cause : DrawError)
  | writing (path : OsString)
  deriving DecidableEq, Repr

def ImageError.message : ImageError → String
  | drawing family cause => s!"rendering {family.label} chart: {cause.message}"
  | writing path => s!"writing {path.display}"

def writeImage (t : FileTree) (path : OsString) (c : Chart) (l : Layout) (refused : Option Nat) :
    Attempt ImageError Canvas :=
  match (Drawing.ofChart c l refused).outcome with
  | .error cause => .error (.drawing c.family cause)
  | .overflow bytes => .overflow bytes
  | .ok canvas => if t.accepts path then .ok canvas else .error (.writing path)

end QueueBench
