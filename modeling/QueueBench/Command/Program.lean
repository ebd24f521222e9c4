import QueueBench.Command.Usage
import QueueBench.Report.Format

/-!
# The program

The program on one command line: what it prints, what it logs and how it ends.
-/
namespace QueueBench

namespace Arguments

def config (a : Arguments) : Config :=
  { Config.default with
    folder := a.folder
    options := { Options.default with axis := a.axis, splitByMode := a.splitModes } }

/-- The texts that are printed, each with a line end after it, or the complaint of the program. -/
def output (a : Arguments) : Except MissingInput Report → Except String (List String)
  | .ok report =>
    if a.json then return [(← report.document).toIndented]
    else return ["🚀 qbench - queue benchmark charts", "==================================", ""] ++
      report.lines
  | .error missing =>
    return if a.json then [missing.document.toCompact] else missing.lines a.folder

end Arguments

structure Execution where
  outcome : Except MissingInput Report
  output : Except String (List String)
  events : List Event

/-- Run the program; missing input is no failure of it. -/
def Execution.run {m : Type → Type} [Monad m] (t : FileTree) (a : Arguments) (render : Renderer m) :
    m Execution := do
  let pass ← (Report.generate t a.config .default render).run
  return { outcome := pass.value, output := a.output pass.value
           events := .started a.shown :: pass.events }

inductive Ending where
  /-- The command line does not lead to a run. -/
  | refused (r : Refusal)
  | ran (e : Execution)

namespace Ending

/-- What is written to the standard output, each text with a line end after it. -/
def printed : Ending → List String
  | refused r => if r.exitCode = 0 then r.lines else []
  | ran e => e.output.toOption.getD []

/-- What is written to the error stream besides the log. -/
def complaints : Ending → List String
  | refused r => if r.exitCode = 0 then [] else r.lines
  | ran { output := .error complaint, .. } => [s!"Error: {complaint}"]
  | ran _ => []

def exitCode : Ending → UInt32
  | refused r => r.exitCode
  | ran e => if e.output.isOk then 0 else 1

end Ending

def program {m : Type → Type} [Monad m] (t : FileTree) (render : Renderer m)
    (args : List OsString) : m Ending :=
  match Arguments.parse args with
  | .ok a => return .ran (← Execution.run t a render)
  | .error r => return .refused r

end QueueBench
