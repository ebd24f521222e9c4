import QueueBench.Analysis
import QueueBench.Loading

/-!
# Reports

One pass over a folder of result files: load them, analyse the runs, and have every chart drawn.
Only missing input stops a pass; a chart without data is skipped, and a chart that cannot be drawn
leaves the others alone. Drawing is a parameter, so the same pass runs with any surface.
-/
namespace QueueBench

structure Config where
  /-- Where result files are read from and images are written to. -/
  folder : OsString
  /-- Extension of result files, up to ASCII case. -/
  extension : String
  /-- A file with this text in its name holds runs of the pooled mode. -/
  marker : String
  options : Options
  deriving DecidableEq, Repr

def Config.default : Config := ⟨"results", "csv", "pool", .default⟩

inductive MissingInput where
  | noFiles (extension : String) (folder : OsString)
  | noRuns (files : Nat) (folder : OsString)
  deriving DecidableEq, Repr

namespace MissingInput

def reason : MissingInput → String
  | noFiles extension folder => s!"no *.{extension} files in {folder.display}"
  | noRuns files folder => s!"none of the {files} file(s) in {folder.display} has a valid row"

def message (m : MissingInput) : String := s!"No usable input: {m.reason}"

end MissingInput

inductive ChartStatus where
  | saved (path : OsString)
  | skipped (reason : String)
  | failed (path : OsString) (error : String)
  deriving DecidableEq, Repr

structure ChartReport where
  family : Family
  status : ChartStatus
  deriving DecidableEq, Repr

namespace ChartReport

def isSaved (r : ChartReport) : Bool :=
  match r.status with
  | .saved _ => true
  | _ => false

end ChartReport

structure Report where
  /-- The files that could be read. -/
  files : List OsString
  runs : Nat
  rejections : List Rejection
  axes : FixedAxes
  charts : List ChartReport
  summary : Summary
  deriving DecidableEq, Repr

/-- Draws a chart into the file at a path, or says why it could not. -/
abbrev Renderer (m : Type → Type) := Chart → OsString → m (Except String Unit)

def Family.imagePath (folder : OsString) (f : Family) : OsString :=
  Path.join folder (f.fileStem ++ ".png" : String)

def ChartReport.ofOutcome {m : Type → Type} [Monad m] (folder : OsString) (render : Renderer m) :
    ChartOutcome → LoggedT m ChartReport
  | .error e => do
    Logged.log (.chartSkipped e)
    return ⟨e.family, .skipped e.reason⟩
  | .ok chart => do
    let path := chart.family.imagePath folder
    match ← render chart path with
    | .ok () => do
      Logged.log (.chartSaved path)
      return ⟨chart.family, .saved path⟩
    | .error error => do
      Logged.log (.chartFailed path error)
      return ⟨chart.family, .failed path error⟩

def FixedAxes.log (a : FixedAxes) : Logged Unit := do
  Logged.log (.payloadFixed a.payload)
  Logged.log (.threadsFixed a.threads)

namespace Report

def saved (r : Report) : Nat := r.charts.countP ChartReport.isSaved

/-- Load, analyse, and draw in the order of families. -/
def generate {m : Type → Type} [Monad m] (t : FileTree) (c : Config) (styles : StyleTable)
    (render : Renderer m) : LoggedT m (Except MissingInput Report) := do
  let paths ← t.search c.folder c.extension
  if paths = [] then
    return .error (.noFiles c.extension c.folder)
  let loading ← Loading.read t c.marker paths
  if loading.runs = [] then
    return .error (.noRuns paths.length c.folder)
  let analysis ← Analysis.perform loading.runs c.options styles
  analysis.axes.log
  let charts ← analysis.charts.mapM (ChartReport.ofOutcome c.folder render)
  return .ok
    { files := loading.files
      runs := loading.runs.length
      rejections := loading.rejections
      axes := analysis.axes
      charts
      summary := analysis.summary }

end Report

end QueueBench
