import QueueBench.Document
import QueueBench.Number.Shortest
import QueueBench.Report.Basic

/-!
# Formats of a report

A report as a document for other programs, and as lines for a reader.
-/
namespace QueueBench

/-- Numbers that are not finite have no JSON text. -/
def Document.quantity (x : Float) : Document :=
  if x.isFinite then number (Number.shortest x) else null

def Stats.document (s : Stats) : Document :=
  .record
    [("mean", .quantity s.mean), ("min", .quantity s.min.value), ("max", .quantity s.max.value)]

def ThreadScaling.document (t : ThreadScaling) : Document :=
  .record
    [("from_threads", .count t.fromThreads),
     ("from_throughput", .quantity t.fromThroughput),
     ("to_threads", .count t.toThreads),
     ("to_throughput", .quantity t.toThroughput),
     ("speedup", .quantity t.speedup)]

def ImplementationSummary.document (s : ImplementationSummary) : Document :=
  .record
    [("implementation", .text s.implementation),
     ("runs", .count s.runs),
     ("throughput", s.throughput.document),
     ("max_depth", .optional Stats.document s.maxDepth),
     ("p99_latency_us", .optional Stats.document s.p99Latency),
     ("scaling", .optional ThreadScaling.document s.scaling)]

def Summary.document (s : Summary) : Document :=
  .record [("implementations", .list (s.implementations.map ImplementationSummary.document))]

def FixedAxes.document (a : FixedAxes) : Document :=
  .record
    [("payload_us", .optional .count a.payload), ("threads", .optional .count a.threads)]

namespace OsString

def noTextMessage : String := "path contains invalid UTF-8 characters"

/-- A path is written as its text; without one the whole document fails. -/
def document (p : OsString) : Except String Document :=
  match p.text? with
  | some s => .ok (.text s)
  | none => .error noTextMessage

end OsString

def ChartStatus.fields : ChartStatus → Except String (List (String × Document))
  | saved path => return [("status", .text "saved"), ("path", ← path.document)]
  | skipped reason => return [("status", .text "skipped"), ("reason", .text reason)]
  | failed path error =>
    return [("status", .text "failed"), ("path", ← path.document), ("error", .text error)]

namespace ChartReport

def document (r : ChartReport) : Except String Document :=
  return .record (("family", .text r.family.tag) :: (← r.status.fields))

def line (r : ChartReport) : String :=
  match r.status with
  | .saved path => s!"   ✅ Saved: {path.display}"
  | .skipped reason => s!"   ⚠️  Skipped {r.family.label} chart: {reason}"
  | .failed path error => s!"   ❌ Failed {path.display}: {error}"

end ChartReport

namespace FixedAxes

def lines (a : FixedAxes) : List String :=
  [match a.payload with
    | some payload => s!"   Fixed payload for thread sweeps: {payload}μs"
    | none => "   No thread sweep found",
   match a.threads with
    | some threads => s!"   Fixed P for payload sweeps: {threads}"
    | none => "   No payload sweep found"]

end FixedAxes

namespace Report

def document (r : Report) : Except String Document :=
  return .record
    [("files", .list (← r.files.mapM OsString.document)),
     ("records", .count r.runs),
     ("malformed", .list (r.rejections.map fun x => .text x.message)),
     ("axes", r.axes.document),
     ("charts", .list (← r.charts.mapM ChartReport.document)),
     ("summary", r.summary.document)]

def lines (r : Report) : List String :=
  [s!"📂 Loaded {r.runs} row(s) from {r.files.length} file(s)"] ++
    (if r.rejections = [] then []
      else [s!"   ⚠️  Dropped {r.rejections.length} malformed row(s)"]) ++
    r.axes.lines ++
    ["", "📊 Charts:"] ++
    r.charts.map ChartReport.line ++
    ["", r.summary.text, ""]

end Report

def MissingInput.document (m : MissingInput) : Document :=
  .record [("error", .text "missing_input"), ("reason", .text m.reason)]

def MissingInput.lines (m : MissingInput) (folder : OsString) : List String :=
  [s!"⚠️  No usable input: {m.reason}",
   s!"   Run the benchmark harness first to populate {folder.display}"]

end QueueBench
