import QueueBench.Command.Program
import QueueBench.Proofs.Json.Layout
import QueueBench.Proofs.Json.Numbers
import QueueBench.Proofs.OsString
import QueueBench.Proofs.Pass

/-! # Output for other programs

With the option for it, a run prints one text of JSON and a line end, whatever the files hold and
whichever charts fail. The text stands for the report, or for what keeps the run from starting. A
path that is not UTF-8 has no such text: a run that has to name one ends in a failure and prints
nothing. -/
namespace QueueBench

open Document (Prints PrintsField prints_null prints_number prints_text prints_list prints_record)

namespace Json

def count (n : ℕ) : Json := number n

def quantity (x : Float) : Json := if x.isFinite then number (Number.decimal x) else null

def optional {α : Type} (f : α → Json) : Option α → Json
  | some a => f a
  | none => null

def path (p : OsString) : Json := string p.display

end Json

section Report

def Stats.json (s : Stats) : Json :=
  .object
    [("mean", .quantity s.mean), ("min", .quantity s.min.value), ("max", .quantity s.max.value)]

def ThreadScaling.json (t : ThreadScaling) : Json :=
  .object
    [("from_threads", .count t.fromThreads),
     ("from_throughput", .quantity t.fromThroughput),
     ("to_threads", .count t.toThreads),
     ("to_throughput", .quantity t.toThroughput),
     ("speedup", .quantity t.speedup)]

def ImplementationSummary.json (s : ImplementationSummary) : Json :=
  .object
    [("implementation", .string s.implementation),
     ("runs", .count s.runs),
     ("throughput", s.throughput.json),
     ("max_depth", .optional Stats.json s.maxDepth),
     ("p99_latency_us", .optional Stats.json s.p99Latency),
     ("scaling", .optional ThreadScaling.json s.scaling)]

def Summary.json (s : Summary) : Json :=
  .object [("implementations", .array (s.implementations.map ImplementationSummary.json))]

def FixedAxes.json (a : FixedAxes) : Json :=
  .object [("payload_us", .optional .count a.payload), ("threads", .optional .count a.threads)]

def ChartStatus.json : ChartStatus → List (String × Json)
  | .saved path => [("status", .string "saved"), ("path", .path path)]
  | .skipped reason => [("status", .string "skipped"), ("reason", .string reason)]
  | .failed path error =>
    [("status", .string "failed"), ("path", .path path), ("error", .string error)]

def ChartReport.json (r : ChartReport) : Json :=
  .object (("family", .string r.family.tag) :: r.status.json)

def ChartReport.paths (r : ChartReport) : List OsString := r.status.path?.toList

namespace Report

def paths (r : Report) : List OsString := r.files ++ r.charts.flatMap ChartReport.paths

/-- The report as a value: its texts are strings, its counts are numbers. -/
def json (r : Report) : Json :=
  .object
    [("files", .array (r.files.map .path)),
     ("records", .count r.runs),
     ("malformed", .array (r.rejections.map fun x => .string x.message)),
     ("axes", r.axes.json),
     ("charts", .array (r.charts.map ChartReport.json)),
     ("summary", r.summary.json)]

end Report

def MissingInput.json (m : MissingInput) : Json :=
  .object [("error", .string "missing_input"), ("reason", .string m.reason)]

end Report

section Prints

theorem prints_count (n : ℕ) : (Document.count n).Prints (.count n) :=
  prints_number (Json.numberText_toString n)

theorem prints_quantity (x : Float) : (Document.quantity x).Prints (.quantity x) := by
  unfold Document.quantity Json.quantity
  split
  · exact prints_number (Number.numberText_shortest x)
  · exact prints_null

variable {α : Type} {f : α → Document} {g : α → Json}

theorem prints_optional (h : ∀ a, (f a).Prints (g a)) (o : Option α) :
    (Document.optional f o).Prints (.optional g o) := by
  cases o with
  | none => exact prints_null
  | some a => exact h a

theorem prints_map (h : ∀ a, (f a).Prints (g a)) (as : List α) :
    (Document.list (as.map f)).Prints (.array (as.map g)) := by
  refine prints_list (List.forall₂_map_left_iff.mpr (List.forall₂_map_right_iff.mpr ?_))
  exact List.forall₂_same.mpr fun a _ => h a

theorem prints_stats (s : Stats) : s.document.Prints s.json :=
  prints_record (.cons ⟨rfl, prints_quantity _⟩ (.cons ⟨rfl, prints_quantity _⟩
    (.cons ⟨rfl, prints_quantity _⟩ .nil)))

theorem prints_threadScaling (t : ThreadScaling) : t.document.Prints t.json :=
  prints_record (.cons ⟨rfl, prints_count _⟩ (.cons ⟨rfl, prints_quantity _⟩
    (.cons ⟨rfl, prints_count _⟩ (.cons ⟨rfl, prints_quantity _⟩
      (.cons ⟨rfl, prints_quantity _⟩ .nil)))))

theorem prints_implementation (s : ImplementationSummary) : s.document.Prints s.json :=
  prints_record (.cons ⟨rfl, prints_text _⟩ (.cons ⟨rfl, prints_count _⟩
    (.cons ⟨rfl, prints_stats _⟩ (.cons ⟨rfl, prints_optional prints_stats _⟩
      (.cons ⟨rfl, prints_optional prints_stats _⟩
        (.cons ⟨rfl, prints_optional prints_threadScaling _⟩ .nil))))))

theorem prints_summary (s : Summary) : s.document.Prints s.json :=
  prints_record (.cons ⟨rfl, prints_map prints_implementation _⟩ .nil)

theorem prints_axes (a : FixedAxes) : a.document.Prints a.json :=
  prints_record (.cons ⟨rfl, prints_optional prints_count _⟩
    (.cons ⟨rfl, prints_optional prints_count _⟩ .nil))

theorem prints_missingInput (m : MissingInput) : m.document.Prints m.json :=
  prints_record (.cons ⟨rfl, prints_text _⟩ (.cons ⟨rfl, prints_text _⟩ .nil))

end Prints

section Paths

/-- What is written with these paths in it: it is right when each of them is a text, and there is
only the complaint when one is not. -/
structure Written {α : Type} (paths : List OsString) (Right : α → Prop) (x : Except String α) :
    Prop where
  right : (∀ p ∈ paths, p.IsText) → ∃ a, x = .ok a ∧ Right a
  failed : (∃ p ∈ paths, ¬ p.IsText) → x = .error OsString.noTextMessage

variable {α β : Type} {paths paths' : List OsString} {Right : α → Prop} {Right' : β → Prop}
  {x : Except String α}

theorem written_pure {a : α} (h : Right a) : Written [] Right (pure a) where
  right _ := ⟨a, rfl, h⟩
  failed := by
    rintro ⟨p, hp, _⟩
    cases hp

theorem Written.bind (h : Written paths Right x) {f : α → Except String β}
    (hf : ∀ a, Right a → Written paths' Right' (f a)) :
    Written (paths ++ paths') Right' (x >>= f) where
  right ht := by
    rw [List.forall_mem_append] at ht
    obtain ⟨a, rfl, ha⟩ := h.right ht.1
    exact (hf a ha).right ht.2
  failed := by
    rintro ⟨p, hp, hn⟩
    by_cases ht : ∀ p ∈ paths, p.IsText
    · obtain ⟨a, rfl, ha⟩ := h.right ht
      have hp' : p ∈ paths' := (List.mem_append.mp hp).resolve_left fun hp => hn (ht p hp)
      exact (hf a ha).failed ⟨p, hp', hn⟩
    · push Not at ht
      rw [h.failed ht]
      rfl

theorem Written.map (h : Written paths Right x) {f : α → β} (hf : ∀ a, Right a → Right' (f a)) :
    Written paths Right' (x >>= fun a => pure (f a)) := by
  rw [← List.append_nil paths]
  exact h.bind fun a ha => written_pure (hf a ha)

theorem written_mapM {f : α → Except String β} {named : α → List OsString} {Fits : α → β → Prop}
    (h : ∀ a, Written (named a) (Fits a) (f a)) (as : List α) :
    Written (as.flatMap named) (List.Forall₂ Fits as) (as.mapM f) := by
  induction as with
  | nil => exact written_pure .nil
  | cons a as ih =>
    rw [List.mapM_cons, List.flatMap_cons]
    exact (h a).bind fun b hb => ih.map fun bs hbs => .cons hb hbs

theorem written_path (p : OsString) : Written [p] (·.Prints (.path p)) p.document where
  right ht := by
    obtain ⟨u, rfl⟩ := OsString.isText_iff.mp (ht p List.mem_cons_self)
    refine ⟨.text u, ?_, ?_⟩
    · rw [OsString.document, OsString.text?_ofText]
    · rw [Json.path, OsString.display_ofText]
      exact prints_text u
  failed := by
    rintro ⟨q, hq, hn⟩
    obtain rfl := List.mem_singleton.mp hq
    unfold OsString.document
    cases hu : q.text? with
    | none => rfl
    | some u => exact (hn (OsString.isText_iff.mpr ⟨u, OsString.text?_eq_some_iff.mp hu⟩)).elim

theorem written_status (status : ChartStatus) :
    Written status.path?.toList (List.Forall₂ PrintsField · status.json) status.fields := by
  cases status with
  | saved path =>
    exact (written_path path).map fun _ hd => .cons ⟨rfl, prints_text _⟩ (.cons ⟨rfl, hd⟩ .nil)
  | skipped reason =>
    exact written_pure (.cons ⟨rfl, prints_text _⟩ (.cons ⟨rfl, prints_text _⟩ .nil))
  | failed path error =>
    exact (written_path path).map fun _ hd => .cons ⟨rfl, prints_text _⟩
      (.cons ⟨rfl, hd⟩ (.cons ⟨rfl, prints_text _⟩ .nil))

theorem written_chart (r : ChartReport) : Written r.paths (·.Prints r.json) r.document :=
  (written_status r.status).map fun _ hfields => prints_record (.cons ⟨rfl, prints_text _⟩ hfields)

theorem written_list {f : α → Except String Document} {g : α → Json} {named : α → List OsString}
    (h : ∀ a, Written (named a) (·.Prints (g a)) (f a)) (as : List α) :
    Written (as.flatMap named) (fun ds => (Document.list ds).Prints (.array (as.map g)))
      (as.mapM f) where
  right ht := by
    obtain ⟨ds, hds, hfits⟩ := (written_mapM h as).right ht
    exact ⟨ds, hds, prints_list (List.forall₂_map_right_iff.mpr hfits.flip)⟩
  failed := (written_mapM h as).failed

theorem written_report (r : Report) : Written r.paths (·.Prints r.json) r.document := by
  have hfiles : r.files = r.files.flatMap fun p => [p] := List.flatMap_singleton' _ |>.symm
  rw [Report.paths, hfiles]
  exact (written_list written_path r.files).bind fun files hfiles =>
    (written_list written_chart r.charts).map fun charts hcharts =>
      prints_record (.cons ⟨rfl, hfiles⟩ (.cons ⟨rfl, prints_count _⟩
        (.cons ⟨rfl, prints_map (fun _ => prints_text _) _⟩ (.cons ⟨rfl, prints_axes _⟩
          (.cons ⟨rfl, hcharts⟩ (.cons ⟨rfl, prints_summary _⟩ .nil))))))

end Paths

namespace Ending

def characters (e : Ending) : List Char := e.printed.flatMap fun text => text.toList ++ ['\n']

def answer : Except MissingInput Report → Json
  | .ok report => report.json
  | .error missing => missing.json

def paths : Except MissingInput Report → List OsString
  | .ok report => report.paths
  | .error _ => []

theorem written_output {a : Arguments} (hjson : a.json) (ended : Except MissingInput Report) :
    Written (paths ended) (fun texts => ∃ d, texts = [d] ∧ Json.Item d.toList (answer ended))
      (a.output ended) := by
  cases ended with
  | ok report =>
    rw [Arguments.output, if_pos hjson]
    refine (written_report report).map fun d hd => ⟨d.toIndented, rfl, ?_⟩
    rw [Document.toIndented, String.toList_ofList]
    exact hd.indented 0
  | error missing =>
    rw [Arguments.output, if_pos hjson]
    refine written_pure ⟨missing.document.toCompact, rfl, ?_⟩
    rw [Document.toCompact, String.toList_ofList]
    exact (prints_missingInput missing).compact

variable {σ : Type} {args : List OsString} {a : Arguments}

theorem exists_ran (hargs : Arguments.parse args = .ok a) (t : FileTree)
    (render : Renderer (StateM σ)) (s : σ) : ∃ events,
    ((program t render args).run s).1 =
      let ended := Report.outcome t a.config .default render s
      .ran ⟨ended, a.output ended, events⟩ := by
  rw [program, hargs]
  exact ⟨_, rfl⟩

/-- Every command line with the option for it that leads to a run ends well, and prints one text of
JSON and a line end, when all paths that it has to write are texts; as a string each of them is then
shown in full. The text stands for what the pass ended with and for nothing else. With a path that
is no text among them, the run fails with a complaint and prints nothing. -/
theorem prints_one_document (hargs : Arguments.parse args = .ok a) (hjson : a.json) (t : FileTree)
    (render : Renderer (StateM σ)) (s : σ) :
    let ended := Report.outcome t a.config .default render s
    let ending := ((program t render args).run s).1
    ((∀ p ∈ paths ended, OsString.ofText p.display = p) → ending.exitCode = 0 ∧
      ∃ text, ending.characters = text ++ ['\n'] ∧
        ∀ v, Json.Denotes text v ↔ v = answer ended) ∧
    ((∃ p ∈ paths ended, OsString.ofText p.display ≠ p) →
      ending.exitCode = 1 ∧ ending.characters = [] ∧
        ending.complaints = [s!"Error: {OsString.noTextMessage}"]) := by
  intro ended ending
  obtain ⟨events, hran⟩ := exists_ran hargs t render s
  have hending : ending = .ran ⟨ended, a.output ended, events⟩ := hran
  rw [hending]
  have hwritten := written_output hjson ended
  constructor
  · intro htexts
    obtain ⟨_, houtput, d, rfl, hitem⟩ := hwritten.right htexts
    rw [houtput]
    refine ⟨rfl, d.toList, List.flatMap_singleton _ _, ?_⟩
    intro v
    constructor
    · exact fun hv => hv.unique hitem.denotes
    · rintro rfl
      exact hitem.denotes
  · intro hbroken
    rw [hwritten.failed hbroken]
    exact ⟨rfl, rfl, rfl⟩

/-- Quotes, a backslash, a line end and a control character in names, in cells and in the words of
the renderer. -/
def quotedTree : FileTree :=
  let rows := "impl,P,C,payload_us,throughput\n\"e\\b\nr\",1,1,100,10\n" ++
    "ebr,x\"\x01,1,100,10\n\"e\\b\nr\",1,1,100,25\n"
  FileTree.empty.plant "out/a\"b.csv" (.file (.whole (Text.encode rows)))

def fontless : Renderer (StateM Unit) := fun chart _ =>
  pure (if chart.family = .scaling then .error "no\nfonts" else .ok ())

def quotedReport : Report :=
  { files := ["out/a\"b.csv"]
    runs := 2
    rejections := [⟨"a\"b.csv", 4, .invalidNumber .producers "x\"\x01"⟩]
    axes := ⟨some 100, some 1⟩
    charts :=
      [⟨.scaling, .failed "out/fig_threads_metrics.png" "no\nfonts"⟩,
       ⟨.distribution, .skipped "no latency data at payload 100μs"⟩,
       ⟨.sensitivity, .saved "out/fig_payload_metrics.png"⟩,
       ⟨.efficiency, .saved "out/fig_efficiency.png"⟩,
       ⟨.comparison, .saved "out/fig_implementation_comparison.png"⟩]
    summary := ⟨[⟨"e\\b\nr", 2, ⟨17.5, 10, 25⟩, none, none, none⟩]⟩ }

/-- One chart fails, one has no data, and a row is dropped. -/
theorem prints_one_document_quoted :
    let ending := ((program quotedTree fontless ["--json", "-r", "out"]).run ()).1
    ending.exitCode = 0 ∧ ∃ text, ending.characters = text ++ ['\n'] ∧
      ∀ v, Json.Denotes text v ↔ v = quotedReport.json := by
  have hargs : Arguments.parse ["--json", "-r", "out"] =
      .ok ⟨"out", .producers, false, true, false⟩ := by rfl
  obtain ⟨hprints, _⟩ := prints_one_document hargs rfl quotedTree fontless ()
  have hreport : (Report.outcome quotedTree
      (Arguments.config ⟨"out", .producers, false, true, false⟩) .default fontless ()).toOption =
      some quotedReport := by
    decide +kernel
  rw [Except.toOption_eq_some_iff.mp hreport] at hprints
  exact hprints (by decide)

def brokenTree : FileTree :=
  let rows := "impl,P,C,payload_us,throughput\nebr,1,1,100,10\n"
  FileTree.empty.plant (Path.join "results" ⟨0xFF :: Text.encode ".csv"⟩)
    (.file (.whole (Text.encode rows)))

/-- No document is printed where the help is asked for as well, and none where a file whose name is
no text has been loaded. -/
theorem prints_no_document :
    let render : Renderer (StateM Unit) := fun _ _ => pure (.ok ())
    let helped := ((program .empty render ["--json", "--help"]).run ()).1
    let failed := ((program brokenTree render ["--json"]).run ()).1
    (helped.exitCode = 0 ∧ ∀ v, ¬ Json.Denotes helped.characters v) ∧
      (Arguments.parse ["--json"]).toOption = some ⟨"results", .producers, false, true, false⟩ ∧
      failed.exitCode = 1 ∧ failed.characters = [] := by
  intro render helped failed
  refine ⟨⟨by decide +kernel, ?_⟩, by decide +kernel, by decide +kernel, by decide +kernel⟩
  rintro v ⟨r, hv, _⟩
  have hhead : (Json.skip helped.characters).head? = some 'q' := by decide +kernel
  obtain ⟨c, cs, hcs, hc⟩ := hv.lead
  rw [hcs, List.head?_cons, Option.some_inj] at hhead
  subst hhead
  cases hc

end Ending

end QueueBench
