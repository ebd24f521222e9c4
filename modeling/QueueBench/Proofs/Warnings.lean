import QueueBench.Proofs.Pass

/-! # Warnings of a pass

A pass logs at three levels. Of all that it logs, only faults are warnings: a file that could not
be read, a row that was dropped, a chart without an image. Each is warned of once, where it
occurs. -/
namespace QueueBench

def loadWarnings (path : OsString) : Except LoadError ResultFile → List Event
  | .error e => [.fileSkipped path e]
  | .ok f => f.rejections.map .rowDropped

/-- What is warned about a chart; an image that was written needs no warning. -/
def ChartReport.warning? (r : ChartReport) : Option Event :=
  match r.status with
  | .saved _ => none
  | .skipped reason => some (.chartSkipped ⟨r.family, reason⟩)
  | .failed path error => some (.chartFailed path error)

def Event.rejection? : Event → Option Rejection
  | rowDropped r => some r
  | _ => none

namespace Level

variable {l : Level}

theorem shown_append (es fs : List Event) : l.shown (es ++ fs) = l.shown es ++ l.shown fs :=
  List.filter_append es fs

theorem shown_flatMap {α : Type} (f : α → List Event) (as : List α) :
    l.shown (as.flatMap f) = as.flatMap fun a => l.shown (f a) :=
  List.filter_flatMap

theorem not_shown {e : Event} (h : e.level ≠ .warn) : ¬ warn.severity ≤ e.level.severity := by
  cases hl : e.level with
  | debug => decide
  | info => decide
  | warn => exact (h hl).elim

theorem shown_warn_cons {e : Event} (h : e.level ≠ .warn) (es : List Event) :
    warn.shown (e :: es) = warn.shown es :=
  List.filter_cons_of_neg (by simpa using not_shown h)

end Level

section Load

variable {source marker : String}

theorem shown_row (o : RowOutcome) :
    Level.warn.shown (o.logged source).events = (o.rejection?.map Event.rowDropped).toList := by
  cases o with
  | run r => rfl
  | rejected r => rfl
  | repeatedHeader line => rfl

theorem shown_rows {α : Type} (f : α → RowOutcome) (as : List α) :
    Level.warn.shown (as.flatMap fun a => ((f a).logged source).events) =
      ((as.map f).filterMap RowOutcome.rejection?).map .rowDropped := by
  rw [Level.shown_flatMap]
  induction as with
  | nil => rfl
  | cons a as ih =>
    rw [List.flatMap_cons, ih, shown_row]
    cases h : (f a).rejection? <;> simp [h]

def rejectionWarnings : Except LoadError ResultFile → List Event
  | .error _ => []
  | .ok f => f.rejections.map .rowDropped

theorem shown_readRecords (header : Option Csv.Record) (rows : List Csv.Record)
    (failure : Option String) :
    Level.warn.shown (ResultFile.readRecords source marker header rows failure).events =
      rejectionWarnings (ResultFile.readRecords source marker header rows failure).value := by
  rw [ResultFile.value_readRecords]
  unfold ResultFile.readRecords
  cases ResultFile.readSchema header with
  | error fault => rfl
  | ok schema =>
    simp only [Logged.events_bind, Logged.events_log, Logged.events_mapM, Logged.events_pure,
      List.append_nil, List.singleton_append, rejectionWarnings, ResultFile.rejections,
      List.filterMap_append, List.map_append]
    rw [Level.shown_warn_cons (by nofun), Level.shown_append, shown_rows, shown_rows]

/-- Rows are warned of in their order, and only those that are dropped. -/
theorem shown_file (content : Content) :
    Level.warn.shown (ResultFile.read source marker content).events =
      rejectionWarnings (ResultFile.read source marker content).value := by
  cases content with
  | whole bytes => exact shown_readRecords _ _ _
  | broken bytes cause =>
    unfold ResultFile.read
    dsimp only
    split
    · rfl
    · exact shown_readRecords _ _ _
  | closed cause => rfl

theorem shown_read (t : FileTree) (path : OsString) :
    Level.warn.shown (t.read marker path).events = rejectionWarnings (t.load marker path) := by
  unfold FileTree.load FileTree.read
  split
  · rfl
  · rfl
  · exact shown_file _

theorem shown_path (t : FileTree) (path : OsString) :
    Level.warn.shown (Loading.readPath t marker path).events =
      loadWarnings path (t.load marker path) := by
  have hevents : (Loading.readPath t marker path).events =
      (t.read marker path).events ++ [Loading.loadEvent path (t.load marker path)] := rfl
  rw [hevents, Level.shown_append, shown_read]
  cases t.load marker path with
  | error e => rfl
  | ok f => exact List.append_nil _

theorem shown_loading (t : FileTree) (paths : List OsString) :
    Level.warn.shown (Loading.read t marker paths).events =
      paths.flatMap fun path => loadWarnings path (t.load marker path) := by
  unfold Loading.read
  simp only [Logged.events_bind, Logged.events_mapM, Logged.events_log, Logged.events_pure,
    List.append_nil, Level.shown_append, Level.shown_flatMap, shown_path]
  exact List.append_nil _

theorem rejections_loadWarnings (path : OsString) (r : Except LoadError ResultFile) :
    (loadWarnings path r).filterMap Event.rejection? =
      (r.toOption.map ResultFile.rejections).getD [] := by
  cases r with
  | error e => rfl
  | ok f =>
    have hr : Event.rejection? ∘ Event.rowDropped = some := rfl
    rw [loadWarnings, List.filterMap_map, hr, List.filterMap_some]
    rfl

/-- The dropped rows of all files, one file after the other. -/
theorem rejections_loading (t : FileTree) (paths : List OsString) :
    (paths.flatMap fun path => loadWarnings path (t.load marker path)).filterMap Event.rejection? =
      (Loading.ofPaths t marker paths).rejections := by
  rw [Loading.ofPaths_eq]
  unfold Loading.rejections Loading.resultFiles
  induction paths with
  | nil => rfl
  | cons path paths ih =>
    rw [List.flatMap_cons, List.filterMap_append, ih, rejections_loadWarnings, List.map_cons]
    cases t.load marker path <;> rfl

end Load

section Charts

theorem shown_entry (r : ChartReport) : Level.warn.shown [r.event] = r.warning?.toList := by
  rcases r with ⟨family, path | reason | ⟨path, error⟩⟩ <;> rfl

theorem shown_entries (entries : List ChartReport) :
    Level.warn.shown (entries.map ChartReport.event) = entries.filterMap ChartReport.warning? := by
  induction entries with
  | nil => rfl
  | cons r entries ih =>
    have hs := Level.shown_append (l := .warn) [r.event] (entries.map ChartReport.event)
    rw [shown_entry, ih] at hs
    rw [List.map_cons, List.filterMap_cons]
    refine hs.trans ?_
    cases r.warning? <;> rfl

theorem rejections_entries (entries : List ChartReport) :
    (entries.filterMap ChartReport.warning?).filterMap Event.rejection? = [] := by
  rw [List.filterMap_filterMap, List.filterMap_eq_nil_iff]
  rintro ⟨family, path | reason | ⟨path, error⟩⟩ _ <;> rfl

theorem shown_build (runs : List Run) (axes : FixedAxes) (o : Options) (styles : StyleTable)
    (f : Family) : Level.warn.shown (Analysis.build runs axes o styles f).events = [] := by
  cases f with
  | scaling =>
    unfold Analysis.build Chart.buildScaling
    dsimp only
    repeat' split
    all_goals rfl
  | sensitivity | distribution | efficiency | comparison => rfl

theorem shown_analysis (t : FileTree) (c : Config) (styles : StyleTable) :
    Level.warn.shown (Report.analysisEvents t c styles) = [] := by
  have hperform : Level.warn.shown
      (Analysis.perform (c.loading t).runs c.options styles).events = [] := by
    unfold Analysis.perform
    simp only [Logged.events_bind, Logged.events_mapM, Logged.events_pure, List.append_nil,
      Level.shown_flatMap, shown_build, List.flatMap_eq_nil_iff, implies_true]
  rw [Report.analysisEvents, Level.shown_append, hperform]
  rfl

end Charts

namespace Report

variable {σ : Type} {t : FileTree} {c : Config}

def warnings (t : FileTree) (c : Config) (styles : StyleTable) (render : Renderer (StateM σ))
    (s : σ) : List Event :=
  Level.warn.shown (pass t c styles render s).events

theorem shown_search (folder : OsString) (extension : String) :
    Level.warn.shown (t.search folder extension).events = [] := by
  unfold FileTree.search
  split <;> rfl

theorem shown_loadEvents (t : FileTree) (c : Config) :
    Level.warn.shown (loadEvents t c) =
      (c.paths t).flatMap fun path => loadWarnings path (t.load c.marker path) := by
  rw [loadEvents, Level.shown_append, shown_search, shown_loading, List.nil_append]

/-- Each path is warned of once when it cannot be read, else once for each row that is dropped
from it. The entries of the report follow, where there is a report. -/
theorem warns_once_of_each_fault (t : FileTree) (c : Config) (styles : StyleTable)
    (render : Renderer (StateM σ)) (s : σ) :
    let loaded := (c.paths t).flatMap fun path => loadWarnings path (t.load c.marker path)
    loaded.filterMap Event.rejection? = (c.loading t).rejections ∧
    ((c.loading t).runs = [] ∧ warnings t c styles render s = loaded ∨
      (c.loading t).runs ≠ [] ∧ ∃ report, outcome t c styles render s = .ok report ∧
        report.charts.map ChartReport.family =
          [.scaling, .distribution, .sensitivity, .efficiency, .comparison] ∧
        warnings t c styles render s =
          loaded ++ report.charts.filterMap ChartReport.warning? ∧
        (warnings t c styles render s).filterMap Event.rejection? = report.rejections) ∧
    (∀ path e, (Event.fileSkipped path e).message = s!"Skipping {path.display}: {e.message}") ∧
    ∀ r, (Event.rowDropped r).message =
      s!"Dropping malformed row {r.file}:{r.line}: {r.cause.message}" := by
  intro loaded
  have hdropped : loaded.filterMap Event.rejection? = (c.loading t).rejections :=
    rejections_loading t (c.paths t)
  refine ⟨hdropped, ?_, fun _ _ => rfl, fun _ => rfl⟩
  by_cases hp : c.paths t = []
  · refine Or.inl ⟨by rw [Config.loading, hp]; rfl, ?_⟩
    rw [warnings, pass, run_generate_of_no_paths styles render s hp, shown_search]
    exact (congrArg (List.flatMap _) hp).symm
  by_cases hr : (c.loading t).runs = []
  · refine Or.inl ⟨hr, ?_⟩
    rw [warnings, pass, run_generate_of_no_runs styles render s hp hr, shown_loadEvents]
  · obtain ⟨entries, hrun, _, hd⟩ := exists_entries styles render s hp hr
    have hw : warnings t c styles render s = loaded ++ entries.filterMap ChartReport.warning? := by
      rw [warnings, hrun, Level.shown_append, Level.shown_append, shown_loadEvents,
        shown_analysis, shown_entries, List.append_nil]
    refine Or.inr ⟨hr, _, congrArg Logged.value hrun, families_of_draws hd, hw, ?_⟩
    rw [hw, List.filterMap_append, hdropped, rejections_entries]
    exact List.append_nil _

end Report

end QueueBench
