import QueueBench.Proofs.Rendering

/-! # Passes

A pass stops only where there is nothing to analyse, and then before anything is drawn. Otherwise
it ends with a report, whatever the renderer answers. -/
namespace QueueBench

variable {σ : Type} {t : FileTree} {c : Config} {styles : StyleTable}

namespace Config

def paths (c : Config) (t : FileTree) : List OsString := t.discover c.folder c.extension

def loading (c : Config) (t : FileTree) : Loading := .ofPaths t c.marker (c.paths t)

def analysis (c : Config) (t : FileTree) (styles : StyleTable) : Analysis :=
  .ofRuns (c.loading t).runs c.options styles

end Config

namespace Report

/-- A pass with its log. The answers of its renderer may depend on a state that its drawings
change. -/
def pass (t : FileTree) (c : Config) (styles : StyleTable) (render : Renderer (StateM σ)) (s : σ) :
    Logged (Except MissingInput Report) :=
  ((generate t c styles render).run.run s).1

def outcome (t : FileTree) (c : Config) (styles : StyleTable) (render : Renderer (StateM σ))
    (s : σ) : Except MissingInput Report :=
  (pass t c styles render s).value

/-- What the renderer of a pass is asked and what it answers, in order. -/
def calls (t : FileTree) (c : Config) (styles : StyleTable) (render : Renderer (StateM σ))
    (s : σ) : List Rendering :=
  ((generate t c styles render.noting).run.run (s, [])).2.2

def ofEntries (t : FileTree) (c : Config) (styles : StyleTable) (entries : List ChartReport) :
    Report :=
  { files := (c.loading t).files
    runs := (c.loading t).runs.length
    rejections := (c.loading t).rejections
    axes := (c.analysis t styles).axes
    charts := entries
    summary := (c.analysis t styles).summary }

def loadEvents (t : FileTree) (c : Config) : List Event :=
  (t.search c.folder c.extension).events ++ (Loading.read t c.marker (c.paths t)).events

def analysisEvents (t : FileTree) (c : Config) (styles : StyleTable) : List Event :=
  (Analysis.perform (c.loading t).runs c.options styles).events ++
    (c.analysis t styles).axes.log.events

section Run

variable (styles : StyleTable) (render : Renderer (StateM σ)) (s : σ)

theorem run_generate_of_no_paths (hp : c.paths t = []) :
    (generate t c styles render).run.run s =
      (⟨.error (.noFiles c.extension c.folder), (t.search c.folder c.extension).events⟩, s) := by
  rw [Config.paths, FileTree.discover] at hp
  rw [generate, run_logged_bind, if_pos hp]
  exact congrArg (fun es => ((⟨_, es⟩ : Logged _), s)) (List.append_nil _)

theorem run_generate_of_no_runs (hp : c.paths t ≠ []) (hr : (c.loading t).runs = []) :
    (generate t c styles render).run.run s =
      (⟨.error (.noRuns (c.paths t).length c.folder), loadEvents t c⟩, s) := by
  simp only [Config.loading, Config.paths, FileTree.discover, Loading.ofPaths] at hp hr
  rw [generate, run_logged_bind, if_neg hp, run_logged_bind, if_pos hr]
  exact congrArg (fun es => ((⟨_, _ ++ es⟩ : Logged _), s)) (List.append_nil _)

theorem run_generate {entries : List ChartReport} {es : List Event} {s' : σ}
    (hp : c.paths t ≠ []) (hr : (c.loading t).runs ≠ [])
    (hd : ((c.analysis t styles).charts.mapM (ChartReport.ofOutcome c.folder render)).run.run s =
      (⟨entries, es⟩, s')) :
    (generate t c styles render).run.run s =
      (⟨.ok (ofEntries t c styles entries), loadEvents t c ++ analysisEvents t c styles ++ es⟩,
        s') := by
  simp only [Config.analysis, Config.loading, Config.paths, FileTree.discover, Loading.ofPaths,
    Analysis.ofRuns] at hp hr hd
  rw [generate, run_logged_bind, if_neg hp, run_logged_bind, if_neg hr, run_logged_bind,
    run_logged_bind, run_bind hd, loadEvents, analysisEvents]
  refine congrArg (fun es => ((⟨_, es⟩ : Logged _), s')) ?_
  change _ ++ (_ ++ (_ ++ (_ ++ (es ++ [])))) = _
  simp only [List.append_assoc, List.append_nil]
  rfl

theorem outcome_of_no_paths (hp : c.paths t = []) :
    outcome t c styles render s = .error (.noFiles c.extension c.folder) := by
  rw [outcome, pass, run_generate_of_no_paths styles render s hp]

theorem calls_of_no_paths (hp : c.paths t = []) : calls t c styles render s = [] := by
  rw [calls, run_generate_of_no_paths styles render.noting _ hp]

theorem outcome_of_no_runs (hp : c.paths t ≠ []) (hr : (c.loading t).runs = []) :
    outcome t c styles render s = .error (.noRuns (c.paths t).length c.folder) := by
  rw [outcome, pass, run_generate_of_no_runs styles render s hp hr]

theorem calls_of_no_runs (hp : c.paths t ≠ []) (hr : (c.loading t).runs = []) :
    calls t c styles render s = [] := by
  rw [calls, run_generate_of_no_runs styles render.noting _ hp hr]

theorem exists_entries (hp : c.paths t ≠ []) (hr : (c.loading t).runs ≠ []) :
    ∃ entries,
      pass t c styles render s = ⟨.ok (ofEntries t c styles entries),
        loadEvents t c ++ analysisEvents t c styles ++ entries.map ChartReport.event⟩ ∧
      outcome t c styles render.noting (s, []) = .ok (ofEntries t c styles entries) ∧
      Draws c.folder (c.analysis t styles).charts entries (calls t c styles render s) := by
  obtain ⟨entries, noted, s', hrun, hnoted, hd⟩ :=
    exists_draws c.folder render (c.analysis t styles).charts [] s
  have hn := run_generate styles render.noting (s, []) hp hr hnoted
  have hc : calls t c styles render s = noted := by
    rw [calls, hn]
    rfl
  refine ⟨entries, ?_, ?_, hc ▸ hd⟩
  · rw [pass, run_generate styles render s hp hr hrun]
  · rw [outcome, pass, hn]

end Run

theorem families_of_draws {entries : List ChartReport} {calls : List Rendering}
    (h : Draws c.folder (c.analysis t styles).charts entries calls) :
    entries.map ChartReport.family =
      [.scaling, .distribution, .sensitivity, .efficiency, .comparison] := by
  rw [h.map_family, Config.analysis, Analysis.charts_ofRuns, List.map_map]
  exact List.map_congr_left fun f _ => Analysis.family_outcome _ _ _ _ f

/-- Without files or without runs a pass stops before anything is drawn. Otherwise it reports on
the five families in order, skips those without data and has each other chart drawn once. -/
theorem stops_only_for_missing_input (t : FileTree) (c : Config) (styles : StyleTable)
    (render : Renderer (StateM σ)) (s : σ) :
    outcome t c styles render.noting (s, []) = outcome t c styles render s ∧
    (c.paths t = [] ∧
        outcome t c styles render s = .error (.noFiles c.extension c.folder) ∧
        calls t c styles render s = [] ∨
      c.paths t ≠ [] ∧ (c.loading t).runs = [] ∧
        outcome t c styles render s = .error (.noRuns (c.paths t).length c.folder) ∧
        calls t c styles render s = [] ∨
      c.paths t ≠ [] ∧ (c.loading t).runs ≠ [] ∧ ∃ report,
        outcome t c styles render s = .ok report ∧
        report.charts.map ChartReport.family =
          [.scaling, .distribution, .sensitivity, .efficiency, .comparison] ∧
        List.Forall₂ (fun outcome entry => ∀ reason,
            entry.status = .skipped reason ↔ outcome = .error ⟨entry.family, reason⟩)
          (c.analysis t styles).charts report.charts ∧
        ((calls t c styles render s).map fun x => (x.chart, x.path)) =
          ((c.analysis t styles).built.map fun chart =>
            (chart, chart.family.imagePath c.folder)) ∧
        ((calls t c styles render s).map fun x => x.chart.family) =
          (report.charts.filter fun r => !r.isSkipped).map ChartReport.family) := by
  by_cases hp : c.paths t = []
  · have hm := outcome_of_no_paths styles render s hp
    exact ⟨(outcome_of_no_paths styles render.noting _ hp).trans hm.symm,
      Or.inl ⟨hp, hm, calls_of_no_paths styles render s hp⟩⟩
  by_cases hr : (c.loading t).runs = []
  · have hm := outcome_of_no_runs styles render s hp hr
    exact ⟨(outcome_of_no_runs styles render.noting _ hp hr).trans hm.symm,
      Or.inr (Or.inl ⟨hp, hr, hm, calls_of_no_runs styles render s hp hr⟩)⟩
  · obtain ⟨entries, hrun, hnoted, hd⟩ := exists_entries styles render s hp hr
    have hout := congrArg Logged.value hrun
    exact ⟨hnoted.trans hout.symm, Or.inr (Or.inr ⟨hp, hr, _, hout, families_of_draws hd,
      hd.skipped_iff, hd.map_chart_path, hd.map_chart_family⟩)⟩

/-- Two passes over the same files, each with a renderer of its own, differ in nothing but the
entries of charts for which the renderers answered differently. -/
theorem render_failures_stay_local {σ' : Type} (t : FileTree) (c : Config) (styles : StyleTable)
    (render : Renderer (StateM σ)) (render' : Renderer (StateM σ')) (s : σ) (s' : σ') :
    (∃ e, outcome t c styles render s = .error e ∧ outcome t c styles render' s' = .error e) ∨
    ∃ report report',
      outcome t c styles render s = .ok report ∧ outcome t c styles render' s' = .ok report' ∧
      report.files = report'.files ∧ report.runs = report'.runs ∧
      report.rejections = report'.rejections ∧ report.axes = report'.axes ∧
      report.summary = report'.summary ∧
      List.Forall₂ (ChartReport.Alike (calls t c styles render s) (calls t c styles render' s'))
        report.charts report'.charts ∧
      ((calls t c styles render s).map fun x => (x.chart, x.path)) =
        ((c.analysis t styles).built.map fun chart => (chart, chart.family.imagePath c.folder)) ∧
      ((calls t c styles render' s').map fun x => (x.chart, x.path)) =
        ((c.analysis t styles).built.map fun chart => (chart, chart.family.imagePath c.folder)) ∧
      report.saved = ((calls t c styles render s).countP fun x => x.answer.isOk) ∧
      report'.saved = (calls t c styles render' s').countP fun x => x.answer.isOk := by
  by_cases hp : c.paths t = []
  · exact Or.inl ⟨_, outcome_of_no_paths styles render s hp,
      outcome_of_no_paths styles render' s' hp⟩
  by_cases hr : (c.loading t).runs = []
  · exact Or.inl ⟨_, outcome_of_no_runs styles render s hp hr,
      outcome_of_no_runs styles render' s' hp hr⟩
  · obtain ⟨entries, hrun, _, hd⟩ := exists_entries styles render s hp hr
    obtain ⟨entries', hrun', _, hd'⟩ := exists_entries styles render' s' hp hr
    exact Or.inr ⟨_, _, congrArg Logged.value hrun, congrArg Logged.value hrun', rfl, rfl, rfl, rfl,
      rfl, hd.alike hd', hd.map_chart_path, hd'.map_chart_path, hd.saved_eq, hd'.saved_eq⟩

end Report

end QueueBench
