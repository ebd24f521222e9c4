import QueueBench.Proofs.Outcomes

/-! # Identity of series

Each builder keeps one run of a configuration and infers its grouping from the runs that it
kept. So a series never mixes implementations or modes, its style is that of its runs, and a
line goes through ascending values of its axis. -/
namespace QueueBench

variable {runs rs : List Run} {styles : StyleTable} {c : Chart} {x : XAxis} {q : Metric}

/-- The runs of a series have one implementation and one mode, and its style is theirs. -/
structure Series.Identified (s : Series) (styles : StyleTable) (implementation : String)
    (mode : AllocMode) : Prop where
  ne_nil : s.runs ≠ []
  implementation_eq : ∀ r ∈ s.runs, r.implementation = implementation
  mode_eq : ∀ r ∈ s.runs, r.mode = mode
  sharedMode_eq : Series.sharedMode s.runs = mode
  style_eq : s.style = styles.style implementation mode

structure Line.Shows (l : Line) (s : Series) (x : XAxis) (q : Metric) : Prop where
  label_eq : l.label = s.label
  style_eq : l.style = s.style
  points_eq : l.points = s.points x q
  points_ne_nil : l.points ≠ []
  ascending : ∃ ns : List ℕ, ns.Sublist (s.runs.map x.raw) ∧ ns.Pairwise (· < ·) ∧
    l.points.map Point.x = ns.map Float.ofNat

structure BarGroup.Shows (b : BarGroup) (s : Series) (metrics : List Metric) : Prop where
  label_eq : b.label = s.label
  style_eq : b.style = s.style
  values_eq : ∃ r, s.runs = [r] ∧ b.values = metrics.map fun q => q.value r

def PanelBody.Shows (series : List Series) (x : XAxis) : PanelBody → Prop
  | lines ls => ∃ q, ∀ l ∈ ls, ∃ s ∈ series, l.Shows s x q
  | bars _ groups => ∃ metrics, ∀ b ∈ groups, ∃ s ∈ series, b.Shows s metrics

theorem identified_of_mem_group {s : Series} (hs : s ∈ group rs (Grouping.infer rs) x styles) :
    (∀ r ∈ s.runs, r ∈ rs) ∧ ∃ i m, s.Identified styles i m := by
  obtain ⟨r, hr, rfl⟩ := mem_group.mp hs
  have hkey {a : Run} (ha : a ∈ rs) (hk : (Grouping.infer rs).key a = (Grouping.infer rs).key r) :
      a.implementation = r.implementation ∧ a.mode = r.mode :=
    Prod.mk.inj (Grouping.infer_key_inj ha hr hk)
  have hmem {a : Run} (ha : a ∈ (Series.ofKey rs (Grouping.infer rs) x styles
      ((Grouping.infer rs).key r)).runs) :
      a ∈ rs ∧ a.implementation = r.implementation ∧ a.mode = r.mode := by
    obtain ⟨ha, hk⟩ := Series.mem_ofKey.mp ha
    exact ⟨ha, hkey ha hk⟩
  have hne : (Series.ofKey rs (Grouping.infer rs) x styles ((Grouping.infer rs).key r)).runs ≠ [] :=
    List.ne_nil_of_mem (Series.mem_ofKey.mpr ⟨hr, rfl⟩)
  refine ⟨fun a ha => (hmem ha).1, r.implementation, r.mode, ?_⟩
  exact
    { ne_nil := hne
      implementation_eq := fun a ha => (hmem ha).2.1
      mode_eq := fun a ha => (hmem ha).2.2
      sharedMode_eq := Series.sharedMode_of_uniform hne fun a ha => (hmem ha).2.2
      style_eq := Series.style_ofKey hr fun a ha hk => (hkey ha hk).2 }

theorem shows_metricLines (hd : (rs.map (Run.configuration x)).Nodup) :
    (PanelBody.lines (metricLines (group rs (Grouping.infer rs) x styles) x q)).Shows
      (group rs (Grouping.infer rs) x styles) x := by
  refine ⟨q, ?_⟩
  intro l hl
  obtain ⟨s, hs, rfl, hp⟩ := mem_metricLines.mp hl
  have hascending : (s.runs.map x.raw).Pairwise (· < ·) := by
    obtain ⟨r, _, rfl⟩ := mem_group.mp hs
    exact Series.ascending_ofKey (nodup_key_raw hd)
  have hsub : ((s.runs.filter fun r => (q.value r).isSome).map x.raw).Sublist
      (s.runs.map x.raw) := List.filter_sublist.map _
  refine ⟨s, hs, rfl, rfl, rfl, hp, _, hsub, hascending.sublist hsub, ?_⟩
  rw [map_x_points, List.map_map]
  rfl

theorem shows_barGroups (hd : (rs.map Run.seriesKey).Nodup) (categories : List String)
    (metrics : List Metric) :
    (PanelBody.bars categories (barGroups (group rs (Grouping.infer rs) x styles) metrics)).Shows
      (group rs (Grouping.infer rs) x styles) x := by
  refine ⟨metrics, ?_⟩
  intro b hb
  rw [barGroups, List.mem_map] at hb
  obtain ⟨s, hs, rfl⟩ := hb
  obtain ⟨r, hr, rfl⟩ := mem_group.mp hs
  have hruns : (Series.ofKey rs (Grouping.infer rs) x styles ((Grouping.infer rs).key r)).runs =
      [r] := Series.runs_ofKey (Chart.nodup_infer_key hd) hr
  refine ⟨_, hs, rfl, rfl, r, hruns, ?_⟩
  rw [hruns]
  rfl

/-- A panel of a sweep shows the series of one row. -/
theorem Sweep.exists_shown_row {s : Sweep} (h : s.chart runs styles = .ok c) {p : Panel}
    (hp : p ∈ c.panels) : ∃ rs ∈ s.rows runs, p.body.seriesLabels.Nodup ∧
      p.body.Shows (group rs (Grouping.infer rs) s.axis styles) s.axis := by
  have hm : (p.yLabel, p.body) ∈ c.panels.map fun p => (p.yLabel, p.body) :=
    List.mem_map_of_mem hp
  rw [(panels_of_chart h).2, List.mem_flatMap] at hm
  obtain ⟨rs, hs, hm⟩ := hm
  obtain ⟨q, _, he⟩ := List.mem_map.mp hm
  obtain ⟨_, hbody⟩ := Prod.mk.inj he
  rw [← hbody]
  exact ⟨rs, hs, nodup_labels rs _ s.axis styles q, shows_metricLines (nodup_configuration_row hs)⟩

namespace Chart

theorem exists_panel_of_mem_linesAt {row column : ℕ} {l : Line} (hl : l ∈ c.linesAt row column) :
    ∃ p ∈ c.panels, p.body = .lines (c.linesAt row column) := by
  unfold linesAt at hl ⊢
  split at hl
  · rename_i hp
    exact ⟨_, List.mem_of_getElem? hp, rfl⟩
  · cases hl

def distributionRows (runs : List Run) (fixedPayload : Option ℕ) : List (List Run) :=
  let withLatency := (fixedPayload.map (latencyRuns runs)).getD []
  let subset := ((mostThreads withLatency).map (distributionRuns withLatency)).getD []
  (modesOf subset).map fun mode => subset.filter fun r => r.mode = mode

def comparisonRows (runs : List Run) (axes : FixedAxes) : List (List Run) :=
  match axes.threads, axes.payload with
  | some threads, some payload => [comparisonRuns runs threads payload]
  | _, _ => []

theorem mem_of_mem_distributionRows {fixedPayload : Option ℕ}
    (hs : rs ∈ distributionRows runs fixedPayload) {r : Run} (hr : r ∈ rs) : r ∈ runs := by
  obtain ⟨mode, _, rfl⟩ := List.mem_map.mp hs
  have hr := (List.mem_filter.mp hr).1
  cases fixedPayload with
  | none => simp [mostThreads] at hr
  | some payload =>
    simp only [Option.map_some, Option.getD_some] at hr
    cases ht : mostThreads (latencyRuns runs payload) with
    | none => simp [ht] at hr
    | some threads =>
      simp only [ht, Option.map_some, Option.getD_some] at hr
      exact (List.mem_filter.mp (of_mem_latestBy_filter _ hr).1).1

theorem mem_of_mem_comparisonRows {axes : FixedAxes} (hs : rs ∈ comparisonRows runs axes)
    {r : Run} (hr : r ∈ rs) : r ∈ runs := by
  unfold comparisonRows at hs
  split at hs
  · rw [List.mem_singleton.mp hs] at hr
    exact (of_mem_latestBy_filter _ hr).1
  · cases hs

theorem exists_shown_distribution {fixedPayload : Option ℕ}
    (h : distribution runs fixedPayload styles = .ok c) {p : Panel} (hp : p ∈ c.panels) :
    ∃ rs ∈ distributionRows runs fixedPayload, p.body.seriesLabels.Nodup ∧
      p.body.Shows (group rs (Grouping.infer rs) .payload styles) .payload := by
  obtain ⟨payload, threads, rfl, ht, _, _, hpanels⟩ := panels_of_distribution h
  rw [hpanels, List.mem_filterMap] at hp
  obtain ⟨mode, hmode, hp⟩ := hp
  obtain ⟨_, hbody⟩ := modePanel_eq_some hp
  set subset := distributionRuns (latencyRuns runs payload) threads
  have hrow : subset.filter (fun r => r.mode = mode) ∈ distributionRows runs (some payload) := by
    simp only [distributionRows, Option.map_some, Option.getD_some, ht]
    exact List.mem_map_of_mem hmode
  have hd : ((subset.filter fun r => r.mode = mode).map Run.seriesKey).Nodup :=
    nodup_map_filter _ (nodup_distributionRuns _ _)
  refine ⟨_, hrow, ?_⟩
  rw [hbody, ← Grouping.infer_filter_mode subset mode]
  refine ⟨?_, shows_barGroups hd _ _⟩
  rw [PanelBody.seriesLabels, map_label_barGroups]
  exact nodup_group_labels _ _ _ _

theorem exists_shown_comparison {axes : FixedAxes} (h : comparison runs axes styles = .ok c)
    {p : Panel} (hp : p ∈ c.panels) :
    ∃ rs ∈ comparisonRows runs axes, p.body.seriesLabels.Nodup ∧
      p.body.Shows (group rs (Grouping.infer rs) .payload styles) .payload := by
  obtain ⟨threads, payload, rfl, _, hpanels⟩ := panels_of_comparison h
  rw [hpanels, List.mem_map] at hp
  obtain ⟨q, _, rfl⟩ := hp
  have hbody (series : List Series) :
      (comparisonPanel series q).body = .bars [q.title] (barGroups series [q]) := rfl
  refine ⟨_, List.mem_singleton_self _, ?_⟩
  rw [hbody]
  refine ⟨?_, shows_barGroups (nodup_comparisonRuns runs threads payload) _ _⟩
  rw [PanelBody.seriesLabels, map_label_barGroups]
  exact nodup_group_labels _ _ _ _

end Chart

namespace Analysis

variable {o : Options}

/-- The runs that the panels of a family show. -/
def shownRuns (runs : List Run) (axes : FixedAxes) (o : Options) : Family → List (List Run)
  | .scaling => (Sweep.scaling axes.payload o.scaling).rows runs
  | .sensitivity => (Sweep.sensitivity axes.threads o.metrics).rows runs
  | .efficiency => (Sweep.efficiency axes.threads).rows runs
  | .distribution => Chart.distributionRows runs axes.payload
  | .comparison => Chart.comparisonRows runs axes

def seriesAxis (o : Options) : Family → XAxis
  | .scaling => .threads o.axis
  | _ => .payload

theorem exists_shown {f : Family} {axes : FixedAxes} (h : outcome runs axes o styles f = .ok c)
    {p : Panel} (hp : p ∈ c.panels) : ∃ rs ∈ shownRuns runs axes o f,
      p.body.seriesLabels.Nodup ∧
        p.body.Shows (group rs (Grouping.infer rs) (seriesAxis o f) styles) (seriesAxis o f) := by
  cases f with
  | scaling => exact Sweep.exists_shown_row (s := .scaling axes.payload o.scaling) h hp
  | sensitivity => exact Sweep.exists_shown_row (s := .sensitivity axes.threads o.metrics) h hp
  | efficiency => exact Sweep.exists_shown_row (s := .efficiency axes.threads) h hp
  | distribution => exact Chart.exists_shown_distribution h hp
  | comparison => exact Chart.exists_shown_comparison h hp

theorem mem_of_mem_shownRuns {f : Family} {axes : FixedAxes} (hs : rs ∈ shownRuns runs axes o f)
    {r : Run} (hr : r ∈ rs) : r ∈ runs := by
  have hrow {s : Sweep} (hs : rs ∈ s.rows runs) : r ∈ runs :=
    (of_mem_latestBy_filter _ ((Sweep.row_sublist hs).subset hr)).1
  cases f with
  | scaling => exact hrow hs
  | sensitivity => exact hrow hs
  | efficiency => exact hrow hs
  | distribution => exact Chart.mem_of_mem_distributionRows hs hr
  | comparison => exact Chart.mem_of_mem_comparisonRows hs hr

/-- Labels tell the series of a panel apart. Each series comes from runs of one implementation
and one mode, has their style, and lies above ascending axis values. -/
theorem series_identified (runs : List Run) (o : Options) (styles : StyleTable) :
    ∀ c ∈ (ofRuns runs o styles).built, ∀ p ∈ c.panels,
      p.body.seriesLabels.Nodup ∧
      ∃ rs ∈ shownRuns runs (FixedAxes.detect runs) o c.family,
        let series := group rs (Grouping.infer rs) (seriesAxis o c.family) styles
        p.body.Shows series (seriesAxis o c.family) ∧
        ∀ s ∈ series, (∀ r ∈ s.runs, r ∈ runs) ∧ ∃ i m, s.Identified styles i m := by
  intro c hc p hp
  obtain ⟨rs, hrs, hlabels, hshows⟩ := exists_shown (mem_built.mp hc) hp
  refine ⟨hlabels, rs, hrs, hshows, ?_⟩
  intro s hs
  obtain ⟨hmem, hidentified⟩ := identified_of_mem_group hs
  exact ⟨fun r hr => mem_of_mem_shownRuns hrs (hmem r hr), hidentified⟩

/-- The name of one implementation ends like the label of the other. -/
def suffixedRuns : List Run :=
  [Run.ofThroughput "ring" .heap 2 2 100 10,
   Run.ofThroughput "ring (heap)" .heap 2 2 100 20,
   Run.ofThroughput "ring" .pooled 2 2 100 30,
   Run.ofThroughput "ring" .heap 1 1 100 40]

theorem series_identified_suffixed :
    let a := ofRuns suffixedRuns .default .default
    ∃ c ∈ a.built, ∃ p ∈ c.panels, p.body.seriesLabels.Nodup ∧
      "ring (heap)" ∈ p.body.seriesLabels ∧ "ring (heap) (heap)" ∈ p.body.seriesLabels := by
  have haxes : FixedAxes.detect suffixedRuns = ⟨some 100, some 1⟩ := by cbv
  obtain ⟨c, hc, hcf⟩ : (ofRuns suffixedRuns .default .default).Builds .scaling :=
    builds_of_detect haxes ⟨_, rfl⟩
  let sweep := Sweep.scaling (some 100) Options.default.scaling
  have hchart : sweep.chart suffixedRuns .default = .ok c := by
    have h := mem_built.mp hc
    rwa [hcf, haxes] at h
  have hq : (sweep.metrics suffixedRuns)[0]? = some .throughput := by decide
  have hlabel (r : Run) (label : String) (hr : r ∈ sweep.latest suffixedRuns)
      (hl : sweep.place suffixedRuns r.implementation r.mode = some ⟨0, label⟩) :
      ∃ l ∈ c.linesAt 0 0, l.label = label := by
    obtain ⟨spot, hs, l, hl', he, _⟩ := Sweep.exists_point_of_run hchart hq hr rfl
    obtain rfl := Option.some.inj (hs.symm.trans hl)
    exact ⟨l, hl', he⟩
  obtain ⟨l, hl, he⟩ := hlabel (Run.ofThroughput "ring" .heap 1 1 100 40) "ring (heap)"
    (by decide) (by decide)
  obtain ⟨l', hl', he'⟩ := hlabel (Run.ofThroughput "ring (heap)" .heap 2 2 100 20)
    "ring (heap) (heap)" (by decide) (by decide)
  obtain ⟨p, hp, hbody⟩ := Chart.exists_panel_of_mem_linesAt hl
  refine ⟨c, hc, p, hp, (series_identified suffixedRuns .default .default c hc p hp).1, ?_⟩
  rw [hbody]
  exact ⟨List.mem_map.mpr ⟨l, hl, he⟩, List.mem_map.mpr ⟨l', hl', he'⟩⟩

end Analysis

end QueueBench
