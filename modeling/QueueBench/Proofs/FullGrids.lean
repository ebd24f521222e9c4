import QueueBench.Proofs.Outcomes

/-! # Full grids

A builder counts columns, panels and the places of bars apart from each other, over runs that
it has narrowed down by mode, metric or percentile. All the same the panels fill the grid, and
only a split scaling chart can have a panel in which nothing is drawn. -/
namespace QueueBench

variable {runs : List Run} {styles : StyleTable} {s : Sweep} {c : Chart} {q : Metric}
variable {row column : ℕ}

/-- The panels fill all rows of a grid that is not empty. -/
structure Chart.FullGrid (c : Chart) : Prop where
  columns_pos : 0 < c.columns
  rows_pos : 0 < c.rows
  length_panels : c.panels.length = c.rows * c.columns

theorem Chart.rows_eq {rows : ℕ} (hc : 0 < c.columns)
    (h : c.panels.length = rows * c.columns) : c.rows = rows := by
  rw [Chart.rows, if_neg hc.ne', h, Nat.add_sub_assoc hc, Nat.mul_comm, Nat.mul_add_div hc,
    Nat.div_eq_of_lt (Nat.sub_lt hc Nat.one_pos), Nat.add_zero]

theorem Chart.fullGrid_of_rows {rows : ℕ} (hc : 0 < c.columns) (hr : 0 < rows)
    (h : c.panels.length = rows * c.columns) : c.FullGrid ∧ c.rows = rows := by
  have he := rows_eq hc h
  exact ⟨⟨hc, he ▸ hr, he ▸ h⟩, he⟩

/-- Each group of bars has one place for each category, and no category is without a value. -/
structure FilledBars (categories : List String) (groups : List BarGroup) : Prop where
  categories_ne_nil : categories ≠ []
  groups_ne_nil : groups ≠ []
  length_values : ∀ b ∈ groups, b.values.length = categories.length
  exists_value : ∀ column < categories.length, ∃ b ∈ groups, ∃ y : Float,
    b.values[column]? = some (some y)

namespace PanelBody

def DrawsLines : PanelBody → Prop
  | lines ls => ls ≠ []
  | bars _ _ => False

def DrawsBars : PanelBody → Prop
  | lines _ => False
  | bars categories groups => FilledBars categories groups

def DrawsGroups : PanelBody → Prop
  | lines _ => False
  | bars _ groups => ∀ b ∈ groups, ∃ y : Float, some y ∈ b.values

end PanelBody

namespace Sweep

/-- A run without payload is not selected, so each run that is left has an efficiency. -/
theorem isSome_efficiency {threads : Option ℕ} {r : Run}
    (hr : r ∈ (efficiency threads).latest runs) : (Metric.efficiency.value r).isSome := by
  have hs := (of_mem_latestBy_filter _ hr).2
  have hp : 0 < r.payload := (of_decide_eq_true hs).2
  exact Option.isSome_of_eq_some (if_neg hp.ne')

theorem exists_value (h : s.chart runs styles = .ok c) (hq : q ∈ s.metrics runs) :
    ∃ r ∈ s.latest runs, (q.value r).isSome := by
  cases s with
  | scaling payload o => exact (Chart.mem_withData.mp hq).2
  | sensitivity threads requested => exact (Chart.mem_withData.mp hq).2
  | efficiency threads =>
    cases threads with
    | none => cases h
    | some threads =>
      obtain ⟨r, hr, hp⟩ := Chart.exists_efficiency_iff.mp ⟨c, h⟩
      have hs : (efficiency (some threads)).selects r := by
        simp [selects, hp]
      obtain ⟨a, ha⟩ := exists_latest_of_mem hr hs
      obtain rfl := List.mem_singleton.mp hq
      exact ⟨a, ha, isSome_efficiency ha⟩

theorem metrics_ne_nil (h : s.chart runs styles = .ok c) : s.metrics runs ≠ [] := by
  cases s with
  | scaling payload o =>
    cases payload with
    | none => cases h
    | some payload =>
      obtain ⟨q, hq, r, hr, hv⟩ := Chart.exists_scaling_iff.mp ⟨c, h⟩
      rw [← latest_scaling] at hr
      exact List.ne_nil_of_mem (Chart.mem_withData.mpr ⟨hq, r, hr, hv⟩)
  | sensitivity threads requested =>
    cases threads with
    | none => cases h
    | some threads =>
      obtain ⟨q, hq, r, hr, hv⟩ := Chart.exists_sensitivity_iff.mp ⟨c, h⟩
      rw [← latest_sensitivity threads requested] at hr
      exact List.ne_nil_of_mem (Chart.mem_withData.mpr ⟨hq, r, hr, hv⟩)
  | efficiency threads => exact List.cons_ne_nil _ _

theorem fullGrid (h : s.chart runs styles = .ok c) :
    c.FullGrid ∧ c.rows = (s.rows runs).length := by
  obtain ⟨q, hq⟩ := List.exists_mem_of_ne_nil _ (metrics_ne_nil h)
  obtain ⟨r, hr, _⟩ := exists_value h hq
  obtain ⟨row, rs, hs, _⟩ := exists_row_of_mem_latest hr
  have hrow := (List.getElem?_eq_some_iff.mp hs).1
  apply Chart.fullGrid_of_rows
  · rw [(panels_of_chart h).1]
    exact List.length_pos_of_mem hq
  · omega
  · exact length_panels h

/-- A panel is hollow exactly when no run of its row has the metric. -/
theorem lines_eq_nil_iff {rs : List Run} :
    s.lines styles rs q = [] ↔ ∀ r ∈ rs, q.value r = none := by
  constructor
  · intro h r hr
    by_contra hv
    obtain ⟨y, hy⟩ := Option.ne_none_iff_exists'.mp hv
    have hline : ∃ l ∈ s.lines styles rs q, l.label = ((Grouping.infer rs).key r).label ∧
        ⟨s.axis.value r, y⟩ ∈ l.points := exists_line_of_run hr hy
    obtain ⟨l, hl, _⟩ := hline
    rw [h] at hl
    cases hl
  · intro h
    apply List.eq_nil_iff_forall_not_mem.mpr
    intro l hl
    obtain ⟨p, hp⟩ := List.exists_mem_of_ne_nil _ (points_ne_nil hl)
    obtain ⟨r, hr, _, _, hy⟩ := exists_run_of_mem_points hl hp
    rw [h r hr] at hy
    cases hy

/-- A metric is kept for a run, and that run has its line in the row of its mode. -/
theorem exists_drawn (h : s.chart runs styles = .ok c)
    (hq : (s.metrics runs)[column]? = some q) :
    ∃ row < c.rows, ∃ p, c.panels[row * c.columns + column]? = some p ∧ p.body.DrawsLines := by
  obtain ⟨r, hr, hv⟩ := exists_value h (List.mem_of_getElem? hq)
  obtain ⟨row, rs, hs, hr⟩ := exists_row_of_mem_latest hr
  have hp := getElem?_panels row h hq
  rw [hs, Option.map_some, Option.map_eq_some_iff] at hp
  obtain ⟨p, hp, he⟩ := hp
  obtain ⟨_, hbody⟩ := Prod.mk.inj he
  refine ⟨row, ?_, p, hp, ?_⟩
  · rw [(fullGrid h).2]
    exact (List.getElem?_eq_some_iff.mp hs).1
  · rw [hbody]
    intro hnil
    rw [lines_eq_nil_iff.mp hnil r hr] at hv
    cases hv

/-- Where all modes share a row, the panel of a metric is the one in which it has a line. -/
theorem drawsLines_of_joint (h : s.chart runs styles = .ok c) (hs : s.splitByMode = false)
    {p : Panel} (hp : p ∈ c.panels) : p.body.DrawsLines := by
  obtain ⟨⟨_, _, hlength⟩, hrows⟩ := fullGrid h
  have hone : c.rows = 1 := by
    rw [hrows, rows_of_joint hs, List.length_singleton]
  obtain ⟨column, hp⟩ := List.mem_iff_getElem?.mp hp
  have hcolumn : column < (s.metrics runs).length := by
    have hlt := (List.getElem?_eq_some_iff.mp hp).1
    rwa [hlength, hone, Nat.one_mul, (panels_of_chart h).1] at hlt
  obtain ⟨row, hrow, p', hp', hd⟩ := exists_drawn h (List.getElem?_eq_getElem hcolumn)
  obtain rfl : row = 0 := by omega
  rw [Nat.zero_mul, Nat.zero_add, hp] at hp'
  rwa [Option.some.inj hp']

section Split

variable {payload : ℕ} {o : Chart.ScalingOptions}

theorem titles_of_split (h : (scaling (some payload) o).chart runs styles = .ok c)
    (ho : o.splitByMode = true) :
    c.panels.map Panel.title = (modesOf ((scaling (some payload) o).latest runs)).flatMap fun m =>
      ((scaling (some payload) o).metrics runs).map fun q =>
        s!"{q.title} vs Threads [{m.name}]" := by
  simp only [chart, Chart.scaling_eq] at h
  split at h
  · cases h
  split at h
  · cases h
  obtain rfl := Except.ok.inj h
  simp only [Chart.scalingPanels, ho, metrics, latest_scaling, ↓reduceIte, List.map_flatMap,
    linePanels, List.map_map]
  congr 1
  funext m
  refine List.map_congr_left fun q _ => ?_
  change q.title ++ " vs " ++ "Threads" ++ (" [" ++ m.name ++ "]") =
    q.title ++ (" vs " ++ "Threads" ++ " [") ++ m.name ++ "]"
  simp only [String.append_assoc]

/-- Each mode has a row and each kept metric a column, and no column is empty. -/
structure SplitGrid (s : Sweep) (runs : List Run) (styles : StyleTable) (c : Chart) : Prop where
  rows_eq : c.rows = (modesOf (s.latest runs)).length
  columns_eq : c.columns = (s.metrics runs).length
  panel_eq : ∀ row m column q, (modesOf (s.latest runs))[row]? = some m →
    (s.metrics runs)[column]? = some q →
      ∃ p, c.panels[row * c.columns + column]? = some p ∧
        p.title = s!"{q.title} vs Threads [{m.name}]" ∧ p.yLabel = q.label ∧
        p.body = .lines (s.lines styles ((s.latest runs).filter fun r => r.mode = m) q)
  exists_drawn : ∀ column < c.columns, ∃ row < c.rows, ∃ p,
    c.panels[row * c.columns + column]? = some p ∧ p.body.DrawsLines

theorem splitGrid (h : (scaling (some payload) o).chart runs styles = .ok c)
    (ho : o.splitByMode = true) : (scaling (some payload) o).SplitGrid runs styles c := by
  have hcolumns := (panels_of_chart h).1
  have hrows := rows_of_split (s := scaling (some payload) o) ho runs
  refine ⟨?_, hcolumns, ?_, ?_⟩
  · rw [(fullGrid h).2, hrows, List.length_map]
  · intro row m column q hm hq
    have hp := getElem?_panels row h hq
    rw [hrows, List.getElem?_map, hm, Option.map_some, Option.map_some,
      Option.map_eq_some_iff] at hp
    obtain ⟨p, hp, he⟩ := hp
    obtain ⟨hlabel, hbody⟩ := Prod.mk.inj he
    -- The panels of all sweeps are described together, but their titles are worded apart.
    have ht := congrArg (fun titles => titles[row * c.columns + column]?) (titles_of_split h ho)
    simp only [List.getElem?_map, hp, Option.map_some] at ht
    rw [hcolumns, getElem?_grid _ _ _ (List.getElem?_eq_some_iff.mp hq).1, hm, hq] at ht
    exact ⟨p, hp, Option.some.inj ht, hlabel, hbody⟩
  · intro column hcolumn
    rw [hcolumns] at hcolumn
    exact exists_drawn h (List.getElem?_eq_getElem hcolumn)

end Split

end Sweep

/-- Bars are filled where each metric has a value on one of the runs. -/
theorem filledBars_barGroups {α : Type} {g : Grouping} {x : XAxis} (name : α → String)
    (metric : α → Metric) {as : List α} (hd : (runs.map g.key).Nodup) (has : as ≠ [])
    (hv : ∀ a ∈ as, ∃ r ∈ runs, ((metric a).value r).isSome) :
    FilledBars (as.map name) (barGroups (group runs g x styles) (as.map metric)) := by
  have hgroup {r : Run} (hr : r ∈ runs) :
      ⟨(g.key r).label, styles.style r.implementation r.mode,
        (as.map metric).map fun q => q.value r⟩ ∈
          barGroups (group runs g x styles) (as.map metric) :=
    (mem_barGroups hd).mpr ⟨r, hr, rfl⟩
  refine ⟨?_, ?_, ?_, ?_⟩
  · rwa [ne_eq, List.map_eq_nil_iff]
  · obtain ⟨a, ha⟩ := List.exists_mem_of_ne_nil _ has
    obtain ⟨r, hr, _⟩ := hv a ha
    exact List.ne_nil_of_mem (hgroup hr)
  · intro b hb
    obtain ⟨r, _, rfl⟩ := (mem_barGroups hd).mp hb
    rw [List.length_map, List.length_map, List.length_map]
  · intro column hcolumn
    rw [List.length_map] at hcolumn
    obtain ⟨r, hr, hv⟩ := hv as[column] (List.getElem_mem hcolumn)
    obtain ⟨y, hy⟩ := Option.isSome_iff_exists.mp hv
    refine ⟨_, hgroup hr, y, ?_⟩
    rw [List.map_map, List.getElem?_map, List.getElem?_eq_getElem hcolumn, Option.map_some,
      Function.comp_apply, hy]

namespace Chart

theorem fullGrid_of_columns (hc : c.columns = c.panels.length) (hp : c.panels ≠ []) :
    c.FullGrid := by
  have hpos : 0 < c.columns := hc ▸ List.length_pos_of_ne_nil hp
  exact (fullGrid_of_rows hpos Nat.one_pos (by rw [hc, Nat.one_mul])).1

section Comparison

variable {axes : FixedAxes}

theorem exists_value_of_mem_comparedMetrics (hne : runs ≠ []) (hq : q ∈ comparedMetrics runs) :
    ∃ r ∈ runs, (q.value r).isSome := by
  rcases List.mem_cons.mp hq with rfl | hq
  · obtain ⟨r, hr⟩ := List.exists_mem_of_ne_nil _ hne
    exact ⟨r, hr, rfl⟩
  · have hv := List.find?_some (Option.mem_toList.mp hq)
    exact List.any_eq_true.mp hv

theorem draws_comparison (h : comparison runs axes styles = .ok c) :
    c.FullGrid ∧ ∀ p ∈ c.panels, p.body.DrawsBars := by
  obtain ⟨threads, payload, rfl, hcolumns, hpanels⟩ := panels_of_comparison h
  refine ⟨fullGrid_of_columns hcolumns (hpanels ▸ List.cons_ne_nil _ _), ?_⟩
  intro p hp
  rw [hpanels, List.mem_map] at hp
  obtain ⟨q, hq, rfl⟩ := hp
  have hne : comparisonRuns runs threads payload ≠ [] := exists_ok_of_ne_nil_iff.mp ⟨c, h⟩
  have hf : ∀ a ∈ [q], ∃ r ∈ comparisonRuns runs threads payload, (a.value r).isSome := by
    intro a ha
    rw [List.mem_singleton.mp ha]
    exact exists_value_of_mem_comparedMetrics hne hq
  exact filledBars_barGroups Metric.title id (nodup_infer_key (nodup_comparisonRuns _ _ _))
    (List.cons_ne_nil q []) hf

end Comparison

section Distribution

variable {fixedPayload : Option ℕ} {threads payload : ℕ}

theorem exists_latency {r : Run} (hr : r ∈ distributionRuns (latencyRuns runs payload) threads) :
    ∃ p, (r.latency.get p).isSome := by
  have hl := (List.mem_filter.mp (of_mem_latestBy_filter _ hr).1).2
  rw [decide_eq_true_eq] at hl
  exact Latency.isEmpty_eq_false_iff.mp hl.2

theorem distributionRuns_ne_nil (h : mostThreads runs = some threads) :
    distributionRuns runs threads ≠ [] := by
  obtain ⟨r, hr, ht⟩ := List.mem_map.mp (List.max?_mem h)
  apply (latestBy_filter_ne_nil runs Run.seriesKey _).mpr
  exact ⟨r, hr, by simpa using ht⟩

/-- A panel of a mode is filled from both sides: each percentile is that of some run, and each
run has one of the percentiles. -/
theorem draws_modePanel {m : AllocMode} {p : Panel} (hd : (runs.map Run.seriesKey).Nodup)
    (hv : ∀ r ∈ runs, ∃ p, (r.latency.get p).isSome) (hm : m ∈ modesOf runs)
    (hp : modePanel (runs.filter fun r => r.mode = m) m styles = some p) :
    p.body.DrawsBars ∧ p.body.DrawsGroups := by
  obtain ⟨_, hbody⟩ := modePanel_eq_some hp
  have hk := nodup_key_filter_mode hd m
  rw [hbody]
  constructor
  · refine filledBars_barGroups _ _ hk ?_ fun p hp => ?_
    · obtain ⟨r, hr, rfl⟩ := mem_modesOf.mp hm
      obtain ⟨p, hp⟩ := hv r hr
      exact List.ne_nil_of_mem (mem_percentilesOf_row hr hp)
    · obtain ⟨r, hr, hs⟩ := mem_percentilesOf.mp hp
      exact ⟨r, hr, isSome_value_latency.mpr hs⟩
  · intro b hb
    obtain ⟨r, hr, rfl⟩ := (mem_barGroups hk).mp hb
    obtain ⟨hr, hrm⟩ := List.mem_filter.mp hr
    obtain ⟨p, hp⟩ := hv r hr
    obtain ⟨y, hy⟩ := Option.isSome_iff_exists.mp (isSome_value_latency.mpr hp)
    have hp := mem_percentilesOf_row hr hp
    rw [of_decide_eq_true hrm] at hp
    exact ⟨y, List.mem_map.mpr ⟨_, List.mem_map_of_mem hp, hy⟩⟩

theorem draws_distribution (h : distribution runs fixedPayload styles = .ok c) :
    c.FullGrid ∧ ∀ p ∈ c.panels, p.body.DrawsBars ∧ p.body.DrawsGroups := by
  obtain ⟨payload, threads, rfl, ht, _, hcolumns, hpanels⟩ := panels_of_distribution h
  constructor
  · apply fullGrid_of_columns hcolumns
    rw [hpanels]
    obtain ⟨r, hr⟩ := List.exists_mem_of_ne_nil _ (distributionRuns_ne_nil ht)
    obtain ⟨p, hp⟩ := exists_latency hr
    obtain ⟨panel, hpanel⟩ :=
      exists_modePanel (List.ne_nil_of_mem (mem_percentilesOf_row hr hp)) r.mode styles
    exact List.ne_nil_of_mem
      (List.mem_filterMap.mpr ⟨r.mode, mem_modesOf.mpr ⟨r, hr, rfl⟩, hpanel⟩)
  · intro p hp
    rw [hpanels, List.mem_filterMap] at hp
    obtain ⟨m, hm, hp⟩ := hp
    exact draws_modePanel (nodup_distributionRuns _ _) (fun r hr => exists_latency hr) hm hp

end Distribution

end Chart

namespace Analysis

variable {o : Options}

def Drawn (runs : List Run) (o : Options) (styles : StyleTable) (c : Chart) : Prop :=
  match c.family with
  | .scaling =>
    if o.splitByMode then ∃ payload, (ofRuns runs o styles).axes.payload = some payload ∧
      (Sweep.scaling (some payload) o.scaling).SplitGrid runs styles c
    else ∀ p ∈ c.panels, p.body.DrawsLines
  | .sensitivity => ∀ p ∈ c.panels, p.body.DrawsLines
  | .efficiency => ∀ p ∈ c.panels, p.body.DrawsLines
  | .distribution => ∀ p ∈ c.panels, p.body.DrawsBars ∧ p.body.DrawsGroups
  | .comparison => ∀ p ∈ c.panels, p.body.DrawsBars

/-- Built charts are full grids, and their panels are not hollow. -/
theorem charts_are_full_grids (runs : List Run) (o : Options) (styles : StyleTable) :
    ∀ c ∈ (ofRuns runs o styles).built, c.FullGrid ∧ Drawn runs o styles c := by
  intro c hc
  have h := mem_built.mp hc
  unfold Drawn
  cases hf : c.family with
  | scaling =>
    rw [hf] at h
    have hchart : (Sweep.scaling (FixedAxes.detect runs).payload o.scaling).chart runs styles =
        .ok c := h
    refine ⟨(Sweep.fullGrid hchart).1, ?_⟩
    by_cases ho : o.splitByMode = true
    · simp only [if_pos ho]
      cases hp : (FixedAxes.detect runs).payload with
      | none =>
        rw [hp] at hchart
        cases hchart
      | some payload =>
        rw [hp] at hchart
        exact ⟨payload, hp, Sweep.splitGrid hchart ho⟩
    · simp only [if_neg ho]
      intro p hp
      exact Sweep.drawsLines_of_joint hchart (Bool.eq_false_of_not_eq_true ho) hp
  | sensitivity =>
    rw [hf] at h
    have hchart : (Sweep.sensitivity (FixedAxes.detect runs).threads o.metrics).chart runs styles =
        .ok c := h
    exact ⟨(Sweep.fullGrid hchart).1, fun p hp => Sweep.drawsLines_of_joint hchart rfl hp⟩
  | efficiency =>
    rw [hf] at h
    have hchart : (Sweep.efficiency (FixedAxes.detect runs).threads).chart runs styles = .ok c := h
    exact ⟨(Sweep.fullGrid hchart).1, fun p hp => Sweep.drawsLines_of_joint hchart rfl hp⟩
  | distribution =>
    rw [hf] at h
    exact Chart.draws_distribution h
  | comparison =>
    rw [hf] at h
    exact Chart.draws_comparison h

def lopsidedRuns : List Run :=
  [{ Run.ofThroughput "spsc" .heap 1 1 100 10 with latency := { Latency.none with p99 := some 5 } },
   Run.ofThroughput "spsc" .pooled 1 1 100 20]

def splitOptions : Options := ⟨.producers, true, [.throughput, .latency .p99]⟩

/-- The last panel of the split chart is hollow, but its column is not. -/
theorem charts_are_full_grids_lopsided :
    ∃ c ∈ (ofRuns lopsidedRuns splitOptions .default).built, c.family = .scaling ∧
      c.rows = 2 ∧ c.columns = 2 ∧ (c.panels[3]?).map Panel.body = some (.lines []) ∧
      ∃ row < 2, ∃ p, c.panels[row * 2 + 1]? = some p ∧ p.body.DrawsLines := by
  have haxes : FixedAxes.detect lopsidedRuns = ⟨some 100, some 1⟩ := by cbv
  obtain ⟨c, hc, hcf⟩ : (ofRuns lopsidedRuns splitOptions .default).Builds .scaling :=
    builds_of_detect haxes ⟨_, rfl⟩
  obtain ⟨_, hdrawn⟩ := charts_are_full_grids lopsidedRuns splitOptions .default c hc
  rw [Drawn, hcf] at hdrawn
  obtain ⟨payload, hp, hrows, hcolumns, hpanel, hdraws⟩ := hdrawn
  obtain rfl := Option.some.inj (hp.symm.trans (congrArg FixedAxes.payload haxes))
  have hrows : c.rows = 2 := hrows
  have hcolumns : c.columns = 2 := hcolumns
  rw [hrows, hcolumns] at hdraws
  refine ⟨c, hc, hcf, hrows, hcolumns, ?_, hdraws 1 Nat.one_lt_two⟩
  obtain ⟨p, hp, _, _, hbody⟩ := hpanel 1 .pooled 1 (.latency .p99) (by decide) (by decide)
  rw [hcolumns] at hp
  rw [hp, Option.map_some, hbody, Sweep.lines_eq_nil_iff.mpr (by decide)]

end Analysis

end QueueBench
