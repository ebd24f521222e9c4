import QueueBench.Chart.AtPoint
import QueueBench.Proofs.Latest
import QueueBench.Proofs.Lines

/-! # Bars as values of runs

A chart of bars shows one run of each implementation and mode. A bar therefore stands for a
run and a metric, and a missing bar for a run without the metric. -/
namespace QueueBench

def PanelBody.HasBar (label category : String) (y : Float) : PanelBody → Prop
  | lines _ => False
  | bars categories groups =>
    ∃ b ∈ groups, b.label = label ∧ (category, some y) ∈ categories.zip b.values

def Chart.HasBar (c : Chart) (title label category : String) (y : Float) : Prop :=
  ∃ p ∈ c.panels, p.title = title ∧ p.body.HasBar label category y

def barGroups (series : List Series) (metrics : List Metric) : List BarGroup :=
  series.map fun s => ⟨s.label, s.style, metrics.map fun q => s.runs.head?.bind q.value⟩

variable {runs : List Run} {g : Grouping} {x : XAxis} {styles : StyleTable} {q : Metric}

theorem map_label_barGroups (series : List Series) (metrics : List Metric) :
    (barGroups series metrics).map BarGroup.label = series.map Series.label := by
  rw [barGroups, List.map_map]
  rfl

/-- A series of one run has the values of that run. -/
theorem barGroup_ofKey (hd : (runs.map g.key).Nodup) {r : Run} (hr : r ∈ runs)
    (metrics : List Metric) :
    let s := Series.ofKey runs g x styles (g.key r)
    (⟨s.label, s.style, metrics.map fun q => s.runs.head?.bind q.value⟩ : BarGroup) =
      ⟨(g.key r).label, styles.style r.implementation r.mode, metrics.map fun q => q.value r⟩ := by
  intro s
  rw [Series.runs_ofKey hd hr, Series.style_ofKey hr]
  · rfl
  · intro a ha hk
    rw [List.inj_on_of_nodup_map hd ha hr hk]

theorem mem_barGroups (hd : (runs.map g.key).Nodup) {metrics : List Metric} {b : BarGroup} :
    b ∈ barGroups (group runs g x styles) metrics ↔
      ∃ r ∈ runs, b = ⟨(g.key r).label, styles.style r.implementation r.mode,
        metrics.map fun q => q.value r⟩ := by
  rw [barGroups, List.mem_map]
  constructor
  · rintro ⟨s, hs, rfl⟩
    obtain ⟨r, hr, rfl⟩ := mem_group.mp hs
    exact ⟨r, hr, barGroup_ofKey hd hr metrics⟩
  · rintro ⟨r, hr, rfl⟩
    exact ⟨_, mem_group.mpr ⟨r, hr, rfl⟩, barGroup_ofKey hd hr metrics⟩

/-- The groups stand in the order of the keys. -/
theorem barGroups_eq_map (hd : (runs.map g.key).Nodup) {metrics : List Metric}
    {f : SeriesKey → BarGroup} (h : ∀ r ∈ runs, f (g.key r) =
      ⟨(g.key r).label, styles.style r.implementation r.mode, metrics.map fun q => q.value r⟩) :
    barGroups (group runs g x styles) metrics = (g.keys runs).map f := by
  rw [barGroups, group, List.map_map]
  apply List.map_congr_left
  intro k hk
  obtain ⟨r, hr, rfl⟩ := Grouping.mem_keys.mp hk
  exact (barGroup_ofKey hd hr metrics).trans (h r hr).symm

/-- Where categories have distinct names, each bar stands for a run and its metric. -/
theorem hasBar_iff {α : Type} (name : α → String) (metric : α → Metric) (as : List α) {a : α}
    (hd : (runs.map g.key).Nodup) (hn : ∀ b ∈ as, name b = name a → b = a) {label : String}
    {y : Float} :
    (PanelBody.bars (as.map name) (barGroups (group runs g x styles) (as.map metric))).HasBar
        label (name a) y ↔
      a ∈ as ∧ ∃ r ∈ runs, (g.key r).label = label ∧ (metric a).value r = some y := by
  have hz (r : Run) : (name a, some y) ∈ (as.map name).zip ((as.map metric).map fun q => q.value r)
      ↔ a ∈ as ∧ (metric a).value r = some y := by
    rw [List.map_map, List.zip_map', List.mem_map]
    constructor
    · rintro ⟨b, hb, he⟩
      obtain ⟨hname, hv⟩ := Prod.mk.inj he
      obtain rfl := hn b hb hname
      exact ⟨hb, hv⟩
    · rintro ⟨ha, hv⟩
      exact ⟨a, ha, Prod.ext rfl hv⟩
  constructor
  · rintro ⟨b, hb, hl, hm⟩
    obtain ⟨r, hr, rfl⟩ := (mem_barGroups hd).mp hb
    obtain ⟨ha, hv⟩ := (hz r).mp hm
    exact ⟨ha, r, hr, hl, hv⟩
  · rintro ⟨ha, r, hr, hl, hv⟩
    exact ⟨_, (mem_barGroups hd).mpr ⟨r, hr, rfl⟩, hl, (hz r).mpr ⟨ha, hv⟩⟩

end QueueBench
