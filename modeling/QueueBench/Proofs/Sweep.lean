import QueueBench.Proofs.Latest
import QueueBench.Proofs.Lines
import QueueBench.Proofs.Logged

/-! # Charts of a sweep

The three charts of lines differ in the fixed quantity, the x axis and the panels, but not in
how runs become points. A point belongs to one implementation, one mode and one axis value,
and it shows the last run there that has the fixed value. A run without the metric still
replaces the runs before it. -/
namespace QueueBench

def Chart.linesAt (c : Chart) (row column : ℕ) : List Line :=
  match c.panels[row * c.columns + column]? with
  | some ⟨_, _, _, _, _, .lines ls⟩ => ls
  | _ => []

inductive Sweep where
  | scaling (payload : Option ℕ) (options : Chart.ScalingOptions)
  | sensitivity (threads : Option ℕ) (requested : List Metric)
  | efficiency (threads : Option ℕ)

namespace Sweep

def chart (s : Sweep) (runs : List Run) (styles : StyleTable) : ChartOutcome :=
  match s with
  | scaling payload o => Chart.scaling runs payload o styles
  | sensitivity threads requested => Chart.sensitivity runs threads requested styles
  | efficiency threads => Chart.efficiency runs threads styles

def axis : Sweep → XAxis
  | scaling _ o => .threads o.axis
  | sensitivity _ _ => .payload
  | efficiency _ => .payload

def selects : Sweep → Run → Bool
  | scaling payload _, r => payload = some r.payload
  | sensitivity threads _, r => threads = some r.producers
  | efficiency threads, r => threads = some r.producers ∧ 0 < r.payload

def latest (s : Sweep) (runs : List Run) : List Run :=
  latestBy (Run.configuration s.axis) (runs.filter s.selects)

def metrics (s : Sweep) (runs : List Run) : List Metric :=
  match s with
  | scaling _ o => Metric.withData (s.latest runs) o.metrics
  | sensitivity _ requested => Metric.withData (s.latest runs) requested
  | efficiency _ => [.efficiency]

def splitByMode : Sweep → Bool
  | scaling _ o => o.splitByMode
  | sensitivity _ _ => false
  | efficiency _ => false

/-- The last run of a configuration that has the fixed value. -/
def lastAt (s : Sweep) (runs : List Run) (implementation : String) (mode : AllocMode) (x : ℕ) :
    Option Run :=
  lastWhere (fun r => s.selects r ∧ r.implementation = implementation ∧ r.mode = mode ∧
    s.axis.raw r = x) runs

structure Place where
  row : ℕ
  label : String
  deriving DecidableEq

/-- The row of a series is that of its mode where modes have rows of their own. Labels name
the mode only where one row mixes modes. -/
def place (s : Sweep) (runs : List Run) (implementation : String) (mode : AllocMode) :
    Option Place :=
  let modes := modesOf (s.latest runs)
  if mode ∉ modes then none
  else if s.splitByMode then some ⟨modes.idxOf mode, implementation⟩
  else if modes = [mode] then some ⟨0, implementation⟩
  else some ⟨0, s!"{implementation} ({mode.name})"⟩

def rows (s : Sweep) (runs : List Run) : List (List Run) :=
  if s.splitByMode then
    (modesOf (s.latest runs)).map fun m => (s.latest runs).filter fun r => r.mode = m
  else [s.latest runs]

def lines (s : Sweep) (styles : StyleTable) (runs : List Run) (q : Metric) : List Line :=
  metricLines (group runs (Grouping.infer runs) s.axis styles) s.axis q

variable {s : Sweep} {runs : List Run} {styles : StyleTable} {c : Chart} {q : Metric}
variable {i j : String} {m n : AllocMode} {row column : ℕ}

theorem mem_latest {r : Run} :
    r ∈ s.latest runs ↔ s.lastAt runs r.implementation r.mode (s.axis.raw r) = some r := by
  rw [latest, lastAt, mem_latestBy, lastWhere_filter]
  have hp : (fun a => decide (a.configuration s.axis = r.configuration s.axis) && s.selects a) =
      fun a : Run => decide (s.selects a ∧ a.implementation = r.implementation ∧
        a.mode = r.mode ∧ s.axis.raw a = s.axis.raw r) := by
    funext a
    rw [Bool.and_comm, Bool.eq_iff_iff]
    simp [Run.configuration]
  rw [hp]

theorem lastAt_some {x : ℕ} {r : Run} (h : s.lastAt runs i m x = some r) :
    r ∈ s.latest runs ∧ r.implementation = i ∧ r.mode = m ∧ s.axis.raw r = x := by
  have hr := (lastWhere_some h).2
  simp only [decide_eq_true_eq] at hr
  obtain ⟨_, rfl, rfl, rfl⟩ := hr
  exact ⟨mem_latest.mpr h, rfl, rfl, rfl⟩

/-- A run is kept when it is the last of its configuration. -/
theorem exists_latest_iff {P : Run → Prop} :
    (∃ r ∈ s.latest runs, P r) ↔ ∃ i m x r, s.lastAt runs i m x = some r ∧ P r := by
  constructor
  · rintro ⟨r, hr, h⟩
    exact ⟨_, _, _, r, mem_latest.mp hr, h⟩
  · rintro ⟨i, m, x, r, hr, h⟩
    exact ⟨r, (lastAt_some hr).1, h⟩

theorem exists_latest_of_mem {r : Run} (hr : r ∈ runs) (hs : s.selects r) :
    ∃ a, a ∈ s.latest runs := by
  obtain ⟨a, ha, _⟩ := exists_mem_latestBy (Run.configuration s.axis)
    (List.mem_filter.mpr ⟨hr, hs⟩)
  exact ⟨a, ha⟩

theorem nodup_configuration_latest (s : Sweep) (runs : List Run) :
    ((s.latest runs).map (Run.configuration s.axis)).Nodup :=
  nodup_keys_latestBy _ _

theorem latest_of_selects {p : Run → Bool} (h : ∀ r, s.selects r = p r) (runs : List Run) :
    s.latest runs = latestBy (Run.configuration s.axis) (runs.filter p) := by
  rw [latest, funext h]

theorem latest_scaling (payload : ℕ) (o : Chart.ScalingOptions) (runs : List Run) :
    (scaling (some payload) o).latest runs = Chart.scalingRuns runs payload o.axis :=
  latest_of_selects (fun r => by simp [selects, eq_comm]) runs

theorem latest_sensitivity (threads : ℕ) (requested : List Metric) (runs : List Run) :
    (sensitivity (some threads) requested).latest runs = Chart.sensitivityRuns runs threads :=
  latest_of_selects (fun r => by simp [selects, eq_comm]) runs

theorem latest_efficiency (threads : ℕ) (runs : List Run) :
    (efficiency (some threads)).latest runs = Chart.efficiencyRuns runs threads :=
  latest_of_selects (fun r => by simp [selects, eq_comm]) runs

theorem getElem?_grid {α β γ : Type} (f : α → β → γ) (as : List α) (bs : List β) {row column : ℕ}
    (h : column < bs.length) :
    (as.flatMap fun a => bs.map (f a))[row * bs.length + column]? =
      as[row]?.bind fun a => bs[column]?.map (f a) := by
  induction as generalizing row with
  | nil => simp
  | cons a as ih =>
    rw [List.flatMap_cons]
    cases row with
    | zero =>
      rw [Nat.zero_mul, Nat.zero_add, List.getElem?_append_left (by simpa using h)]
      simp
    | succ row =>
      have hl : (bs.map (f a)).length ≤ (row + 1) * bs.length + column := by
        rw [List.length_map, Nat.succ_mul]
        omega
      have hs : (row + 1) * bs.length + column - bs.length = row * bs.length + column := by
        rw [Nat.succ_mul]
        omega
      rw [List.getElem?_append_right hl, List.length_map, hs, ih]
      rfl

/-- A chart has one panel for each row and each metric, and nothing else. -/
theorem panels_of_chart (h : s.chart runs styles = .ok c) :
    c.columns = (s.metrics runs).length ∧
      c.panels.map (fun p => (p.yLabel, p.body)) = (s.rows runs).flatMap fun rs =>
        (s.metrics runs).map fun q => (q.label, .lines (s.lines styles rs q)) := by
  cases s with
  | scaling payload o =>
    cases payload with
    | none => cases h
    | some payload =>
      simp only [chart, Chart.scaling_eq] at h
      split at h
      · cases h
      split at h
      · cases h
      obtain rfl := Except.ok.inj h
      refine ⟨by rw [metrics, latest_scaling], ?_⟩
      simp only [Chart.scalingPanels, rows, splitByMode, metrics, latest_scaling]
      split
      · rw [List.map_flatMap, List.flatMap_map]
        congr 1
        funext m
        simp only [linePanels, lines, List.map_map, Grouping.infer_filter_mode]
        rfl
      · simp only [linePanels, lines, List.map_map, List.flatMap_singleton]
        rfl
  | sensitivity threads requested =>
    cases threads with
    | none => cases h
    | some threads =>
      simp only [chart, Chart.sensitivity] at h
      split at h
      · cases h
      split at h
      · cases h
      obtain rfl := Except.ok.inj h
      refine ⟨by rw [metrics, latest_sensitivity], ?_⟩
      simp [rows, splitByMode, metrics, latest_sensitivity, linePanels, lines, axis]
  | efficiency threads =>
    cases threads with
    | none => cases h
    | some threads =>
      simp only [chart, Chart.efficiency] at h
      split at h
      · cases h
      obtain rfl := Except.ok.inj h
      refine ⟨rfl, ?_⟩
      simp [rows, splitByMode, metrics, latest_efficiency, lines, axis]

theorem length_panels (h : s.chart runs styles = .ok c) :
    c.panels.length = (s.rows runs).length * c.columns := by
  obtain ⟨hc, hp⟩ := panels_of_chart h
  have hl := congrArg List.length hp
  rw [List.length_map, List.length_flatMap] at hl
  simpa [hc] using hl

theorem getElem?_panels (row : ℕ) (h : s.chart runs styles = .ok c)
    (hq : (s.metrics runs)[column]? = some q) :
    (c.panels[row * c.columns + column]?).map (fun p => (p.yLabel, p.body)) =
      (s.rows runs)[row]?.map fun rs => (q.label, .lines (s.lines styles rs q)) := by
  obtain ⟨hc, hp⟩ := panels_of_chart h
  have hl : column < (s.metrics runs).length := (List.getElem?_eq_some_iff.mp hq).1
  rw [← List.getElem?_map, hp, hc, getElem?_grid _ _ _ hl, hq]
  cases (s.rows runs)[row]? <;> rfl

theorem linesAt_of_chart (h : s.chart runs styles = .ok c)
    (hq : (s.metrics runs)[column]? = some q) :
    c.linesAt row column =
      ((s.rows runs)[row]?.map fun rs => s.lines styles rs q).getD [] := by
  have hp := getElem?_panels row h hq
  unfold Chart.linesAt
  cases hr : (s.rows runs)[row]? with
  | none =>
    rw [hr, Option.map_none, Option.map_eq_none_iff] at hp
    rw [hp]
    rfl
  | some rs =>
    rw [hr, Option.map_some, Option.map_eq_some_iff] at hp
    obtain ⟨⟨_, _, _, _, _, body⟩, hp, he⟩ := hp
    obtain ⟨_, rfl⟩ := Prod.mk.inj he
    rw [hp]
    rfl

theorem panel_eq_of_chart (h : s.chart runs styles = .ok c)
    (hq : (s.metrics runs)[column]? = some q) {p : Panel}
    (hp : c.panels[row * c.columns + column]? = some p) :
    p.yLabel = q.label ∧ p.body = .lines (c.linesAt row column) := by
  have hg := getElem?_panels row h hq
  rw [linesAt_of_chart h hq]
  rw [hp, Option.map_some, eq_comm, Option.map_eq_some_iff] at hg
  obtain ⟨rs, hr, he⟩ := hg
  obtain ⟨hy, hb⟩ := Prod.mk.inj he
  rw [hr]
  exact ⟨hy.symm, hb.symm⟩

theorem mem_modesOf_latest {r : Run} (hr : r ∈ s.latest runs) : r.mode ∈ modesOf (s.latest runs) :=
  mem_modesOf.mpr ⟨r, hr, rfl⟩

theorem rows_of_split (hs : s.splitByMode = true) (runs : List Run) : s.rows runs =
    (modesOf (s.latest runs)).map fun m => (s.latest runs).filter fun r => r.mode = m := by
  rw [rows, if_pos hs]

theorem rows_of_joint (hs : s.splitByMode = false) (runs : List Run) :
    s.rows runs = [s.latest runs] := by
  rw [rows, hs]
  rfl

theorem row_sublist {rs : List Run} (hs : rs ∈ s.rows runs) : rs.Sublist (s.latest runs) := by
  cases hsplit : s.splitByMode with
  | true =>
    rw [rows_of_split hsplit] at hs
    obtain ⟨m, _, rfl⟩ := List.mem_map.mp hs
    exact List.filter_sublist
  | false =>
    rw [rows_of_joint hsplit] at hs
    rw [List.mem_singleton.mp hs]

/-- Rows leave none of the latest runs out. -/
theorem exists_row_of_mem_latest {r : Run} (hr : r ∈ s.latest runs) :
    ∃ (row : ℕ) (rs : List Run), (s.rows runs)[row]? = some rs ∧ r ∈ rs := by
  have hm : ∃ rs ∈ s.rows runs, r ∈ rs := by
    cases hsplit : s.splitByMode with
    | true =>
      rw [rows_of_split hsplit]
      exact ⟨_, List.mem_map_of_mem (mem_modesOf_latest hr), List.mem_filter.mpr ⟨hr, by simp⟩⟩
    | false =>
      rw [rows_of_joint hsplit]
      exact ⟨_, List.mem_singleton.mpr rfl, hr⟩
  obtain ⟨rs, hs, hr⟩ := hm
  obtain ⟨row, hrow⟩ := List.mem_iff_getElem?.mp hs
  exact ⟨row, rs, hrow, hr⟩

theorem nodup_configuration_row {rs : List Run} (hs : rs ∈ s.rows runs) :
    (rs.map (Run.configuration s.axis)).Nodup :=
  (nodup_configuration_latest s runs).sublist ((row_sublist hs).map _)

theorem place_of_split (hs : s.splitByMode = true) (hm : m ∈ modesOf (s.latest runs)) :
    s.place runs i m = some ⟨(modesOf (s.latest runs)).idxOf m, i⟩ := by
  rw [place, if_neg (not_not.mpr hm), if_pos hs]

theorem place_of_joint (hs : s.splitByMode = false) :
    s.place runs i m = (labelAmong (s.latest runs) i m).map (Place.mk 0) := by
  unfold place labelAmong
  simp only [hs, Bool.false_eq_true, ↓reduceIte]
  split
  · rfl
  · split <;> rfl

theorem mem_modesOf_of_place {spot : Place} (h : s.place runs i m = some spot) :
    m ∈ modesOf (s.latest runs) := by
  by_contra hm
  simp [place, hm] at h

/-- The line of a run stands where its series has its place. -/
theorem place_of_mem_row {rs : List Run} {r : Run} (hs : (s.rows runs)[row]? = some rs)
    (hr : r ∈ rs) :
    s.place runs r.implementation r.mode = some ⟨row, ((Grouping.infer rs).key r).label⟩ := by
  have hm := mem_modesOf_latest ((row_sublist (List.mem_of_getElem? hs)).subset hr)
  cases hsplit : s.splitByMode with
  | true =>
    rw [rows_of_split hsplit, List.getElem?_map, Option.map_eq_some_iff] at hs
    obtain ⟨m, hrow, rfl⟩ := hs
    obtain rfl : r.mode = m := by simpa using (List.mem_filter.mp hr).2
    obtain ⟨hlt, he⟩ := List.getElem?_eq_some_iff.mp hrow
    have hi := (nodup_modesOf (s.latest runs)).idxOf_getElem row hlt
    rw [he] at hi
    rw [place_of_split hsplit hm, hi, Grouping.infer_filter_mode]
    rfl
  | false =>
    rw [rows_of_joint hsplit, List.getElem?_singleton] at hs
    obtain ⟨hrow, hs⟩ := Option.ite_none_right_eq_some.mp hs
    obtain rfl := Option.some.inj hs
    obtain rfl := hrow
    rw [place_of_joint hsplit, labelAmong_of_mem hr]
    rfl

theorem place_injective {spot : Place} (hi : s.place runs i m = some spot)
    (hj : s.place runs j n = some spot) : i = j ∧ m = n := by
  cases hs : s.splitByMode with
  | true =>
    have hm := mem_modesOf_of_place hi
    have he := hi.trans hj.symm
    rw [place_of_split hs hm, place_of_split hs (mem_modesOf_of_place hj)] at he
    simp only [Option.some.injEq, Place.mk.injEq] at he
    exact ⟨he.2, (List.idxOf_inj hm).mp he.1⟩
  | false =>
    rw [place_of_joint hs, Option.map_eq_some_iff] at hi hj
    obtain ⟨l, hi, rfl⟩ := hi
    obtain ⟨l', hj, he⟩ := hj
    obtain ⟨_, rfl⟩ := Place.mk.inj he
    exact labelAmong_injective hi hj

theorem exists_row_of_mem_linesAt (h : s.chart runs styles = .ok c)
    (hq : (s.metrics runs)[column]? = some q) {l : Line} (hl : l ∈ c.linesAt row column) :
    ∃ rs, (s.rows runs)[row]? = some rs ∧ l ∈ s.lines styles rs q := by
  rw [linesAt_of_chart h hq] at hl
  cases hr : (s.rows runs)[row]? with
  | none =>
    rw [hr] at hl
    cases hl
  | some rs =>
    rw [hr] at hl
    exact ⟨rs, rfl, hl⟩

/-- Nothing is invented. -/
theorem exists_run_of_point (h : s.chart runs styles = .ok c)
    (hq : (s.metrics runs)[column]? = some q) {l : Line} {p : Point}
    (hl : l ∈ c.linesAt row column) (hp : p ∈ l.points) :
    ∃ r ∈ s.latest runs, s.place runs r.implementation r.mode = some ⟨row, l.label⟩ ∧
      s.axis.value r = p.x ∧ q.value r = some p.y := by
  obtain ⟨rs, hs, hl⟩ := exists_row_of_mem_linesAt h hq hl
  obtain ⟨r, hr, hk, hx, hy⟩ := exists_run_of_mem_points hl hp
  refine ⟨r, (row_sublist (List.mem_of_getElem? hs)).subset hr, ?_, hx, hy⟩
  rw [place_of_mem_row hs hr, hk]

/-- Nothing is lost. -/
theorem exists_point_of_run (h : s.chart runs styles = .ok c)
    (hq : (s.metrics runs)[column]? = some q) {r : Run} {y : Float}
    (hr : r ∈ s.latest runs) (hy : q.value r = some y) :
    ∃ spot, s.place runs r.implementation r.mode = some spot ∧
      ∃ l ∈ c.linesAt spot.row column, l.label = spot.label ∧
        ⟨s.axis.value r, y⟩ ∈ l.points := by
  obtain ⟨row, rs, hs, hr⟩ := exists_row_of_mem_latest hr
  refine ⟨_, place_of_mem_row hs hr, ?_⟩
  rw [linesAt_of_chart h hq, hs]
  exact exists_line_of_run hr hy

theorem fits_of_mem_latest (hf : ∀ r ∈ runs, r.Fits) {r : Run} (hr : r ∈ s.latest runs) :
    r.Fits :=
  hf r (of_mem_latestBy_filter _ hr).1

def HasPoint (s : Sweep) (runs : List Run) (c : Chart) (column : ℕ) (implementation : String)
    (mode : AllocMode) (p : Point) : Prop :=
  ∃ spot, s.place runs implementation mode = some spot ∧
    ∃ l ∈ c.linesAt spot.row column, l.label = spot.label ∧ p ∈ l.points

theorem hasPoint_iff (hf : ∀ r ∈ runs, r.Fits) (h : s.chart runs styles = .ok c)
    (hq : (s.metrics runs)[column]? = some q) {x : ℕ} {y : Float} :
    s.HasPoint runs c column i m ⟨Float.ofNat x, y⟩ ↔
      ∃ r ∈ s.latest runs, r.implementation = i ∧ r.mode = m ∧ s.axis.raw r = x ∧
        q.value r = some y := by
  constructor
  · rintro ⟨spot, hspot, l, hl, he, hp⟩
    obtain ⟨r, hr, hplace, hx, hy⟩ := exists_run_of_point h hq hl hp
    rw [he] at hplace
    obtain ⟨hi, hm⟩ := place_injective hplace hspot
    exact ⟨r, hr, hi, hm, XAxis.value_injective (fits_of_mem_latest hf hr) hx, hy⟩
  · rintro ⟨r, hr, rfl, rfl, rfl, hy⟩
    exact exists_point_of_run h hq hr hy

/-- The last run of each configuration decides its point. Every point stands for one, in the
place of its series, and no point is drawn twice. -/
theorem points_iff_lastAt (hf : ∀ r ∈ runs, r.Fits) (h : s.chart runs styles = .ok c)
    (hq : (s.metrics runs)[column]? = some q) :
    (∀ i m x y,
      (∃ spot, s.place runs i m = some spot ∧ ∃ l ∈ c.linesAt spot.row column,
        l.label = spot.label ∧ ⟨Float.ofNat x, y⟩ ∈ l.points) ↔
      (s.lastAt runs i m x).bind q.value = some y) ∧
    (∀ row, (Line.marks (c.linesAt row column)).Nodup) ∧
    (∀ row, ∀ l ∈ c.linesAt row column, ∃ i m,
      s.place runs i m = some ⟨row, l.label⟩ ∧ ∀ p ∈ l.points, ∃ x, p.x = Float.ofNat x) ∧
    c.columns = (s.metrics runs).length ∧
    ∀ row p, c.panels[row * c.columns + column]? = some p →
      p.yLabel = q.label ∧ p.body = .lines (c.linesAt row column) := by
  refine ⟨?_, ?_, ?_, (panels_of_chart h).1, fun _ _ hp => panel_eq_of_chart h hq hp⟩
  · intro i m x y
    rw [Option.bind_eq_some_iff]
    constructor
    · rintro ⟨spot, hspot, l, hl, he, hp⟩
      obtain ⟨r, hr, hplace, hx, hy⟩ := exists_run_of_point h hq hl hp
      rw [he] at hplace
      obtain ⟨rfl, rfl⟩ := place_injective hspot hplace
      obtain rfl := XAxis.value_injective (fits_of_mem_latest hf hr) hx
      exact ⟨r, mem_latest.mp hr, hy⟩
    · rintro ⟨r, hr, hy⟩
      obtain ⟨hl, rfl, rfl, rfl⟩ := lastAt_some hr
      exact exists_point_of_run h hq hl hy
  · intro row
    rw [linesAt_of_chart h hq]
    cases hs : (s.rows runs)[row]? with
    | none => exact List.nodup_nil
    | some rs =>
      have hm := List.mem_of_getElem? hs
      refine nodup_marks ?_ (nodup_key_raw (nodup_configuration_row hm))
      exact fun r hr => fits_of_mem_latest hf ((row_sublist hm).subset hr)
  · intro row l hl
    obtain ⟨rs, hs, hls⟩ := exists_row_of_mem_linesAt h hq hl
    obtain ⟨p, hp⟩ := List.exists_mem_of_ne_nil _ (points_ne_nil hls)
    obtain ⟨r, _, hplace, _⟩ := exists_run_of_point h hq hl hp
    refine ⟨_, _, hplace, ?_⟩
    intro p hp
    obtain ⟨r, _, _, hx, _⟩ := exists_run_of_point h hq hl hp
    exact ⟨_, hx.symm⟩

/-- Runs with one total of threads, of which the last has no tail latency. -/
def collidingRuns : List Run :=
  let latency : Latency := { Latency.none with p99 := some 5 }
  [{ Run.ofThroughput "spsc" .heap 1 3 0 10 with latency },
   { Run.ofThroughput "spsc" .pooled 2 2 0 20 with latency },
   Run.ofThroughput "spsc" .heap 2 2 0 30,
   { Run.ofThroughput "spsc" .heap 1 1 0 40 with latency }]

def totalSweep : Sweep := .scaling (some 0) ⟨.total, false, [.throughput, .latency .p99]⟩

/-- The run without tail latency leaves no point behind, although an earlier run had one. -/
theorem points_iff_lastAt_colliding :
    ∃ c, totalSweep.chart collidingRuns .default = .ok c ∧
      (∃ l ∈ c.linesAt 0 1, l.label = "spsc (pooled)" ∧ ⟨Float.ofNat 4, 5⟩ ∈ l.points) ∧
      ∀ l ∈ c.linesAt 0 1, l.label = "spsc (heap)" → ∀ y, ⟨Float.ofNat 4, y⟩ ∉ l.points := by
  have hf : ∀ r ∈ collidingRuns, r.Fits := by decide
  have hq : (totalSweep.metrics collidingRuns)[1]? = some (.latency .p99) := by decide
  obtain ⟨c, hc⟩ : ∃ c, totalSweep.chart collidingRuns .default = .ok c := ⟨_, rfl⟩
  obtain ⟨hpoint, _⟩ := points_iff_lastAt hf hc hq
  refine ⟨c, hc, ?_, ?_⟩
  · obtain ⟨spot, hs, hl⟩ := (hpoint "spsc" .pooled 4 5).mpr (by decide)
    obtain rfl := Option.some.inj hs
    exact hl
  · intro l hl he y hp
    have hv := (hpoint "spsc" .heap 4 y).mp ⟨⟨0, "spsc (heap)"⟩, rfl, l, hl, he, hp⟩
    cases hv

end Sweep

end QueueBench
