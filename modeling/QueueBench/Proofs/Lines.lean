import QueueBench.Proofs.Number.Whole
import QueueBench.Proofs.Row
import QueueBench.Proofs.Series

/-! # Lines as sets of points

Which points a panel of lines has, and under which label each stands. A label gives back the
implementation and the mode of its series, so no two lines of a panel share one. -/
namespace QueueBench

namespace SeriesKey

/-- The last characters of a label tell the modes apart. -/
theorem label_injective {i j : String} {m n : AllocMode}
    (h : (⟨i, some m⟩ : SeriesKey).label = (⟨j, some n⟩ : SeriesKey).label) : i = j ∧ m = n := by
  have hr := congrArg (fun s => s.toList.reverse) h
  cases m <;> cases n
  · simpa [label, AllocMode.name, toString, String.toList_inj] using hr
  · simp [label, AllocMode.name, toString] at hr
  · simp [label, AllocMode.name, toString] at hr
  · simpa [label, AllocMode.name, toString, String.toList_inj] using hr

end SeriesKey

theorem Grouping.label_key_injective (g : Grouping) {r s : Run}
    (h : (g.key r).label = (g.key s).label) : g.key r = g.key s := by
  cases g with
  | byImplementation => exact congrArg (SeriesKey.mk · none) h
  | byImplementationAndMode =>
    obtain ⟨hi, hm⟩ := SeriesKey.label_injective h
    simp only [key, hi, hm]

/-- The label of a series among runs. It names the mode only where the runs mix modes. -/
def labelAmong (runs : List Run) (implementation : String) (mode : AllocMode) : Option String :=
  if mode ∉ modesOf runs then none
  else if modesOf runs = [mode] then some implementation
  else some s!"{implementation} ({mode.name})"

theorem labelAmong_of_mem {runs : List Run} {r : Run} (hr : r ∈ runs) :
    labelAmong runs r.implementation r.mode = some ((Grouping.infer runs).key r).label := by
  have hm : r.mode ∈ modesOf runs := mem_modesOf.mpr ⟨r, hr, rfl⟩
  have hg := infer_eq_byImplementation_iff_modesOf hr
  rw [labelAmong, if_neg (not_not.mpr hm)]
  cases hi : Grouping.infer runs with
  | byImplementation =>
    rw [if_pos (hg.mp hi)]
    rfl
  | byImplementationAndMode =>
    rw [if_neg fun h => by simp [hg.mpr h] at hi]
    rfl

theorem labelAmong_injective {runs : List Run} {i j l : String} {m n : AllocMode}
    (hi : labelAmong runs i m = some l) (hj : labelAmong runs j n = some l) :
    i = j ∧ m = n := by
  unfold labelAmong at hi hj
  split at hi
  · cases hi
  split at hj
  · cases hj
  rename_i hm hn
  rw [not_not] at hm hn
  by_cases hu : ∃ only, modesOf runs = [only]
  · obtain ⟨only, hu⟩ := hu
    rw [hu, List.mem_singleton] at hm hn
    subst hm
    rw [if_pos hu] at hi
    rw [if_pos (hn ▸ hu)] at hj
    exact ⟨Option.some.inj (hi.trans hj.symm), hn.symm⟩
  · rw [if_neg fun h => hu ⟨m, h⟩] at hi
    rw [if_neg fun h => hu ⟨n, h⟩] at hj
    exact SeriesKey.label_injective (Option.some.inj (hi.trans hj.symm))

theorem XAxis.value_injective {x : XAxis} {r : Run} (hr : r.Fits) {n : ℕ}
    (h : x.value r = Float.ofNat n) : x.raw r = n := by
  apply Number.ofNat_injective _ h
  obtain ⟨hp, hc, hq⟩ := hr
  rcases x with (_ | _ | _) | _ <;> simp only [raw, ThreadAxis.value, Run.threads] <;> omega

section

variable {runs : List Run} {g : Grouping} {x : XAxis} {styles : StyleTable} {q : Metric}

theorem Series.mem_points {s : Series} {p : Point} :
    p ∈ s.points x q ↔ ∃ r ∈ s.runs, x.value r = p.x ∧ q.value r = some p.y := by
  rw [Series.points, List.mem_filterMap]
  refine exists_congr fun r => and_congr_right fun _ => ?_
  rw [Option.map_eq_some_iff]
  constructor
  · rintro ⟨y, hy, rfl⟩
    exact ⟨rfl, hy⟩
  · rintro ⟨hx, hy⟩
    exact ⟨p.y, hy, by rw [hx]⟩

theorem mem_metricLines {series : List Series} {l : Line} :
    l ∈ metricLines series x q ↔
      ∃ s ∈ series, l = ⟨s.label, s.style, s.points x q⟩ ∧ l.points ≠ [] := by
  rw [metricLines, List.mem_filter, List.mem_map, decide_eq_true_eq]
  constructor
  · rintro ⟨⟨s, hs, rfl⟩, hp⟩
    exact ⟨s, hs, rfl, hp⟩
  · rintro ⟨s, hs, rfl, hp⟩
    exact ⟨⟨s, hs, rfl⟩, hp⟩

/-- Each point stands for a run of the series whose label it stands under. -/
theorem exists_run_of_mem_points {l : Line} {p : Point}
    (hl : l ∈ metricLines (group runs g x styles) x q) (hp : p ∈ l.points) :
    ∃ r ∈ runs, (g.key r).label = l.label ∧ x.value r = p.x ∧ q.value r = some p.y := by
  obtain ⟨s, hs, rfl, _⟩ := mem_metricLines.mp hl
  obtain ⟨k, _, rfl⟩ := List.mem_map.mp hs
  obtain ⟨r, hr, hx, hy⟩ := Series.mem_points.mp hp
  obtain ⟨hm, hk⟩ := Series.mem_ofKey.mp hr
  exact ⟨r, hm, congrArg SeriesKey.label hk, hx, hy⟩

/-- Each run with a value has its point, in the line of its series. -/
theorem exists_line_of_run {r : Run} {y : Float} (hr : r ∈ runs) (hy : q.value r = some y) :
    ∃ l ∈ metricLines (group runs g x styles) x q,
      l.label = (g.key r).label ∧ ⟨x.value r, y⟩ ∈ l.points := by
  have hk : Series.ofKey runs g x styles (g.key r) ∈ group runs g x styles :=
    List.mem_map_of_mem (Grouping.mem_keys.mpr ⟨r, hr, rfl⟩)
  have hp : (⟨x.value r, y⟩ : Point) ∈ (Series.ofKey runs g x styles (g.key r)).points x q :=
    Series.mem_points.mpr ⟨r, Series.mem_ofKey.mpr ⟨hr, rfl⟩, rfl, hy⟩
  exact ⟨_, mem_metricLines.mpr ⟨_, hk, rfl, List.ne_nil_of_mem hp⟩, rfl, hp⟩

theorem points_ne_nil {series : List Series} {l : Line} (hl : l ∈ metricLines series x q) :
    l.points ≠ [] := by
  obtain ⟨_, _, rfl, hp⟩ := mem_metricLines.mp hl
  exact hp

def Line.marks (ls : List Line) : List (String × Float) :=
  ls.flatMap fun l => l.points.map fun p => (l.label, p.x)

theorem nodup_group_labels (runs : List Run) (g : Grouping) (x : XAxis) (styles : StyleTable) :
    ((group runs g x styles).map Series.label).Nodup := by
  have hk : ((g.keys runs).map SeriesKey.label).Nodup := by
    refine List.Nodup.map_on ?_ (Grouping.nodup_keys g runs)
    intro a ha b hb he
    obtain ⟨r, _, rfl⟩ := Grouping.mem_keys.mp ha
    obtain ⟨s, _, rfl⟩ := Grouping.mem_keys.mp hb
    exact g.label_key_injective he
  rwa [group, List.map_map]

theorem nodup_labels (runs : List Run) (g : Grouping) (x : XAxis) (styles : StyleTable)
    (q : Metric) : ((metricLines (group runs g x styles) x q).map Line.label).Nodup := by
  refine List.Nodup.sublist ?_ (nodup_group_labels runs g x styles)
  have hs : (metricLines (group runs g x styles) x q).Sublist
      ((group runs g x styles).map fun s => ⟨s.label, s.style, s.points x q⟩) :=
    List.filter_sublist
  simpa [List.map_map, Function.comp_def] using hs.map Line.label

/-- The x values of a line are those of the runs with a value, in their order. -/
theorem map_x_points (s : Series) (x : XAxis) (q : Metric) :
    (s.points x q).map Point.x = (s.runs.filter fun r => (q.value r).isSome).map x.value := by
  unfold Series.points
  induction s.runs with
  | nil => rfl
  | cons r rest ih =>
    cases hv : q.value r with
    | none => simpa [hv] using ih
    | some y => simpa [hv] using ih

theorem nodup_points {s : Series} (hs : (s.runs.map x.value).Nodup) :
    ((s.points x q).map Point.x).Nodup := by
  rw [map_x_points]
  exact hs.sublist (List.filter_sublist.map _)

/-- Where no two runs share a series and an x value, no point is drawn twice. -/
theorem nodup_marks (hf : ∀ r ∈ runs, r.Fits)
    (hd : (runs.map fun r => (g.key r, x.raw r)).Nodup) :
    (Line.marks (metricLines (group runs g x styles) x q)).Nodup := by
  rw [Line.marks, List.nodup_flatMap]
  constructor
  · intro l hl
    obtain ⟨s, hs, rfl, _⟩ := mem_metricLines.mp hl
    obtain ⟨k, _, rfl⟩ := List.mem_map.mp hs
    have hk : ((Series.ofKey runs g x styles k).runs.map x.value).Nodup := by
      apply nodup_of_nodup_map (Series.nodup_raw_ofKey hd)
      intro a ha b _ he
      exact XAxis.value_injective (hf a (Series.mem_ofKey.mp ha).1) he
    have hp := (nodup_points (q := q) hk).map (f := fun v => (k.label, v))
      fun a b e => (Prod.mk.inj e).2
    rwa [List.map_map] at hp
  · refine (List.pairwise_map.mp (nodup_labels runs g x styles q)).imp ?_
    intro a b hne c ha hb
    obtain ⟨_, _, rfl⟩ := List.mem_map.mp ha
    obtain ⟨_, _, he⟩ := List.mem_map.mp hb
    exact hne (Prod.mk.inj he).1.symm

end

end QueueBench
