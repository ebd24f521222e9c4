import Mathlib.Data.List.Forall2
import QueueBench.Proofs.Drawing.Cells

/-! # What a panel shows

The calls of a section are read back into series with their labels. A line panel shows each line
as a path and its markers through the same points, a bar panel one bar for each value. Only
values without a place on the drawn axis are left out, which are those of a logarithmic axis that
are not positive. -/
namespace QueueBench

namespace Scale

def shows : Scale → Float → Prop
  | linear, _ => True
  | log10, y => 0 < y

instance (s : Scale) (y : Float) : Decidable (s.shows y) :=
  match s with
  | linear => isTrue trivial
  | log10 => inferInstanceAs (Decidable (0 < y))

def place : Scale → Float → Float
  | linear, y => y
  | log10, y => y.log10

theorem position?_eq (s : Scale) (y : Float) :
    s.position? y = if s.shows y then some (s.place y) else none := by
  cases s <;> rfl

end Scale

namespace Element

def path? : Element → Option (LineStyle × List Point)
  | polyline points _ => some (.solid, points)
  | dashed points _ _ _ => some (.dashed, points)
  | _ => none

def mark? : Element → Option (Marker × Point)
  | circle center _ _ => some (.circle, center)
  | triangle center _ _ => some (.triangle, center)
  | _ => none

def corners? : Element → Option (Point × Point)
  | rectangle corner opposite _ => some (corner, opposite)
  | _ => none

def color (e : Element) : Rgb :=
  match e with
  | polyline _ p | dashed _ _ _ p | circle _ _ p | triangle _ _ p | rectangle _ _ p =>
    match p with
    | .stroke c _ | .fill c => c

end Element

namespace Call

def series? : Call → Option (List Element)
  | series elements => some elements
  | _ => none

def label? : Call → Option String
  | label text => some text
  | _ => none

def isLegend : Call → Bool
  | legend _ => true
  | _ => false

end Call

def namedSeries : List Call → List (List Element × Option String)
  | [] => []
  | c :: calls =>
    match c.series? with
    | some elements => (elements, calls.head?.bind Call.label?) :: namedSeries calls
    | none => namedSeries calls

def Line.places (s : Scale) (l : Line) : List Point :=
  (l.points.filter fun p => s.shows p.y).map fun p => ⟨p.x, s.place p.y⟩

theorem Line.drawn_eq (s : Scale) (l : Line) : l.drawn s = l.places s := by
  unfold drawn places
  induction l.points with
  | nil => rfl
  | cons p points ih =>
    rw [List.filterMap_cons, List.filter_cons, Scale.position?_eq, ih]
    by_cases h : s.shows p.y <;> simp [h]

/-- A path in the style of the line and its markers, through the same points. -/
structure Line.Shown (s : Scale) (l : Line) (path marks : List Element) : Prop where
  path_eq : path.map Element.path? = [some (l.style.line, l.places s)]
  marks_eq : marks.map Element.mark? = (l.places s).map fun p => some (l.style.marker, p)
  color_eq : ∀ e ∈ path ++ marks, e.color = l.style.color

/-- One bar for each place that holds a value, in order, each standing on `base`. -/
structure BarGroup.Shown (s : Scale) (base : Float) (groups index : ℕ) (g : BarGroup)
    (bars : List Element) : Prop where
  exists_slots : ∃ slots : List (ℕ × Float), slots.Pairwise (fun a b => a.1 < b.1) ∧
    (∀ slot y, (slot, y) ∈ slots ↔ g.values[slot]? = some (some y) ∧ s.shows y) ∧
    bars.map Element.corners? = slots.map fun (slot, y) =>
      let edges := barEdges Float.ofNat 0.8 0.01 groups index slot
      some (⟨edges.1, base⟩, ⟨edges.2, s.place y⟩)
  color_eq : ∀ e ∈ bars, e.color = g.style.color

theorem Line.shown (s : Scale) (l : Line) :
    l.Shown s [l.stroke (l.drawn s)] ((l.drawn s).map l.marker) := by
  rw [drawn_eq]
  refine ⟨?_, ?_, ?_⟩
  · unfold stroke
    cases l.style.line <;> rfl
  · rw [List.map_map]
    refine List.map_congr_left fun p _ => ?_
    rw [Function.comp_apply, marker]
    cases l.style.marker <;> rfl
  · intro e he
    rcases List.mem_cons.mp he with rfl | he
    · unfold stroke
      cases l.style.line <;> rfl
    · obtain ⟨p, _, rfl⟩ := List.mem_map.mp he
      unfold marker
      cases l.style.marker <;> rfl

namespace BarGroup

variable {s : Scale} {g : BarGroup}

def slots (s : Scale) (g : BarGroup) : List (ℕ × Float) :=
  g.values.zipIdx.filterMap fun (value, slot) =>
    (value.filter fun y => s.shows y).map fun y => (slot, y)

theorem mem_slots {slot : ℕ} {y : Float} :
    (slot, y) ∈ g.slots s ↔ g.values[slot]? = some (some y) ∧ s.shows y := by
  constructor
  · intro h
    obtain ⟨⟨value, _⟩, hv, hy⟩ := List.mem_filterMap.mp h
    obtain ⟨z, hz, he⟩ := Option.map_eq_some_iff.mp hy
    obtain ⟨rfl, rfl⟩ := Prod.mk.inj he
    obtain ⟨rfl, hs⟩ := Option.filter_eq_some_iff.mp hz
    exact ⟨List.mem_zipIdx_iff_getElem?.mp hv, of_decide_eq_true hs⟩
  · rintro ⟨hv, hs⟩
    refine List.mem_filterMap.mpr ⟨(some y, slot), List.mem_zipIdx_iff_getElem?.mpr hv, ?_⟩
    simp [hs]

theorem pairwise_slots (s : Scale) (g : BarGroup) :
    (g.slots s).Pairwise fun a b => a.1 < b.1 := by
  refine List.pairwise_filterMap.mpr ((pairwise_zipIdx g.values).imp ?_)
  rintro ⟨value, slot⟩ ⟨value', slot'⟩ hlt x hx x' hx'
  obtain ⟨_, _, rfl⟩ := Option.map_eq_some_iff.mp hx
  obtain ⟨_, _, rfl⟩ := Option.map_eq_some_iff.mp hx'
  exact hlt

theorem bars_eq (s : Scale) (base : Float) (groups index : ℕ) (g : BarGroup) :
    g.bars s base groups index = (g.slots s).map fun (slot, y) =>
      let edges := barEdges Float.ofNat 0.8 0.01 groups index slot
      .rectangle ⟨edges.1, base⟩ ⟨edges.2, s.place y⟩ (.fill g.style.color) := by
  rw [bars, slots, List.map_filterMap]
  refine List.filterMap_congr fun x _ => ?_
  rcases x with ⟨_ | y, slot⟩
  · rfl
  · by_cases h : s.shows y
    · simp [Scale.position?_eq, Option.filter_some, h]
    · simp [Scale.position?_eq, Option.filter_some, h]

theorem shown (s : Scale) (base : Float) (groups index : ℕ) (g : BarGroup) :
    g.Shown s base groups index (g.bars s base groups index) := by
  rw [bars_eq]
  refine ⟨⟨g.slots s, pairwise_slots s g, fun _ _ => mem_slots, ?_⟩, ?_⟩
  · rw [List.map_map]
    rfl
  · intro e he
    obtain ⟨_, _, rfl⟩ := List.mem_map.mp he
    rfl

end BarGroup

/-- Each line gives its path, on which its label is put, and then its markers. -/
inductive ShowsLines (s : Scale) : List Line → List (List Element × Option String) → Prop where
  | nil : ShowsLines s [] []
  | cons {l : Line} {path marks : List Element} {ls series} : l.Shown s path marks →
      ShowsLines s ls series →
      ShowsLines s (l :: ls) ((path, some l.label) :: (marks, none) :: series)

def ShowsGroups (s : Scale) (base : Float) (groups : ℕ) (gs : List (BarGroup × ℕ))
    (series : List (List Element × Option String)) : Prop :=
  List.Forall₂ (fun g x => g.1.Shown s base groups g.2 x.1 ∧ x.2 = some g.1.label) gs series

/-- The section shows the panel: its series with their labels, in order, and a legend where there
is a series. Bars stand on the start of the y range. -/
structure Section.Shows (x : Section) (p : Panel) : Prop where
  range_eq : x.frame.y = p.yRange
  series : match p.body with
    | .lines ls => ShowsLines p.scale ls (namedSeries x.calls)
    | .bars _ gs =>
      ShowsGroups p.scale x.frame.y.start (max gs.length 1) gs.zipIdx (namedSeries x.calls)
  labels_eq : x.calls.filterMap Call.label? = p.body.seriesLabels
  legends_eq : x.calls.countP Call.isLegend = if p.body.seriesLabels = [] then 0 else 1

section Series

variable {rest : List Call}

theorem showsLines_namedSeries (s : Scale) (ls : List Line)
    (hl : rest.head?.bind Call.label? = none) (hs : namedSeries rest = []) :
    ShowsLines s ls (namedSeries ((ls.flatMap (Line.steps s)).map Step.call ++ rest)) := by
  induction ls with
  | nil =>
    change ShowsLines s [] (namedSeries rest)
    rw [hs]
    exact .nil
  | cons l ls ih =>
    -- The markers are followed by the next path, so they have no label.
    have hnext : (((ls.flatMap (Line.steps s)).map Step.call ++ rest).head?.bind Call.label?) =
        none := by
      cases ls with
      | nil => exact hl
      | cons l' ls => rfl
    rw [List.flatMap_cons, List.map_append, List.append_assoc]
    generalize (ls.flatMap (Line.steps s)).map Step.call ++ rest = later at ih hnext ⊢
    change ShowsLines s (l :: ls) (([l.stroke (l.drawn s)], some l.label) ::
      ((l.drawn s).map l.marker, later.head?.bind Call.label?) :: namedSeries later)
    rw [hnext]
    exact .cons (l.shown s) ih

theorem showsGroups_namedSeries (s : Scale) (base : Float) (groups : ℕ)
    (gs : List (BarGroup × ℕ)) (hs : namedSeries rest = []) :
    ShowsGroups s base groups gs (namedSeries
      ((gs.flatMap fun (g, index) => g.steps s base groups index).map Step.call ++ rest)) := by
  induction gs with
  | nil =>
    change ShowsGroups s base groups [] (namedSeries rest)
    rw [hs]
    exact .nil
  | cons x gs ih =>
    rw [List.flatMap_cons, List.map_append, List.append_assoc]
    exact .cons ⟨x.1.shown s base groups x.2, rfl⟩ ih

end Series

namespace Panel

theorem labels_flatMap {α : Type} {f : α → List Step} {label : α → String}
    (h : ∀ a, ((f a).map Step.call).filterMap Call.label? = [label a]) (as : List α) :
    ((as.flatMap f).map Step.call).filterMap Call.label? = as.map label := by
  induction as with
  | nil => rfl
  | cons a as ih =>
    rw [List.flatMap_cons, List.map_append, List.filterMap_append, ih, h]
    rfl

theorem labels_seriesSteps (p : Panel) :
    (p.seriesSteps.map Step.call).filterMap Call.label? = p.body.seriesLabels := by
  unfold seriesSteps
  cases p.body with
  | lines ls => exact labels_flatMap (fun _ => rfl) ls
  | bars categories gs =>
    exact (labels_flatMap (fun _ => rfl) gs.zipIdx).trans (map_zipIdx_fst BarGroup.label gs)

theorem legends_seriesSteps (p : Panel) :
    (p.seriesSteps.map Step.call).countP Call.isLegend = 0 := by
  rw [List.countP_eq_zero]
  intro x hx
  obtain ⟨s, hs, rfl⟩ := List.mem_map.mp hx
  rcases call_of_mem_seriesSteps hs with ⟨_, h⟩ | ⟨_, h⟩ | ⟨_, h⟩ <;> rw [h] <;> exact nofun

theorem series_drawnIn (l : Layout) (p : Panel) (cell : ℕ) :
    match p.body with
    | .lines ls => ShowsLines p.scale ls (namedSeries (p.drawnIn l cell).calls)
    | .bars _ gs => ShowsGroups p.scale p.yRange.start (max gs.length 1) gs.zipIdx
        (namedSeries (p.drawnIn l cell).calls) := by
  obtain ⟨m, hcalls⟩ := exists_calls_drawnIn l p cell
  -- The legend is neither a series nor the label of the last one.
  have hlegend : namedSeries ((p.legend l).map Step.call) = [] ∧
      ((p.legend l).map Step.call).head?.bind Call.label? = none := by
    rcases p.legend_cases l with ⟨_, hx⟩ | ⟨_, x, hx⟩ <;> rw [hx] <;> exact ⟨rfl, rfl⟩
  have hmesh : namedSeries (p.drawnIn l cell).calls =
      namedSeries (p.seriesSteps.map Step.call ++ (p.legend l).map Step.call) := by
    rw [hcalls]
    rfl
  rw [hmesh]
  unfold seriesSteps
  cases p.body with
  | lines ls => exact showsLines_namedSeries p.scale ls hlegend.2 hlegend.1
  | bars categories gs => exact showsGroups_namedSeries p.scale _ _ gs.zipIdx hlegend.1

theorem shows_drawnIn (l : Layout) (p : Panel) (cell : ℕ) : (p.drawnIn l cell).Shows p := by
  obtain ⟨m, hcalls⟩ := exists_calls_drawnIn l p cell
  have hlabels : ((p.legend l).map Step.call).filterMap Call.label? = [] := by
    rcases p.legend_cases l with ⟨_, hx⟩ | ⟨_, x, hx⟩ <;> rw [hx] <;> rfl
  have hlegends : ((p.legend l).map Step.call).countP Call.isLegend =
      if p.body.seriesLabels = [] then 0 else 1 := by
    rcases p.legend_cases l with ⟨h, hx⟩ | ⟨h, x, hx⟩
    · rw [hx, if_pos h]
      rfl
    · rw [hx, if_neg h]
      rfl
  refine ⟨rfl, p.series_drawnIn l cell, ?_, ?_⟩
  · rw [hcalls, List.filterMap_cons_none rfl, List.filterMap_append, labels_seriesSteps, hlabels,
      List.append_nil]
  · rw [hcalls, List.countP_cons_of_neg Bool.false_ne_true, List.countP_append,
      legends_seriesSteps, hlegends, Nat.zero_add]

end Panel

namespace Chart

variable {c : Chart} {l : Layout} {canvas : Canvas} {refused : Option ℕ}

/-- Each panel that has a cell is shown in full, and in its own section. -/
theorem panels_shown (h : c.canvas l = .ok canvas)
    (hd : (Drawing.ofChart c l refused).Unrefused) :
    List.Forall₂ (fun p x => x.Shows p) (c.panels.take (c.gridRows * c.gridColumns))
      (sections (Drawing.ofChart c l refused).calls) := by
  have hshows (ps : List Panel) (n : ℕ) :
      List.Forall₂ (fun p x => Section.Shows x p) ps
        ((ps.zipIdx n).map fun x => x.1.drawnIn l x.2) := by
    induction ps generalizing n with
    | nil => exact .nil
    | cons p ps ih => exact .cons (p.shows_drawnIn l n) (ih (n + 1))
  rw [sections_of_unrefused h hd, placed]
  exact hshows _ 0

def mixed : Chart :=
  let style : Style := ⟨⟨1, 2, 3⟩, .dashed, .triangle, 2⟩
  { family := .scaling, title := "t", columns := 2
    panels :=
      [⟨"lines", "x", "y", .log10, none, .lines [⟨"EBR", style, [⟨1, 10⟩, ⟨2, -1⟩]⟩]⟩,
       ⟨"bars", "x", "y", .linear, none, .bars ["p50", "p99"] [⟨"HP", style, [none, some 5]⟩]⟩] }

theorem panels_shown_mixed :
    mixed.canvas .default = .ok ⟨1000, 450, 1350000⟩ ∧
    ∃ x y path marks bars, sections (Drawing.ofChart mixed .default none).calls = [x, y] ∧
      namedSeries x.calls = [(path, some "EBR"), (marks, none)] ∧
      path.map Element.path? = [some (.dashed, [⟨1, Float.log10 10⟩])] ∧
      marks.map Element.mark? = [some (.triangle, ⟨1, Float.log10 10⟩)] ∧
      x.calls.countP Call.isLegend = 1 ∧
      namedSeries y.calls = [(bars, some "HP")] ∧ y.calls.countP Call.isLegend = 1 := by
  have h : mixed.canvas .default = .ok ⟨1000, 450, 1350000⟩ := rfl
  obtain ⟨x, _, hx, hrest, hsections⟩ :=
    List.forall₂_cons_left_iff.mp (panels_shown h (Drawing.unrefused_none h (by decide)))
  obtain ⟨y, _, hy, hnil, rfl⟩ := List.forall₂_cons_left_iff.mp hrest
  obtain rfl := List.forall₂_nil_left_iff.mp hnil
  have hplaces : Line.places .log10 ⟨"EBR", ⟨⟨1, 2, 3⟩, .dashed, .triangle, 2⟩,
      [⟨1, 10⟩, ⟨2, -1⟩]⟩ = [⟨1, Float.log10 10⟩] := by
    have hten : Scale.log10.shows 10 := by decide
    have hneg : ¬ Scale.log10.shows (-1) := by decide
    simp [Line.places, hten, hneg, Scale.place]
  obtain ⟨series, hx'⟩ : ∃ series, namedSeries x.calls = series := ⟨_, rfl⟩
  have hlines := hx.series
  have hgroups := hy.series
  rw [hx'] at hlines
  cases hlines with
  | @cons _ path marks _ _ hline hrest =>
    cases hrest
    obtain ⟨b, bars, ⟨_, hb⟩, hbars, hnamed⟩ := List.forall₂_cons_left_iff.mp hgroups
    obtain rfl := List.forall₂_nil_left_iff.mp hbars
    refine ⟨h, x, y, path, marks, b.1, hsections, hx', ?_, ?_, hx.legends_eq, ?_, hy.legends_eq⟩
    · rw [hline.path_eq, hplaces]
    · rw [hline.marks_eq, hplaces]
      rfl
    · exact hnamed.trans (congrArg (fun label => [(b.1, label)]) hb)

end Chart

end QueueBench
