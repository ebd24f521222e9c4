import Mathlib.Algebra.Order.Field.Rat
import Mathlib.Algebra.Order.Group.MinMax
import Mathlib.Algebra.Order.Ring.Abs
import Mathlib.Order.CompletePartialOrder
import Mathlib.Order.Interval.Set.UnorderedInterval
import Mathlib.Tactic.Linarith
import Mathlib.Tactic.Ring
import QueueBench.Proofs.Drawing.Content

/-! # Where bars stand

The x intervals that the bars of a panel cover, in exact arithmetic. The space between two bars
is fixed and their width shrinks with the number of groups, so that a bar has its left edge on the
left only below forty groups, and neighbours keep apart only below eighty. -/
namespace QueueBench

/-- Left and right edge of the bar of a group in a category, in exact arithmetic. -/
def exactEdges (groups : ℕ) (bar : ℕ × ℕ) : ℚ × ℚ :=
  barEdges (fun n : ℕ => (n : ℚ)) (4 / 5) (1 / 100) groups bar.1 bar.2

/-- The x values between the edges, whichever of them is the left one. -/
def barSpan (groups : ℕ) (bar : ℕ × ℕ) : Set ℚ :=
  Set.uIcc (exactEdges groups bar).1 (exactEdges groups bar).2

section Edges

def barCenter (groups : ℕ) (bar : ℕ × ℕ) : ℚ :=
  bar.2 + (bar.1 - (groups - 1) / 2) * (4 / 5 / groups)

/-- Half of the width of a bar, negative where the inset takes more than there is. -/
def barHalf (groups : ℕ) : ℚ := 4 / 5 / groups / 2 - 1 / 100

variable {n : ℕ} {bar bar' : ℕ × ℕ}

theorem exactEdges_eq (n : ℕ) (bar : ℕ × ℕ) :
    exactEdges n bar = (barCenter n bar - barHalf n, barCenter n bar + barHalf n) := by
  simp only [exactEdges, barEdges, barCenter, barHalf, Nat.cast_one, Nat.cast_ofNat]
  ext <;> ring

theorem width_pos (hn : 0 < n) : (0 : ℚ) < 4 / 5 / n := by
  have : (0 : ℚ) < n := Nat.cast_pos.mpr hn
  exact div_pos (by norm_num) this

theorem width_mul (hn : 0 < n) : (4 / 5 / n : ℚ) * n = 4 / 5 :=
  div_mul_cancel₀ _ (Nat.cast_ne_zero.mpr hn.ne')

/-- A multiple of the width against the two insets. -/
theorem inset_lt_iff (hn : 0 < n) (d : ℕ) : (1 / 50 : ℚ) < d * (4 / 5 / n) ↔ n < 40 * d := by
  have hpos : (0 : ℚ) < n := Nat.cast_pos.mpr hn
  rw [← mul_div_assoc, lt_div_iff₀ hpos, ← Nat.cast_lt (α := ℚ)]
  push_cast
  constructor <;> intro h <;> linarith

theorem left_lt_right_iff (hn : 0 < n) (bar : ℕ × ℕ) :
    (exactEdges n bar).1 < (exactEdges n bar).2 ↔ n < 40 := by
  have h := inset_lt_iff hn 1
  rw [Nat.cast_one, one_mul, Nat.mul_one] at h
  rw [exactEdges_eq, ← h, barHalf]
  constructor <;> intro h <;> linarith

theorem barSpan_eq (n : ℕ) (bar : ℕ × ℕ) :
    barSpan n bar = Set.Icc (barCenter n bar - |barHalf n|) (barCenter n bar + |barHalf n|) := by
  rw [barSpan, exactEdges_eq]
  rcases le_total 0 (barHalf n) with h | h
  · rw [abs_of_nonneg h, Set.uIcc_of_le (by linarith)]
  · rw [abs_of_nonpos h, Set.uIcc_of_ge (by linarith)]
    congr 1 <;> ring

theorem disjoint_barSpan_iff : Disjoint (barSpan n bar) (barSpan n bar') ↔
    2 * |barHalf n| < |barCenter n bar - barCenter n bar'| := by
  rw [barSpan_eq, barSpan_eq, Set.disjoint_iff_inter_eq_empty, Set.Icc_inter_Icc,
    Set.Icc_eq_empty_iff, not_le, ← max_sub_min_eq_abs', min_add_add_right, max_sub_sub_right]
  constructor <;> intro h <;> linarith

theorem two_mul_abs_barHalf (n : ℕ) : 2 * |barHalf n| = |(4 / 5 / n : ℚ) - 1 / 50| := by
  have h : (4 / 5 / n : ℚ) - 1 / 50 = 2 * barHalf n := by
    rw [barHalf]
    ring
  rw [h, abs_mul, abs_two]

def groupDistance (bar bar' : ℕ × ℕ) : ℕ := max bar.1 bar'.1 - min bar.1 bar'.1

theorem cast_groupDistance (bar bar' : ℕ × ℕ) :
    (groupDistance bar bar' : ℚ) = |(bar.1 : ℚ) - bar'.1| := by
  rw [groupDistance, Nat.cast_sub min_le_max, Nat.cast_max, Nat.cast_min, max_sub_min_eq_abs']

/-- In one category neighbouring bars are a width apart, and the insets count against both. -/
theorem disjoint_of_category_iff (hn : 0 < n) (hc : bar.2 = bar'.2) (hne : bar ≠ bar') :
    Disjoint (barSpan n bar) (barSpan n bar') ↔ n < 40 * (groupDistance bar bar' + 1) := by
  have hw := width_pos hn
  have hdist : |barCenter n bar - barCenter n bar'| =
      groupDistance bar bar' * (4 / 5 / n : ℚ) := by
    have h : barCenter n bar - barCenter n bar' = ((bar.1 : ℚ) - bar'.1) * (4 / 5 / n) := by
      rw [barCenter, barCenter, hc]
      ring
    rw [h, abs_mul, abs_of_pos hw, cast_groupDistance]
  have hone : (1 : ℚ) ≤ groupDistance bar bar' := by
    have hgroup : bar.1 ≠ bar'.1 := fun h => hne (Prod.ext h hc)
    rw [Nat.one_le_cast, groupDistance]
    omega
  have hle : (4 / 5 / n : ℚ) ≤ groupDistance bar bar' * (4 / 5 / n) :=
    le_mul_of_one_le_left hw.le hone
  rw [disjoint_barSpan_iff, two_mul_abs_barHalf, hdist, abs_lt, ← inset_lt_iff hn, Nat.cast_add,
    Nat.cast_one, add_mul, one_mul]
  constructor
  · rintro ⟨h, -⟩
    linarith
  · intro h
    constructor <;> linarith

theorem abs_center_le (hn : 0 < n) (hb : bar.1 < n) :
    |barCenter n bar - bar.2| ≤ (1 / 2 : ℚ) * (4 / 5 - 4 / 5 / n) := by
  have hw := width_pos hn
  have hmul := width_mul hn
  have hk : (bar.1 : ℚ) + 1 ≤ n := by exact_mod_cast hb
  have hz : (0 : ℚ) ≤ bar.1 := Nat.cast_nonneg _
  rw [barCenter, add_sub_cancel_left, abs_le]
  constructor <;> nlinarith

theorem barSpan_subset (hn : 0 < n) (hb : bar.1 < n) :
    barSpan n bar ⊆ Set.Ioo ((bar.2 : ℚ) - 1 / 2) (bar.2 + 1 / 2) := by
  have hw := width_pos hn
  have hcenter := abs_le.mp (abs_center_le hn hb)
  have hhalf : 2 * |barHalf n| ≤ 4 / 5 / n + 1 / 50 := by
    rw [two_mul_abs_barHalf, abs_le]
    constructor <;> linarith
  rw [barSpan_eq]
  rintro x ⟨hl, hu⟩
  constructor <;> linarith

/-- Each category keeps to its own unit, so bars of two categories never meet. -/
theorem disjoint_of_ne_category (hn : 0 < n) (hb : bar.1 < n) (hb' : bar'.1 < n)
    (hc : bar.2 ≠ bar'.2) : Disjoint (barSpan n bar) (barSpan n bar') := by
  rw [Set.disjoint_left]
  intro x hx hx'
  obtain ⟨hl, hu⟩ := barSpan_subset hn hb hx
  obtain ⟨hl', hu'⟩ := barSpan_subset hn hb' hx'
  have h : (bar.2 : ℚ) < (bar'.2 + 1 : ℕ) := by
    push_cast
    linarith
  have h' : (bar'.2 : ℚ) < (bar.2 + 1 : ℕ) := by
    push_cast
    linarith
  rw [Nat.cast_lt] at h h'
  omega

theorem disjoint_iff (hn : 0 < n) (hb : bar.1 < n) (hb' : bar'.1 < n) (hne : bar ≠ bar') :
    Disjoint (barSpan n bar) (barSpan n bar') ↔
      bar.2 ≠ bar'.2 ∨ n < 40 * (groupDistance bar bar' + 1) := by
  by_cases hc : bar.2 = bar'.2
  · rw [disjoint_of_category_iff hn hc hne]
    simp [hc]
  · exact iff_of_true (disjoint_of_ne_category hn hb hb' hc) (Or.inl hc)

end Edges

section Panel

/-- The bars that are drawn, each as the numbers of its group and of its category. -/
def drawnBars (s : Scale) (gs : List BarGroup) : List (ℕ × ℕ) :=
  gs.zipIdx.flatMap fun (g, index) => (g.slots s).map fun (slot, _) => (index, slot)

def Element.edges? (e : Element) : Option (Float × Float) :=
  e.corners?.map fun (corner, opposite) => (corner.x, opposite.x)

def rectangleEdges (calls : List Call) : List (Float × Float) :=
  (calls.filterMap Call.series?).flatten.filterMap Element.edges?

variable {s : Scale} {gs : List BarGroup} {bar : ℕ × ℕ}

theorem mem_drawnBars : bar ∈ drawnBars s gs ↔
    ∃ g y, gs[bar.1]? = some g ∧ g.values[bar.2]? = some (some y) ∧ s.shows y := by
  unfold drawnBars
  constructor
  · intro h
    obtain ⟨⟨g, index⟩, hg, hbar⟩ := List.mem_flatMap.mp h
    obtain ⟨⟨slot, y⟩, hy, rfl⟩ := List.mem_map.mp hbar
    exact ⟨g, y, List.mem_zipIdx_iff_getElem?.mp hg, BarGroup.mem_slots.mp hy⟩
  · rintro ⟨g, y, hg, hy⟩
    exact List.mem_flatMap.mpr ⟨(g, bar.1), List.mem_zipIdx_iff_getElem?.mpr hg,
      List.mem_map.mpr ⟨(bar.2, y), BarGroup.mem_slots.mpr hy, rfl⟩⟩

theorem group_lt_of_mem (h : bar ∈ drawnBars s gs) : bar.1 < gs.length := by
  obtain ⟨g, _, hg, _⟩ := mem_drawnBars.mp h
  exact (List.getElem?_eq_some_iff.mp hg).1

/-- Group by group, and within a group by category. -/
theorem pairwise_drawnBars (s : Scale) (gs : List BarGroup) :
    (drawnBars s gs).Pairwise fun bar bar' => bar.1 < bar'.1 ∨ bar.1 = bar'.1 ∧ bar.2 < bar'.2 := by
  refine List.pairwise_flatMap.mpr ⟨?_, (pairwise_zipIdx gs).imp ?_⟩
  · rintro ⟨g, index⟩ _
    refine List.pairwise_map.mpr ((g.pairwise_slots s).imp ?_)
    intro a b hlt
    exact Or.inr ⟨rfl, hlt⟩
  · rintro ⟨g, index⟩ ⟨g', index'⟩ hlt bar hbar bar' hbar'
    obtain ⟨_, _, rfl⟩ := List.mem_map.mp hbar
    obtain ⟨_, _, rfl⟩ := List.mem_map.mp hbar'
    exact Or.inl hlt

theorem rectangleEdges_append (calls calls' : List Call) :
    rectangleEdges (calls ++ calls') = rectangleEdges calls ++ rectangleEdges calls' := by
  simp [rectangleEdges]

theorem rectangleEdges_steps (s : Scale) (base : Float) (groups index : ℕ) (g : BarGroup) :
    rectangleEdges ((g.steps s base groups index).map Step.call) =
      (g.slots s).map fun (slot, _) => barEdges Float.ofNat 0.8 0.01 groups index slot := by
  change ([g.bars s base groups index].flatten).filterMap Element.edges? = _
  rw [List.flatten_singleton, BarGroup.bars_eq, List.filterMap_map]
  exact congrFun List.filterMap_eq_map _

theorem rectangleEdges_groups (s : Scale) (base : Float) (groups : ℕ) (gs : List (BarGroup × ℕ)) :
    rectangleEdges ((gs.flatMap fun (g, index) => g.steps s base groups index).map Step.call) =
      (gs.flatMap fun (g, index) => (g.slots s).map fun (slot, _) => (index, slot)).map
        fun bar => barEdges Float.ofNat 0.8 0.01 groups bar.1 bar.2 := by
  induction gs with
  | nil => rfl
  | cons x gs ih =>
    rw [List.flatMap_cons, List.map_append, rectangleEdges_append, ih, rectangleEdges_steps,
      List.flatMap_cons, List.map_append, List.map_map]
    rfl

theorem rectangleEdges_panel (cell : ℕ) (p : Panel) (categories : List String)
    (gs : List BarGroup) (l : Layout) :
    rectangleEdges ((barPanelSteps cell p categories gs l).map Step.call) =
      (drawnBars p.scale gs).map fun bar =>
        barEdges Float.ofNat 0.8 0.01 (max gs.length 1) bar.1 bar.2 := by
  have hlegend : rectangleEdges ((if gs.isEmpty then [] else [l.legend]).map Step.call) = [] := by
    split <;> rfl
  unfold barPanelSteps
  dsimp only
  rw [List.map_append, List.map_append, rectangleEdges_append, rectangleEdges_append, hlegend,
    List.append_nil, rectangleEdges_groups]
  rfl

end Panel

/-- The rectangles of a bar panel are those of its drawn bars, with the edges that the formulas
give. In exact arithmetic a bar keeps within its category; its left edge is the left one just
below forty groups, and two bars keep apart unless they stand in one category, near each other
for the number of groups. -/
theorem bars_apart_iff (cell : ℕ) (p : Panel) (categories : List String) (gs : List BarGroup)
    (l : Layout) :
    let n := gs.length
    let bars := drawnBars p.scale gs
    rectangleEdges ((barPanelSteps cell p categories gs l).map Step.call) =
        bars.map (fun bar => barEdges Float.ofNat 0.8 0.01 n bar.1 bar.2) ∧
      (∀ bar ∈ bars, ((exactEdges n bar).1 < (exactEdges n bar).2 ↔ n < 40) ∧
        barSpan n bar ⊆ Set.Ioo ((bar.2 : ℚ) - 1 / 2) (bar.2 + 1 / 2)) ∧
      bars.Pairwise fun bar bar' => Disjoint (barSpan n bar) (barSpan n bar') ↔
        bar.2 ≠ bar'.2 ∨ n < 40 * (groupDistance bar bar' + 1) := by
  intro n bars
  have hpos {bar : ℕ × ℕ} (hb : bar ∈ bars) : 0 < n := Nat.zero_lt_of_lt (group_lt_of_mem hb)
  refine ⟨?_, ?_, ?_⟩
  · rw [rectangleEdges_panel]
    refine List.map_congr_left fun bar hb => ?_
    rw [Nat.max_eq_left (hpos hb)]
  · intro bar hb
    exact ⟨left_lt_right_iff (hpos hb) bar, barSpan_subset (hpos hb) (group_lt_of_mem hb)⟩
  · refine (pairwise_drawnBars p.scale gs).imp_of_mem ?_
    intro bar bar' hb hb' hlt
    refine disjoint_iff (hpos hb) (group_lt_of_mem hb) (group_lt_of_mem hb') ?_
    rintro rfl
    omega

/-- Among 41 groups the first bar is inside out, in exact arithmetic and as it is drawn. -/
theorem bar_inside_out :
    let gs : List BarGroup := List.replicate 41 ⟨"HP", ⟨⟨1, 2, 3⟩, .solid, .circle, 2⟩, [some 5]⟩
    let drawn := barEdges Float.ofNat 0.8 0.01 gs.length 0 0
    (0, 0) ∈ drawnBars .linear gs ∧
      (exactEdges gs.length (0, 0)).2 < (exactEdges gs.length (0, 0)).1 ∧ drawn.2 < drawn.1 := by
  refine ⟨?_, by decide +kernel, by decide +kernel⟩
  rw [mem_drawnBars]
  exact ⟨_, 5, rfl, rfl, trivial⟩

end QueueBench
