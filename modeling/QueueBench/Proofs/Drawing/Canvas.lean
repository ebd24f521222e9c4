import QueueBench.Proofs.Drawing.Refusal

/-! # Size of a canvas

A grid of panels has a canvas of exactly its size, or none where a count, a side or the buffer
exceeds its word. A buffer that fits its word may still be more than one allocation holds, and no
grid with panels is safe from that under all layouts. -/
namespace QueueBench

theorem bounded_eq_some_iff {limit n m : ℕ} : bounded limit n = some m ↔ n ≤ limit ∧ n = m := by
  unfold bounded
  by_cases h : n ≤ limit <;> simp [h]

namespace Layout

def sizes (l : Layout) : List ℕ :=
  [l.panelWidth, l.panelHeight, l.titleArea, l.margin, l.xLabelArea, l.yLabelArea, l.titleFont,
    l.panelTitleFont, l.axisFont, l.labelFont]

def InRange (l : Layout) : Prop := ∀ n ∈ l.sizes, n < 2 ^ 32

instance (l : Layout) : Decidable l.InRange :=
  inferInstanceAs (Decidable (∀ n ∈ l.sizes, n < 2 ^ 32))

def gridWidth (l : Layout) (columns : ℕ) : ℕ := l.panelWidth * columns

def gridHeight (l : Layout) (rows : ℕ) : ℕ := l.panelHeight * rows + l.titleArea

def gridBytes (l : Layout) (rows columns : ℕ) : ℕ := 3 * l.gridWidth columns * l.gridHeight rows

end Layout

namespace Canvas

variable {rows columns : ℕ} {l : Layout} {canvas : Canvas}

/-- The sides and the buffer of the grid, without bounds. -/
def exact (rows columns : ℕ) (l : Layout) : Canvas :=
  ⟨l.gridWidth columns, l.gridHeight rows, l.gridBytes rows columns⟩

/-- A count or a side takes more than 32 bits, or the buffer more than 64. -/
inductive TooLarge (rows columns : ℕ) (l : Layout) : Prop where
  | rows : 2 ^ 32 - 1 < rows → TooLarge rows columns l
  | columns : 2 ^ 32 - 1 < columns → TooLarge rows columns l
  | width : 2 ^ 32 - 1 < l.gridWidth columns → TooLarge rows columns l
  | height : 2 ^ 32 - 1 < l.gridHeight rows → TooLarge rows columns l
  | buffer : 2 ^ 64 - 1 < l.gridBytes rows columns → TooLarge rows columns l

structure Fits (rows columns : ℕ) (l : Layout) : Prop where
  rows_le : rows ≤ 2 ^ 32 - 1
  columns_le : columns ≤ 2 ^ 32 - 1
  width_le : l.gridWidth columns ≤ 2 ^ 32 - 1
  height_le : l.gridHeight rows ≤ 2 ^ 32 - 1
  buffer_le : l.gridBytes rows columns ≤ 2 ^ 64 - 1

theorem fits_iff_not_tooLarge : Fits rows columns l ↔ ¬ TooLarge rows columns l := by
  constructor
  · rintro ⟨hr, hc, hw, hh, hb⟩ (h | h | h | h | h)
    · exact Nat.not_lt_of_le hr h
    · exact Nat.not_lt_of_le hc h
    · exact Nat.not_lt_of_le hw h
    · exact Nat.not_lt_of_le hh h
    · exact Nat.not_lt_of_le hb h
  · intro h
    exact ⟨Nat.le_of_not_lt fun hr => h (.rows hr), Nat.le_of_not_lt fun hc => h (.columns hc),
      Nat.le_of_not_lt fun hw => h (.width hw), Nat.le_of_not_lt fun hh => h (.height hh),
      Nat.le_of_not_lt fun hb => h (.buffer hb)⟩

theorem ofGrid?_eq_some_iff :
    ofGrid? rows columns l = some canvas ↔
      Fits rows columns l ∧ canvas = exact rows columns l := by
  have hbytes : l.gridWidth columns * l.gridHeight rows * 3 = l.gridBytes rows columns := by
    rw [Nat.mul_comm, ← Nat.mul_assoc]
    rfl
  simp only [ofGrid?, Option.bind_eq_bind, Option.bind_eq_some_iff, bounded_eq_some_iff,
    Option.pure_def, Option.some.injEq, Nat.pow_eq]
  constructor
  · rintro ⟨_, ⟨hc, rfl⟩, _, ⟨hr, rfl⟩, _, ⟨hw, rfl⟩, _, ⟨_, rfl⟩, _, ⟨hh, rfl⟩, _, ⟨_, rfl⟩, _,
      ⟨hb, rfl⟩, rfl⟩
    exact ⟨⟨hr, hc, hw, hh, Nat.le_trans (Nat.le_of_eq hbytes.symm) hb⟩,
      congrArg (Canvas.mk _ _) hbytes⟩
  · rintro ⟨⟨hr, hc, hw, hh, hb⟩, rfl⟩
    -- The products in between are bounded by the sum and the product they go into.
    have hpanels : l.panelHeight * rows ≤ l.gridHeight rows := Nat.le_add_right _ _
    have hpixels : l.gridWidth columns * l.gridHeight rows ≤ l.gridBytes rows columns := by
      rw [← hbytes]
      exact Nat.le_mul_of_pos_right _ (by decide)
    exact ⟨_, ⟨hc, rfl⟩, _, ⟨hr, rfl⟩, _, ⟨hw, rfl⟩, _, ⟨Nat.le_trans hpanels hh, rfl⟩, _,
      ⟨hh, rfl⟩, _, ⟨Nat.le_trans hpixels hb, rfl⟩, _, ⟨Nat.le_trans (Nat.le_of_eq hbytes) hb, rfl⟩,
      congrArg (Canvas.mk _ _) hbytes⟩

theorem ofGrid?_eq_none_iff : ofGrid? rows columns l = none ↔ TooLarge rows columns l := by
  constructor
  · intro h
    by_contra hn
    have hs := ofGrid?_eq_some_iff.mpr ⟨fits_iff_not_tooLarge.mpr hn, rfl⟩
    rw [h] at hs
    cases hs
  · intro h
    rw [Option.eq_none_iff_forall_ne_some]
    intro canvas hs
    exact fits_iff_not_tooLarge.mp (ofGrid?_eq_some_iff.mp hs).1 h

/-- A grid has no canvas when it is too large, and else the canvas of its size. -/
theorem size_is_exact (rows columns : ℕ) (l : Layout) :
    (ofGrid? rows columns l = none ↔ TooLarge rows columns l) ∧
      ∀ canvas, ofGrid? rows columns l = some canvas ↔
        ¬ TooLarge rows columns l ∧ canvas = exact rows columns l := by
  refine ⟨ofGrid?_eq_none_iff, fun canvas => ?_⟩
  rw [ofGrid?_eq_some_iff, fits_iff_not_tooLarge]

/-- With a side of at most this length a canvas is allocatable whatever the other side is. -/
def safeSide : ℕ := maxAllocation / (3 * (2 ^ 32 - 1))

theorem allocatable_iff_gridBytes (h : ofGrid? rows columns l = some canvas) :
    canvas.Allocatable ↔ l.gridBytes rows columns < 2 ^ 63 := by
  obtain ⟨-, rfl⟩ := ofGrid?_eq_some_iff.mp h
  have hmax : maxAllocation = 2 ^ 63 - 1 := rfl
  change l.gridBytes rows columns ≤ maxAllocation ↔ _
  omega

theorem allocatable_of_side (h : ofGrid? rows columns l = some canvas)
    (hs : min canvas.width canvas.height ≤ safeSide) : canvas.Allocatable := by
  obtain ⟨hf, rfl⟩ := ofGrid?_eq_some_iff.mp h
  have hsafe : 3 * (safeSide * (2 ^ 32 - 1)) ≤ maxAllocation := by decide
  have hpixels : l.gridWidth columns * l.gridHeight rows ≤ safeSide * (2 ^ 32 - 1) := by
    have hside : l.gridWidth columns ≤ safeSide ∨ l.gridHeight rows ≤ safeSide := by
      change min (l.gridWidth columns) (l.gridHeight rows) ≤ safeSide at hs
      omega
    rcases hside with hw | hh
    · exact Nat.mul_le_mul hw hf.height_le
    · rw [Nat.mul_comm]
      exact Nat.mul_le_mul hh hf.width_le
  change 3 * l.gridWidth columns * l.gridHeight rows ≤ maxAllocation
  rw [Nat.mul_assoc]
  exact Nat.le_trans (Nat.mul_le_mul_left 3 hpixels) hsafe

/-- Some panel width makes the columns fill more than half of the widest canvas. -/
theorem exists_wide (hp : 0 < columns) (hc : columns ≤ 2 ^ 32 - 1) :
    ∃ k, k < 2 ^ 32 ∧ 2 ^ 31 ≤ k * columns ∧ k * columns ≤ 2 ^ 32 - 1 := by
  have hk : (2 ^ 32 - 1) / columns ≤ 2 ^ 32 - 1 := Nat.div_le_self _ _
  have hone : columns ≤ (2 ^ 32 - 1) / columns * columns :=
    Nat.le_mul_of_pos_left _ (Nat.div_pos hc hp)
  have hrest := Nat.mod_lt (2 ^ 32 - 1) hp
  have hsum := Nat.div_add_mod' (2 ^ 32 - 1) columns
  exact ⟨(2 ^ 32 - 1) / columns, by omega, by omega, by omega⟩

/-- A height takes the buffer of a wide canvas beyond one allocation and leaves it in its word. -/
theorem exists_high {w : ℕ} (hl : 2 ^ 31 ≤ w) (hu : w ≤ 2 ^ 32 - 1) :
    ∃ h, h < 2 ^ 32 ∧ maxAllocation < 3 * w * h ∧ 3 * w * h ≤ 2 ^ 64 - 1 := by
  have hmax : maxAllocation = 2 ^ 63 - 1 := rfl
  have hrest := Nat.mod_lt (2 ^ 64 - 1) (show 0 < 3 * w by omega)
  have hsum := Nat.div_add_mod (2 ^ 64 - 1) (3 * w)
  have hh : (2 ^ 64 - 1) / (3 * w) < 2 ^ 32 := by
    rw [Nat.div_lt_iff_lt_mul (by omega)]
    omega
  exact ⟨(2 ^ 64 - 1) / (3 * w), hh, by omega, by omega⟩

theorem exists_unallocatable (hr : rows ≤ 2 ^ 32 - 1) (hp : 0 < columns)
    (hc : columns ≤ 2 ^ 32 - 1) :
    ∃ l canvas, l.InRange ∧ ofGrid? rows columns l = some canvas ∧ ¬ canvas.Allocatable := by
  obtain ⟨k, hk, hl, hu⟩ := exists_wide hp hc
  obtain ⟨h, hh, hover, hfit⟩ := exists_high hl hu
  let l : Layout := { Layout.default with panelWidth := k, panelHeight := 0, titleArea := h }
  have hheight : l.gridHeight rows = h := by simp [Layout.gridHeight, l]
  have hbytes : l.gridBytes rows columns = 3 * (k * columns) * h := by
    rw [Layout.gridBytes, hheight]
    rfl
  have hfits : Fits rows columns l := by
    refine ⟨hr, hc, hu, ?_, ?_⟩
    · rw [hheight]
      omega
    · rwa [hbytes]
  refine ⟨l, exact rows columns l, ?_, ofGrid?_eq_some_iff.mpr ⟨hfits, rfl⟩, ?_⟩
  · simp [Layout.InRange, Layout.sizes, Layout.default, l]
    omega
  · rw [Allocatable, exact, hbytes]
    exact Nat.not_le_of_lt hover

end Canvas

namespace Drawing

variable {c : Chart} {l : Layout} {canvas : Canvas} {refused : Option ℕ}

theorem canvas_eq_ok_iff :
    c.canvas l = .ok canvas ↔ Canvas.ofGrid? c.gridRows c.gridColumns l = some canvas := by
  unfold Chart.canvas
  cases Canvas.ofGrid? c.gridRows c.gridColumns l <;> simp

theorem outcome_ne_tooLarge (h : c.canvas l = .ok canvas) (rows columns : ℕ) :
    (ofChart c l refused).outcome ≠ .error (.tooLarge rows columns) := by
  by_cases ha : canvas.Allocatable
  · rcases outcome_cases h ha refused with ho | ⟨purpose, key, ho⟩
    · rw [ho]
      rcases image_cases canvas with hi | ⟨side, hi⟩ <;> rw [hi] <;> nofun
    · rw [ho]
      nofun
  · rw [ofChart_of_not_allocatable h ha]
    nofun

theorem not_overflows (h : c.canvas l = .ok canvas) (ha : canvas.Allocatable) :
    ¬ (ofChart c l refused).Overflows := by
  rintro ⟨bytes, hover, -⟩
  rcases outcome_cases h ha refused with ho | ⟨purpose, key, ho⟩
  · rcases image_cases canvas with hi | ⟨side, hi⟩ <;> cases (ho.trans hi).symm.trans hover
  · cases ho.symm.trans hover

theorem overflows_iff : (ofChart c l refused).Overflows ↔
    ∃ canvas, Canvas.ofGrid? c.gridRows c.gridColumns l = some canvas ∧
      ¬ canvas.Allocatable := by
  cases h : c.canvas l with
  | error e =>
    rw [ofChart_of_error h]
    refine iff_of_false nofun ?_
    rintro ⟨canvas, hc, -⟩
    cases h.symm.trans (canvas_eq_ok_iff.mpr hc)
  | ok canvas =>
    have hc := canvas_eq_ok_iff.mp h
    constructor
    · exact fun hover => ⟨canvas, hc, fun ha => not_overflows h ha hover⟩
    · rintro ⟨canvas', hc', hn⟩
      obtain rfl := Option.some.inj (hc.symm.trans hc')
      rw [ofChart_of_not_allocatable h hn]
      exact ⟨_, rfl, Nat.lt_of_not_le hn⟩

theorem outcome_eq_tooLarge_iff : (ofChart c l refused).outcome =
    .error (.tooLarge c.gridRows c.gridColumns) ↔
      Canvas.TooLarge c.gridRows c.gridColumns l := by
  rw [← Canvas.ofGrid?_eq_none_iff]
  cases h : Canvas.ofGrid? c.gridRows c.gridColumns l with
  | none =>
    have he : c.canvas l = .error (.tooLarge c.gridRows c.gridColumns) := by
      rw [Chart.canvas, h]
    rw [ofChart_of_error he]
    exact iff_of_true rfl rfl
  | some canvas => exact iff_of_false (outcome_ne_tooLarge (canvas_eq_ok_iff.mpr h) _ _) nofun

end Drawing

namespace Canvas

/-- A canvas can be allocated when its exact buffer has less than 2⁶³ bytes, for which one short
side is enough. The bounds on the sizes alone ensure this only of grids without columns and of
those that have no canvas. A drawing names a grid that is too large, and asks for every other
buffer, also for those that cannot be allocated. -/
theorem allocatable_iff_small (rows columns : ℕ) :
    (∀ l canvas, ofGrid? rows columns l = some canvas →
      (canvas.Allocatable ↔ l.gridBytes rows columns < 2 ^ 63) ∧
      (min canvas.width canvas.height ≤ safeSide → canvas.Allocatable)) ∧
    ((∀ l canvas, l.InRange → ofGrid? rows columns l = some canvas → canvas.Allocatable) ↔
      columns = 0 ∨ 2 ^ 32 - 1 < rows ∨ 2 ^ 32 - 1 < columns) ∧
    ∀ (c : Chart) (l : Layout) (refused : Option ℕ), c.gridRows = rows → c.gridColumns = columns →
      let d := Drawing.ofChart c l refused
      (d.outcome = .error (.tooLarge rows columns) ↔ TooLarge rows columns l) ∧
      (d.Overflows ↔ ¬ TooLarge rows columns l ∧ 2 ^ 63 ≤ l.gridBytes rows columns) := by
  refine ⟨fun l canvas h => ⟨allocatable_iff_gridBytes h, allocatable_of_side h⟩, ?_, ?_⟩
  · constructor
    · intro hall
      by_contra hn
      have hr : rows ≤ 2 ^ 32 - 1 := by omega
      have hc : columns ≤ 2 ^ 32 - 1 := by omega
      obtain ⟨l, canvas, hl, hs, hover⟩ := exists_unallocatable hr (by omega) hc
      exact hover (hall l canvas hl hs)
    · intro hgrid l canvas _ hs
      obtain ⟨hf, rfl⟩ := ofGrid?_eq_some_iff.mp hs
      have hrows := hf.rows_le
      have hcolumns := hf.columns_le
      obtain rfl : columns = 0 := by omega
      rw [allocatable_iff_gridBytes hs]
      simp [Layout.gridBytes, Layout.gridWidth]
  · rintro c l refused rfl rfl d
    refine ⟨Drawing.outcome_eq_tooLarge_iff, ?_⟩
    rw [Drawing.overflows_iff, ← fits_iff_not_tooLarge]
    constructor
    · rintro ⟨canvas, hs, hn⟩
      rw [allocatable_iff_gridBytes hs] at hn
      exact ⟨(ofGrid?_eq_some_iff.mp hs).1, Nat.le_of_not_lt hn⟩
    · rintro ⟨hf, hle⟩
      have hs := ofGrid?_eq_some_iff.mpr ⟨hf, rfl⟩
      refine ⟨_, hs, ?_⟩
      rw [allocatable_iff_gridBytes hs]
      exact Nat.not_lt_of_le hle

/-- One panel of 2³¹ pixels in both directions has a canvas of 3·2⁶² bytes. -/
theorem accepted_beyond_allocation :
    let l : Layout := { Layout.default with
      panelWidth := 2 ^ 31, panelHeight := 2 ^ 31, titleArea := 0 }
    let c : Chart := ⟨.scaling, "t", 1, []⟩
    l.InRange ∧ ofGrid? 1 1 l = some ⟨2 ^ 31, 2 ^ 31, 3 * 2 ^ 62⟩ ∧
      ¬ (⟨2 ^ 31, 2 ^ 31, 3 * 2 ^ 62⟩ : Canvas).Allocatable ∧
      (Drawing.ofChart c l none).Overflows := by
  refine ⟨by decide, by decide, by decide, ?_⟩
  rw [Drawing.overflows_iff]
  exact ⟨⟨2 ^ 31, 2 ^ 31, 3 * 2 ^ 62⟩, by decide, by decide⟩

end Canvas

end QueueBench
