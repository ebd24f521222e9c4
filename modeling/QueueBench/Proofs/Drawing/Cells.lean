import Mathlib.Data.List.ProdSigma
import Mathlib.Data.List.TakeWhile
import QueueBench.Proofs.Drawing.Refusal

/-! # Cells of the grid

A finished drawing is cut at its frames: what follows a frame, up to the next one, was drawn in
that coordinate system. The panels take the cells row by row, and each has a cell of its own
unless the chart has panels but no columns: such a grid has a single cell. -/
namespace QueueBench

variable {c : Chart} {l : Layout} {canvas : Canvas} {refused : Option ℕ}

namespace Call

def isInside : Call → Bool
  | mesh _ | series _ | label _ | swatch _ | legend _ => true
  | _ => false

def frame? : Call → Option Frame
  | chart frame => some frame
  | _ => none

end Call

structure Section where
  frame : Frame
  calls : List Call

def sections : List Call → List Section
  | [] => []
  | c :: calls =>
    match c.frame? with
    | some frame => ⟨frame, calls.takeWhile Call.isInside⟩ :: sections calls
    | none => sections calls

theorem sections_append {before : List Call} (h : ∀ x ∈ before, x.frame? = none)
    (rest : List Call) : sections (before ++ rest) = sections rest := by
  induction before with
  | nil => rfl
  | cons x before ih =>
    rw [List.cons_append, sections, h x List.mem_cons_self]
    exact ih fun y hy => h y (List.mem_cons_of_mem x hy)

theorem sections_cons (frame : Frame) {inside : List Call} (h : ∀ x ∈ inside, x.isInside)
    {rest : List Call} (hr : rest.takeWhile Call.isInside = []) :
    sections (.chart frame :: (inside ++ rest)) = ⟨frame, inside⟩ :: sections rest := by
  have hnone : ∀ x ∈ inside, x.frame? = none := by
    intro x hx
    have hi := h x hx
    cases x <;> first | rfl | cases hi
  rw [sections, Call.frame?, List.takeWhile_append_of_pos h, hr, List.append_nil,
    sections_append hnone]

namespace Panel

def drawnIn (l : Layout) (p : Panel) (cell : ℕ) : Section :=
  ⟨{ cell, caption := ⟨p.title, l.font l.panelTitleFont⟩, margin := l.margin
     xLabelArea := l.xLabelArea, yLabelArea := l.yLabelArea, x := p.xRange, y := p.yRange },
   (p.mesh l :: (p.seriesSteps ++ p.legend l)).map Step.call⟩

theorem map_call_steps (p : Panel) (cell : ℕ) (l : Layout) :
    (p.steps cell l).map Step.call =
      .chart (p.drawnIn l cell).frame :: (p.drawnIn l cell).calls := by
  rw [steps_eq]
  rfl

theorem exists_calls_drawnIn (l : Layout) (p : Panel) (cell : ℕ) :
    ∃ m, (p.drawnIn l cell).calls =
      .mesh m :: (p.seriesSteps.map Step.call ++ (p.legend l).map Step.call) := by
  obtain ⟨m, hm⟩ := p.call_mesh l
  refine ⟨m, ?_⟩
  rw [drawnIn, List.map_cons, List.map_append, hm]

theorem isInside_of_mem_drawnIn {p : Panel} {cell : ℕ} :
    ∀ x ∈ (p.drawnIn l cell).calls, x.isInside := by
  intro x hx
  obtain ⟨m, hm⟩ := exists_calls_drawnIn l p cell
  rw [hm] at hx
  rcases List.mem_cons.mp hx with rfl | hx
  · rfl
  rcases List.mem_append.mp hx with hx | hx
  · obtain ⟨s, hs, rfl⟩ := List.mem_map.mp hx
    rcases call_of_mem_seriesSteps hs with ⟨_, h⟩ | ⟨_, h⟩ | ⟨_, h⟩ <;> rw [h] <;> rfl
  · rcases p.legend_cases l with ⟨_, h⟩ | ⟨_, _, h⟩
    · rw [h] at hx
      cases hx
    · rw [h] at hx
      rw [List.mem_singleton.mp hx]
      rfl

end Panel

theorem sections_panels (l : Layout) (ps : List (Panel × ℕ)) :
    sections ((ps.flatMap fun (p, cell) => p.steps cell l).map Step.call ++ [.present]) =
      ps.map fun (p, cell) => p.drawnIn l cell := by
  induction ps with
  | nil => rfl
  | cons x ps ih =>
    rw [List.flatMap_cons, List.map_append, Panel.map_call_steps, List.append_assoc,
      List.cons_append, sections_cons _ Panel.isInside_of_mem_drawnIn, ih, List.map_cons]
    -- The section ends at the frame of the next panel, or where the image is finished.
    cases ps with
    | nil => rfl
    | cons y ps =>
      rw [List.flatMap_cons, List.map_append, Panel.map_call_steps]
      rfl

/-- The cells of a grid as row and column, row by row. -/
def gridCells (rows columns : ℕ) : List (ℕ × ℕ) :=
  (List.range rows).flatMap fun row => (List.range columns).map fun column => (row, column)

def Frame.place (columns : ℕ) (f : Frame) : ℕ × ℕ := (f.cell / columns, f.cell % columns)

theorem gridCells_eq (rows : ℕ) {columns : ℕ} (hc : 0 < columns) :
    gridCells rows columns =
      (List.range (rows * columns)).map fun cell => (cell / columns, cell % columns) := by
  induction rows with
  | zero => simp [gridCells]
  | succ rows ih =>
    have hrow : ((List.range columns).map fun column => (rows, column)) =
        (List.range columns).map fun column =>
          ((rows * columns + column) / columns, (rows * columns + column) % columns) := by
      refine List.map_congr_left fun column hcolumn => ?_
      have hlt := List.mem_range.mp hcolumn
      rw [Nat.mul_comm, Nat.mul_add_div hc, Nat.mul_add_mod, Nat.div_eq_of_lt hlt,
        Nat.mod_eq_of_lt hlt, Nat.add_zero]
    rw [Nat.succ_mul, List.range_add, List.map_append, ← ih, gridCells, List.range_succ,
      List.flatMap_append, List.flatMap_singleton, List.map_map, hrow]
    rfl

namespace Chart

theorem gridColumns_pos (c : Chart) : 0 < c.gridColumns := by
  unfold gridColumns
  omega

/-- Only a grid without columns has more panels than cells. -/
theorem length_panels_le_iff (c : Chart) :
    c.panels.length ≤ c.gridRows * c.gridColumns ↔ c.columns ≠ 0 ∨ c.panels.length ≤ 1 := by
  unfold gridRows gridColumns rows
  by_cases hc : c.columns = 0
  · simp [hc]
  · rw [if_neg hc]
    have hmod := Nat.mod_lt (c.panels.length + c.columns - 1) (Nat.pos_of_ne_zero hc)
    have hdiv := Nat.div_add_mod' (c.panels.length + c.columns - 1) c.columns
    have hrows : c.panels.length ≤ (c.panels.length + c.columns - 1) / c.columns * c.columns := by
      omega
    have hgrid := hrows.trans (Nat.mul_le_mul (Nat.le_max_left _ 1) (Nat.le_max_left c.columns 1))
    exact iff_of_true hgrid (Or.inl hc)

theorem sections_of_unrefused (h : c.canvas l = .ok canvas)
    (hd : (Drawing.ofChart c l refused).Unrefused) :
    sections (Drawing.ofChart c l refused).calls =
      c.placed.map fun (p, cell) => p.drawnIn l cell := by
  rw [Drawing.calls_of_unrefused h hd, steps, List.map_append, List.map_append, List.append_assoc]
  refine (sections_append ?_ _).trans (sections_panels l c.placed)
  simp [Step.silent, Call.frame?]

/-- Each panel is drawn once, in order, in a cell of its own; the cells are taken row by row. -/
structure DrawsEachPanel (c : Chart) (l : Layout) (calls : List Call) : Prop where
  split_mem : Call.split c.gridRows c.gridColumns ∈ calls
  sections_eq : sections calls = c.panels.zipIdx.map fun (p, cell) => p.drawnIn l cell
  nodup_cells : ((sections calls).map fun x => x.frame.cell).Nodup
  places_eq : ((sections calls).map fun x => x.frame.place c.gridColumns) =
    (gridCells c.gridRows c.gridColumns).take c.panels.length

theorem map_cell_placed (c : Chart) (l : Layout) :
    ((c.placed.map fun (p, cell) => p.drawnIn l cell).map fun x => x.frame.cell) =
      List.range (min c.panels.length (c.gridRows * c.gridColumns)) := by
  have hsnd : (fun x : Section => x.frame.cell) ∘ (fun (p, cell) => Panel.drawnIn l p cell) =
      Prod.snd := rfl
  rw [List.map_map, hsnd, placed, List.zipIdx_map_snd, List.length_take, List.range_eq_range',
    Nat.min_comm]

/-- The panels that have a cell are drawn in order. They are all panels unless several share a grid
without columns, which has a single cell. -/
theorem draws_each_panel_iff (h : c.canvas l = .ok canvas)
    (hd : (Drawing.ofChart c l refused).Unrefused) :
    let calls := (Drawing.ofChart c l refused).calls
    sections calls = (c.panels.take (c.gridRows * c.gridColumns)).zipIdx.map
        (fun (p, cell) => p.drawnIn l cell) ∧
      (c.columns = 0 → c.gridRows * c.gridColumns = 1) ∧
      (c.DrawsEachPanel l calls ↔ c.columns ≠ 0 ∨ c.panels.length ≤ 1) := by
  intro calls
  have hsections : sections calls = c.placed.map fun (p, cell) => p.drawnIn l cell :=
    sections_of_unrefused h hd
  have hcells : ((sections calls).map fun x => x.frame.cell) =
      List.range (min c.panels.length (c.gridRows * c.gridColumns)) := by
    rw [hsections, map_cell_placed]
  refine ⟨hsections, ?_, ?_⟩
  · intro hc
    simp [gridRows, gridColumns, rows, hc]
  rw [← length_panels_le_iff]
  constructor
  · intro hdraws
    have hlength := congrArg List.length hdraws.sections_eq
    rw [hsections] at hlength
    simp only [placed, List.length_map, List.length_zipIdx, List.length_take] at hlength
    omega
  · intro hle
    refine ⟨?_, ?_, ?_, ?_⟩
    · have hcalls : calls = (c.steps canvas l).map Step.call := Drawing.calls_of_unrefused h hd
      rw [hcalls]
      simp [steps, Step.silent]
    · rw [hsections, placed, List.take_of_length_le hle]
    · rw [hcells]
      exact List.nodup_range
    · have hplace : (fun x : Section => x.frame.place c.gridColumns) =
          (fun cell => (cell / c.gridColumns, cell % c.gridColumns)) ∘ fun x => x.frame.cell := rfl
      rw [hplace, ← List.map_map, hcells, gridCells_eq _ c.gridColumns_pos, ← List.map_take,
        List.take_range]

def blank (columns : ℕ) (titles : List String) : Chart :=
  ⟨.scaling, "t", columns, titles.map fun title => ⟨title, "x", "y", .linear, none, .lines []⟩⟩

/-- Three panels in two columns leave the last cell free. -/
theorem draws_each_panel_iff_uneven :
    let c := blank 2 ["first", "second", "third"]
    let calls := (Drawing.ofChart c .default none).calls
    c.canvas .default = .ok ⟨1000, 850, 2550000⟩ ∧ c.DrawsEachPanel .default calls ∧
      ((sections calls).map fun x => x.frame.place 2) = [(0, 0), (0, 1), (1, 0)] := by
  have h : (blank 2 ["first", "second", "third"]).canvas .default = .ok ⟨1000, 850, 2550000⟩ := rfl
  have hdraws := (draws_each_panel_iff h (Drawing.unrefused_none h (by decide))).2.2.mpr
    (Or.inl (by decide))
  exact ⟨h, hdraws, hdraws.places_eq⟩

/-- Of two panels in no columns the second is not drawn. -/
theorem panel_lost_without_columns :
    let c := blank 0 ["first", "second"]
    let calls := (Drawing.ofChart c .default none).calls
    c.canvas .default = .ok ⟨500, 450, 675000⟩ ∧
      ((sections calls).map fun x => x.frame.caption.text) = ["first"] ∧
      ¬ c.DrawsEachPanel .default calls := by
  have h : (blank 0 ["first", "second"]).canvas .default = .ok ⟨500, 450, 675000⟩ := rfl
  have hsections := sections_of_unrefused h (Drawing.unrefused_none h (by decide))
  refine ⟨h, ?_, ?_⟩
  · rw [hsections]
    rfl
  · intro hdraws
    have hlength := congrArg List.length (hsections.symm.trans hdraws.sections_eq)
    cases hlength

end Chart

end QueueBench
