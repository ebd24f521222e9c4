import Mathlib.Algebra.GroupWithZero.Nat
import Mathlib.Data.List.Basic
import QueueBench.Drawing.Plan

/-! # Refused calls

A drawing that is refused a call has made the calls of the undisturbed drawing up to that call
and no others. A refusal that comes later than all calls changes nothing. Whether the undisturbed
drawing then becomes an image is up to its canvas. -/
namespace QueueBench

def fallible (calls : List Call) : ℕ := calls.countP Call.isFallible

theorem fallible_append (calls calls' : List Call) :
    fallible (calls ++ calls') = fallible calls + fallible calls' :=
  List.countP_append

theorem map_zipIdx_fst {α β : Type} (f : α → β) (as : List α) :
    (as.zipIdx.map fun x => f x.1) = as.map f := by
  have h := congrArg (List.map f) (List.zipIdx_map_fst 0 as)
  rwa [List.map_map] at h

theorem pairwise_zipIdx {α : Type} (as : List α) : as.zipIdx.Pairwise fun a b => a.2 < b.2 := by
  have h := List.pairwise_lt_range' (s := 0) (n := as.length)
  rw [← List.zipIdx_map_snd] at h
  exact List.pairwise_map.mp h

section Run

variable {k : ℕ} {steps before rest : List Step} {s : Step}

theorem fallible_cons (s : Step) (steps : List Step) :
    fallible ((s :: steps).map Step.call) = fallible [s.call] + fallible (steps.map Step.call) :=
  fallible_append [s.call] _

theorem runSteps_none (steps : List Step) : runSteps none steps = (steps.map Step.call, none) := by
  induction steps with
  | nil => rfl
  | cons s rest ih => simp [runSteps, ih]

theorem runSteps_zero (hs : s.call.isFallible) :
    runSteps (some 0) (s :: rest) = ([], some (.refused s.purpose s.call.key)) := by
  simp [runSteps, hs]

/-- One call is made, and counted when it could have been refused. -/
theorem runSteps_cons (h : fallible [s.call] ≤ k) :
    runSteps (some k) (s :: rest) =
      (s.call :: (runSteps (some (k - fallible [s.call])) rest).1,
        (runSteps (some (k - fallible [s.call])) rest).2) := by
  cases hs : s.call.isFallible with
  | false => simp [runSteps, fallible, hs]
  | true =>
    have hk : k ≠ 0 := by
      rintro rfl
      simp [fallible, hs] at h
    simp [runSteps, fallible, hs, hk]

theorem runSteps_append (h : fallible (before.map Step.call) ≤ k) :
    runSteps (some k) (before ++ rest) =
      (before.map Step.call ++
          (runSteps (some (k - fallible (before.map Step.call))) rest).1,
        (runSteps (some (k - fallible (before.map Step.call))) rest).2) := by
  -- On the calls before the refusal, for every number it may have.
  induction before generalizing k with
  | nil => rfl
  | cons s before ih =>
    rw [fallible_cons] at h ⊢
    rw [List.cons_append, runSteps_cons (by omega), ih (by omega), Nat.sub_sub]
    rfl

theorem runSteps_of_fallible_le (h : fallible (steps.map Step.call) ≤ k) :
    runSteps (some k) steps = runSteps none steps := by
  have hr := @runSteps_append k steps [] h
  rw [List.append_nil] at hr
  rw [hr, runSteps_none, runSteps, List.append_nil]

/-- The call with this number among those that may be refused, and what stands around it. -/
theorem exists_fallible_of_lt (h : k < fallible (steps.map Step.call)) :
    ∃ before s after, steps = before ++ s :: after ∧ s.call.isFallible ∧
      fallible (before.map Step.call) = k := by
  induction steps generalizing k with
  | nil => exact (Nat.not_lt_zero k h).elim
  | cons s steps ih =>
    rw [fallible_cons] at h
    by_cases hk : fallible [s.call] ≤ k
    · obtain ⟨before, s', after, rfl, hs, hb⟩ := ih (k := k - fallible [s.call]) (by omega)
      refine ⟨s :: before, s', after, rfl, hs, ?_⟩
      rw [fallible_cons]
      omega
    · cases hs : s.call.isFallible with
      | false => simp [fallible, hs] at hk
      | true =>
        have hzero : 0 = k := by
          simp [fallible, hs] at hk
          exact hk.symm
        exact ⟨[], s, steps, rfl, hs, hzero⟩

theorem runSteps_of_lt (h : k < fallible (steps.map Step.call)) :
    ∃ before s after, steps = before ++ s :: after ∧ s.call.isFallible ∧
      fallible (before.map Step.call) = k ∧
      runSteps (some k) steps =
        (before.map Step.call, some (.refused s.purpose s.call.key)) := by
  obtain ⟨before, s, after, rfl, hs, hk⟩ := exists_fallible_of_lt h
  refine ⟨before, s, after, rfl, hs, hk, ?_⟩
  rw [runSteps_append (Nat.le_of_eq hk), hk, Nat.sub_self, runSteps_zero hs, List.append_nil]

end Run

section Panel

variable {p : Panel}

def Panel.xRange (p : Panel) : Range :=
  match p.body with
  | .lines ls => xRangeOf ls
  | .bars categories _ => barRange categories.length

def Panel.mesh (p : Panel) (l : Layout) : Step :=
  match p.body with
  | .lines _ => l.lineMesh p p.xRange
  | .bars categories _ => l.barMesh p categories p.xRange

def Panel.seriesSteps (p : Panel) : List Step :=
  match p.body with
  | .lines ls => ls.flatMap (Line.steps p.scale)
  | .bars _ gs => gs.zipIdx.flatMap fun (g, index) =>
      g.steps p.scale p.yRange.start (max gs.length 1) index

def Panel.legend (p : Panel) (l : Layout) : List Step :=
  if p.body.seriesLabels = [] then [] else [l.legend]

theorem Panel.steps_eq (p : Panel) (cell : ℕ) (l : Layout) :
    p.steps cell l = l.frame cell p p.xRange :: p.mesh l :: (p.seriesSteps ++ p.legend l) := by
  rcases p with ⟨_, _, _, _, _, (_ | _) | ⟨_, _ | _⟩⟩ <;> rfl

theorem Panel.call_mesh (p : Panel) (l : Layout) : ∃ m, (p.mesh l).call = .mesh m := by
  unfold mesh
  cases p.body with
  | lines ls => exact ⟨_, rfl⟩
  | bars categories gs => exact ⟨_, rfl⟩

theorem Panel.call_of_mem_seriesSteps {s : Step} (hs : s ∈ p.seriesSteps) :
    (∃ elements, s.call = .series elements) ∨ (∃ text, s.call = .label text) ∨
      ∃ swatch, s.call = .swatch swatch := by
  unfold seriesSteps at hs
  cases hb : p.body with
  | lines ls =>
    rw [hb] at hs
    obtain ⟨line, _, hs⟩ := List.mem_flatMap.mp hs
    simp only [Line.steps, List.mem_cons, List.not_mem_nil, or_false] at hs
    rcases hs with rfl | rfl | rfl | rfl <;> simp [Step.silent]
  | bars categories gs =>
    rw [hb] at hs
    obtain ⟨⟨g, index⟩, _, hs⟩ := List.mem_flatMap.mp hs
    simp only [BarGroup.steps, List.mem_cons, List.not_mem_nil, or_false] at hs
    rcases hs with rfl | rfl | rfl <;> simp [Step.silent]

theorem Panel.legend_cases (p : Panel) (l : Layout) :
    p.body.seriesLabels = [] ∧ (p.legend l).map Step.call = [] ∨
      p.body.seriesLabels ≠ [] ∧ ∃ x, (p.legend l).map Step.call = [.legend x] := by
  unfold legend
  by_cases h : p.body.seriesLabels = []
  · rw [if_pos h]
    exact Or.inl ⟨h, rfl⟩
  · rw [if_neg h]
    exact Or.inr ⟨h, _, rfl⟩

/-- A line and its markers for each line, the bars at once for each group. -/
def PanelBody.seriesCalls : PanelBody → ℕ
  | lines ls => ls.length * 2
  | bars _ gs => gs.length

/-- Frame and mesh, the series, and a legend where there is a series. -/
def PanelBody.fallibleCalls (b : PanelBody) : ℕ :=
  2 + b.seriesCalls + if b.seriesLabels = [] then 0 else 1

theorem fallible_flatMap {α : Type} (f : α → List Step) (as : List α) :
    fallible ((as.flatMap f).map Step.call) =
      (as.map fun a => fallible ((f a).map Step.call)).sum := by
  induction as with
  | nil => rfl
  | cons a as ih =>
    rw [List.flatMap_cons, List.map_append, fallible_append, ih]
    rfl

theorem Panel.fallible_seriesSteps (p : Panel) :
    fallible (p.seriesSteps.map Step.call) = p.body.seriesCalls := by
  unfold seriesSteps PanelBody.seriesCalls
  cases p.body with
  | lines ls =>
    have hline (l : Line) : fallible ((l.steps p.scale).map Step.call) = 2 := rfl
    simp only [fallible_flatMap, hline]
    simp
  | bars categories gs =>
    have hgroup (g : BarGroup) (index : ℕ) : fallible
        ((g.steps p.scale p.yRange.start (max gs.length 1) index).map Step.call) = 1 := rfl
    simp only [fallible_flatMap, hgroup]
    simp

theorem Panel.fallible_steps (p : Panel) (cell : ℕ) (l : Layout) :
    fallible ((p.steps cell l).map Step.call) = p.body.fallibleCalls := by
  have hframe : fallible [(l.frame cell p p.xRange).call] = 1 := rfl
  have hmesh : fallible [(p.mesh l).call] = 1 := by
    obtain ⟨m, hm⟩ := p.call_mesh l
    rw [hm]
    rfl
  have hlegend : fallible ((p.legend l).map Step.call) =
      if p.body.seriesLabels = [] then 0 else 1 := by
    rcases p.legend_cases l with ⟨h, hl⟩ | ⟨h, _, hl⟩
    · rw [hl, if_pos h]
      rfl
    · rw [hl, if_neg h]
      rfl
  rw [steps_eq, fallible_cons, fallible_cons, List.map_append, fallible_append, hframe, hmesh,
    hlegend, fallible_seriesSteps, PanelBody.fallibleCalls]
  omega

end Panel

/-- Background, title and the finished image, and the panels that have a cell. -/
def Chart.fallibleCalls (c : Chart) : ℕ :=
  3 + ((c.panels.take (c.gridRows * c.gridColumns)).map fun p => p.body.fallibleCalls).sum

theorem Chart.fallible_steps (c : Chart) (canvas : Canvas) (l : Layout) :
    fallible ((c.steps canvas l).map Step.call) = c.fallibleCalls := by
  have hplaced : (c.placed.map fun x => x.1.body.fallibleCalls) =
      (c.panels.take (c.gridRows * c.gridColumns)).map fun p => p.body.fallibleCalls :=
    map_zipIdx_fst (fun p : Panel => p.body.fallibleCalls) _
  simp only [steps, List.map_append, fallible_append, fallible_flatMap, Panel.fallible_steps,
    hplaced]
  unfold fallibleCalls
  change 2 + _ + 1 = _
  omega

namespace Canvas

def Allocatable (canvas : Canvas) : Prop := canvas.buffer ≤ maxAllocation

instance : DecidablePred Allocatable := fun _ => inferInstanceAs (Decidable (_ ≤ _))

end Canvas

namespace Drawing

variable {c : Chart} {l : Layout} {canvas : Canvas} {refused : Option ℕ} {k : ℕ}

/-- More is asked for than one allocation holds. -/
def Overflows (d : Drawing) : Prop :=
  ∃ bytes, d.outcome = .overflow bytes ∧ Canvas.maxAllocation < bytes

/-- The canvas was there, and no call on it was refused. -/
structure Unrefused (d : Drawing) : Prop where
  allocated : ¬ d.Overflows
  granted : ∀ purpose key, d.outcome ≠ .error (.refused purpose key)

/-- An image is refused for nothing but a side without pixels. -/
theorem image_cases (canvas : Canvas) :
    image canvas = .ok canvas ∨ ∃ side, image canvas = .error (.noPixels side) := by
  unfold image
  split
  · exact Or.inr ⟨_, rfl⟩
  split
  · exact Or.inr ⟨_, rfl⟩
  · exact Or.inl rfl

def free (c : Chart) (l : Layout) (canvas : Canvas) : Drawing :=
  ⟨(c.steps canvas l).map Step.call, [.chartDrawn c.panels.length], image canvas⟩

theorem unrefused_free (c : Chart) (l : Layout) (canvas : Canvas) :
    (free c l canvas).Unrefused := by
  constructor
  · rintro ⟨bytes, h, -⟩
    rcases image_cases canvas with hi | ⟨side, hi⟩ <;> cases hi.symm.trans h
  · intro purpose key h
    rcases image_cases canvas with hi | ⟨side, hi⟩ <;> cases hi.symm.trans h

theorem ofChart_of_error {e : DrawError} (h : c.canvas l = .error e) :
    ofChart c l refused = ⟨[], [], .error e⟩ := by
  rw [ofChart, h]

theorem ofChart_of_not_allocatable (h : c.canvas l = .ok canvas) (hn : ¬ canvas.Allocatable) :
    ofChart c l refused = ⟨[], [], .overflow canvas.buffer⟩ := by
  rw [ofChart, h]
  exact if_neg hn

/-- On a canvas that is there, the calls decide. -/
theorem ofChart_of_allocatable (h : c.canvas l = .ok canvas) (ha : canvas.Allocatable) :
    ofChart c l refused =
      match runSteps refused (c.steps canvas l) with
      | (calls, some e) => ⟨calls, [], .error e⟩
      | (calls, none) => ⟨calls, [.chartDrawn c.panels.length], image canvas⟩ := by
  rw [ofChart, h]
  exact if_pos ha

theorem ofChart_none (h : c.canvas l = .ok canvas) (ha : canvas.Allocatable) :
    ofChart c l none = free c l canvas := by
  rw [ofChart_of_allocatable h ha, runSteps_none]
  rfl

theorem ofChart_of_fallible_le (h : c.canvas l = .ok canvas) (hk : c.fallibleCalls ≤ k) :
    ofChart c l (some k) = ofChart c l none := by
  rw [← c.fallible_steps canvas l] at hk
  simp only [ofChart, h, runSteps_of_fallible_le hk]

theorem ofChart_of_lt (h : c.canvas l = .ok canvas) (ha : canvas.Allocatable)
    (hk : k < c.fallibleCalls) :
    ∃ before s after, c.steps canvas l = before ++ s :: after ∧ s.call.isFallible ∧
      fallible (before.map Step.call) = k ∧
      ofChart c l (some k) =
        ⟨before.map Step.call, [], .error (.refused s.purpose s.call.key)⟩ := by
  rw [← c.fallible_steps canvas l] at hk
  obtain ⟨before, s, after, hsteps, hs, hb, hrun⟩ := runSteps_of_lt hk
  refine ⟨before, s, after, hsteps, hs, hb, ?_⟩
  rw [ofChart_of_allocatable h ha, hrun]

/-- On a canvas that is there, a drawing ends with a refusal or with the image of the canvas. -/
theorem outcome_cases (h : c.canvas l = .ok canvas) (ha : canvas.Allocatable)
    (refused : Option ℕ) :
    (ofChart c l refused).outcome = image canvas ∨
      ∃ purpose key, (ofChart c l refused).outcome = .error (.refused purpose key) := by
  cases refused with
  | none =>
    rw [ofChart_none h ha]
    exact Or.inl rfl
  | some k =>
    by_cases hk : c.fallibleCalls ≤ k
    · rw [ofChart_of_fallible_le h hk, ofChart_none h ha]
      exact Or.inl rfl
    · obtain ⟨_, s, _, _, _, _, hrun⟩ := ofChart_of_lt h ha (Nat.lt_of_not_le hk)
      rw [hrun]
      exact Or.inr ⟨_, _, rfl⟩

theorem unrefused_none (h : c.canvas l = .ok canvas) (ha : canvas.Allocatable) :
    (ofChart c l none).Unrefused := by
  rw [ofChart_none h ha]
  exact unrefused_free c l canvas

theorem allocatable_of_unrefused (h : c.canvas l = .ok canvas)
    (hd : (ofChart c l refused).Unrefused) : canvas.Allocatable := by
  by_contra hn
  refine hd.allocated ⟨canvas.buffer, ?_, Nat.lt_of_not_le hn⟩
  rw [ofChart_of_not_allocatable h hn]

/-- An unrefused drawing on a canvas makes all its calls. -/
theorem calls_of_unrefused (h : c.canvas l = .ok canvas) (hd : (ofChart c l refused).Unrefused) :
    (ofChart c l refused).calls = (c.steps canvas l).map Step.call := by
  have ha := allocatable_of_unrefused h hd
  cases refused with
  | none =>
    rw [ofChart_none h ha]
    rfl
  | some k =>
    by_cases hk : c.fallibleCalls ≤ k
    · rw [ofChart_of_fallible_le h hk, ofChart_none h ha]
      rfl
    · obtain ⟨_, _, _, _, _, _, hrun⟩ := ofChart_of_lt h ha (Nat.lt_of_not_le hk)
      exact (hd.granted _ _ (congrArg outcome hrun)).elim

end Drawing

end QueueBench
