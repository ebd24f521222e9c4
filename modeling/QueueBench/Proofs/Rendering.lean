import QueueBench.Proofs.Logged
import QueueBench.Proofs.Outcomes
import QueueBench.Report.Basic

/-! # Drawing the charts of a pass

The renderer is asked once for each chart that was built, in the order of the outcomes, and its
answer settles the entry of that chart alone. -/
namespace QueueBench

structure Rendering where
  chart : Chart
  path : OsString
  answer : Except String Unit

/-- A renderer that notes what it is asked and what it answers, behind what is noted already. -/
def Renderer.noting {σ : Type} (render : Renderer (StateM σ)) :
    Renderer (StateM (σ × List Rendering)) := fun chart path (s, noted) =>
  let drawn := (render chart path).run s
  (drawn.1, drawn.2, noted ++ [⟨chart, path, drawn.1⟩])

namespace ChartStatus

def ofAnswer (path : OsString) : Except String Unit → ChartStatus
  | .ok () => saved path
  | .error error => failed path error

def path? : ChartStatus → Option OsString
  | saved path => some path
  | failed path _ => some path
  | skipped _ => none

end ChartStatus

def ChartReport.isSkipped (r : ChartReport) : Bool :=
  match r.status with
  | .skipped _ => true
  | _ => false

def ChartReport.event (r : ChartReport) : Event :=
  match r.status with
  | .saved path => .chartSaved path
  | .skipped reason => .chartSkipped ⟨r.family, reason⟩
  | .failed path error => .chartFailed path error

inductive Draws (folder : OsString) :
    List ChartOutcome → List ChartReport → List Rendering → Prop where
  | nil : Draws folder [] [] []
  | skipped (e) {outcomes entries calls} : Draws folder outcomes entries calls →
      Draws folder (.error e :: outcomes) (⟨e.family, .skipped e.reason⟩ :: entries) calls
  | drawn (chart : Chart) (answer) {outcomes entries calls} :
      Draws folder outcomes entries calls →
      Draws folder (.ok chart :: outcomes)
        (⟨chart.family, .ofAnswer (chart.family.imagePath folder) answer⟩ :: entries)
        (⟨chart, chart.family.imagePath folder, answer⟩ :: calls)

section Run

variable {σ : Type} {s s' s'' : σ}

section Bind

variable {α β : Type} {a : α} {es fs : List Event}

theorem run_bind {x : LoggedT (StateM σ) α} (hx : x.run.run s = (⟨a, es⟩, s'))
    (f : α → LoggedT (StateM σ) β) :
    (x >>= f).run.run s =
      let rest := (f a).run.run s'
      (⟨rest.1.value, es ++ rest.1.events⟩, rest.2) := by
  have h : (x >>= f).run.run s =
      let first := x.run.run s
      let rest := (f first.1.value).run.run first.2
      (⟨rest.1.value, first.1.events ++ rest.1.events⟩, rest.2) := rfl
  rw [h, hx]

/-- A step that only logs leaves the state alone. -/
theorem run_logged_bind (x : Logged α) (f : α → LoggedT (StateM σ) β) (s : σ) :
    ((liftM x : LoggedT (StateM σ) α) >>= f).run.run s =
      let rest := (f x.value).run.run s
      (⟨rest.1.value, x.events ++ rest.1.events⟩, rest.2) :=
  run_bind rfl f

theorem run_mapM_cons {f : α → LoggedT (StateM σ) β} {as : List α} {b : β} {bs : List β}
    (ha : (f a).run.run s = (⟨b, es⟩, s'))
    (has : (as.mapM f).run.run s' = (⟨bs, fs⟩, s'')) :
    ((a :: as).mapM f).run.run s = (⟨b :: bs, es ++ fs⟩, s'') := by
  rw [List.mapM_cons, run_bind ha, run_bind has, LoggedT.run_pure]
  change ((⟨b :: bs, es ++ (fs ++ [])⟩ : Logged _), s'') = _
  rw [List.append_nil]

end Bind

variable {folder : OsString} {render : Renderer (StateM σ)} {chart : Chart}
  {answer : Except String Unit}

theorem run_ofOutcome
    (h : (render chart (chart.family.imagePath folder)).run s = (answer, s')) :
    (ChartReport.ofOutcome folder render (.ok chart)).run.run s =
      let entry : ChartReport :=
        ⟨chart.family, .ofAnswer (chart.family.imagePath folder) answer⟩
      (⟨entry, [entry.event]⟩, s') := by
  have hdrawn : (LoggedT.lift (render chart (chart.family.imagePath folder))).run.run s =
      (⟨answer, []⟩, s') := by
    have hlift : (LoggedT.lift (render chart (chart.family.imagePath folder))).run.run s =
        let drawn := (render chart (chart.family.imagePath folder)).run s
        (⟨drawn.1, []⟩, drawn.2) := rfl
    rw [hlift, h]
  refine (run_bind hdrawn _).trans ?_
  cases answer <;> rfl

theorem run_noting {path : OsString} (h : (render chart path).run s = (answer, s'))
    (noted : List Rendering) :
    (render.noting chart path).run (s, noted) = (answer, s', noted ++ [⟨chart, path, answer⟩]) := by
  have hn : (render.noting chart path).run (s, noted) =
      (((render chart path).run s).1, ((render chart path).run s).2,
        noted ++ [⟨chart, path, ((render chart path).run s).1⟩]) := rfl
  rw [hn, h]

/-- Noting the calls changes no answer, and all calls follow from the outcomes. -/
theorem exists_draws (folder : OsString) (render : Renderer (StateM σ))
    (outcomes : List ChartOutcome) (noted : List Rendering) (s : σ) :
    ∃ entries calls s',
      (outcomes.mapM (ChartReport.ofOutcome folder render)).run.run s =
        (⟨entries, entries.map ChartReport.event⟩, s') ∧
      (outcomes.mapM (ChartReport.ofOutcome folder render.noting)).run.run (s, noted) =
        (⟨entries, entries.map ChartReport.event⟩, s', noted ++ calls) ∧
      Draws folder outcomes entries calls := by
  -- For every state and all notes so far, since each drawing may change the one and adds to the
  -- other.
  induction outcomes generalizing noted s with
  | nil => exact ⟨[], [], s, rfl, by rw [List.append_nil]; rfl, .nil⟩
  | cons outcome outcomes ih =>
    cases outcome with
    | error e =>
      obtain ⟨entries, calls, s', hrun, hnoted, hd⟩ := ih noted s
      have hskip {τ : Type} (render : Renderer (StateM τ)) (s : τ) :
          (ChartReport.ofOutcome folder render (.error e)).run.run s =
            (⟨⟨e.family, .skipped e.reason⟩, [.chartSkipped e]⟩, s) := rfl
      exact ⟨_, calls, s', run_mapM_cons (hskip render s) hrun,
        run_mapM_cons (hskip render.noting (s, noted)) hnoted, .skipped e hd⟩
    | ok chart =>
      rcases h : (render chart (chart.family.imagePath folder)).run s with ⟨answer, s₁⟩
      obtain ⟨entries, calls, s', hrun, hnoted, hd⟩ :=
        ih (noted ++ [⟨chart, chart.family.imagePath folder, answer⟩]) s₁
      refine ⟨_, _, s', ?_, ?_, .drawn chart answer hd⟩
      · exact run_mapM_cons (run_ofOutcome h) hrun
      · rw [run_mapM_cons (run_ofOutcome (run_noting h noted)) hnoted, List.append_assoc]
        rfl

/-- The first drawing fails, the next one does not. -/
example :
    let render : Renderer (StateM ℕ) := fun _ _ => do
      modify (· + 1)
      return if (← get) = 1 then .error "no fonts" else .ok ()
    let chart (f : Family) : Chart := ⟨f, "", 1, []⟩
    (([.ok (chart .scaling), .error ⟨.distribution, "no data"⟩, .ok (chart .comparison)].mapM
      (ChartReport.ofOutcome "results" render)).run.run 0).1.value =
      [⟨.scaling, .failed (Family.scaling.imagePath "results") "no fonts"⟩,
       ⟨.distribution, .skipped "no data"⟩,
       ⟨.comparison, .saved (Family.comparison.imagePath "results")⟩] := by rfl

end Run

structure ChartReport.Alike (calls calls' : List Rendering) (r r' : ChartReport) : Prop where
  family : r.family = r'.family
  skipped : ∀ reason, r.status = .skipped reason ↔ r'.status = .skipped reason
  path : r.status.path? = r'.status.path?
  differs : r.status ≠ r'.status → ∃ x ∈ calls, ∃ y ∈ calls',
    x.chart.family = r.family ∧ y.chart.family = r.family ∧ x.answer ≠ y.answer

theorem ChartReport.Alike.cons {calls calls' : List Rendering} {r r' : ChartReport}
    (h : r.Alike calls calls' r') (x y : Rendering) : r.Alike (x :: calls) (y :: calls') r' := by
  refine ⟨h.family, h.skipped, h.path, ?_⟩
  intro hne
  obtain ⟨a, ha, b, hb, hab⟩ := h.differs hne
  exact ⟨a, List.mem_cons_of_mem x ha, b, List.mem_cons_of_mem y hb, hab⟩

theorem ChartStatus.path_ofAnswer (path : OsString) (answer : Except String Unit) :
    (ofAnswer path answer).path? = some path := by
  cases answer <;> rfl

theorem ChartStatus.ofAnswer_ne_skipped (path : OsString) (reason : String)
    (answer : Except String Unit) : ofAnswer path answer ≠ .skipped reason := by
  cases answer <;> exact nofun

namespace Draws

variable {folder : OsString} {outcomes : List ChartOutcome} {entries entries' : List ChartReport}
  {calls calls' : List Rendering}

theorem map_family (h : Draws folder outcomes entries calls) :
    entries.map ChartReport.family = outcomes.map ChartOutcome.family := by
  induction h with
  | nil => rfl
  | skipped e _ ih => rw [List.map_cons, ih]; rfl
  | drawn chart answer _ ih => rw [List.map_cons, ih]; rfl

theorem skipped_iff (h : Draws folder outcomes entries calls) :
    List.Forall₂ (fun outcome entry => ∀ reason,
      entry.status = .skipped reason ↔ outcome = .error ⟨entry.family, reason⟩)
      outcomes entries := by
  induction h with
  | nil => exact .nil
  | skipped e _ ih =>
    refine .cons ?_ ih
    intro reason
    constructor
    · intro h
      obtain rfl := ChartStatus.skipped.inj h
      rfl
    · intro h
      rw [Except.error.inj h]
  | drawn chart answer _ ih =>
    refine .cons ?_ ih
    intro reason
    constructor
    · intro h
      cases ChartStatus.ofAnswer_ne_skipped _ _ _ h
    · intro h
      cases h

theorem map_chart_path (h : Draws folder outcomes entries calls) :
    calls.map (fun x => (x.chart, x.path)) =
      (outcomes.filterMap Except.toOption).map fun chart =>
        (chart, chart.family.imagePath folder) := by
  induction h with
  | nil => rfl
  | skipped e _ ih => exact ih
  | drawn chart answer _ ih => rw [List.map_cons, ih]; rfl

theorem map_chart_family (h : Draws folder outcomes entries calls) :
    calls.map (fun x => x.chart.family) =
      (entries.filter fun r => !r.isSkipped).map ChartReport.family := by
  induction h with
  | nil => rfl
  | skipped e _ ih => exact ih
  | drawn chart answer _ ih =>
    cases answer <;> rw [List.map_cons, ih] <;> rfl

theorem saved_eq (h : Draws folder outcomes entries calls) :
    entries.countP ChartReport.isSaved = calls.countP fun x => x.answer.isOk := by
  induction h with
  | nil => rfl
  | skipped e _ ih => rw [List.countP_cons, ih]; rfl
  | drawn chart answer _ ih =>
    cases answer <;> rw [List.countP_cons, List.countP_cons, ih] <;> rfl

theorem alike (h : Draws folder outcomes entries calls)
    (h' : Draws folder outcomes entries' calls') :
    List.Forall₂ (ChartReport.Alike calls calls') entries entries' := by
  induction h generalizing entries' calls' with
  | nil =>
    cases h'
    exact .nil
  | skipped e _ ih =>
    cases h' with
    | skipped _ h' => exact .cons ⟨rfl, fun _ => Iff.rfl, rfl, fun h => (h rfl).elim⟩ (ih h')
  | drawn chart answer _ ih =>
    cases h' with
    | drawn _ answer' h' =>
      refine .cons ⟨rfl, ?_, ?_, ?_⟩ ((ih h').imp fun _ _ h => h.cons _ _)
      · intro reason
        exact iff_of_false (ChartStatus.ofAnswer_ne_skipped _ _ _)
          (ChartStatus.ofAnswer_ne_skipped _ _ _)
      · rw [ChartStatus.path_ofAnswer, ChartStatus.path_ofAnswer]
      · intro hne
        refine ⟨_, List.mem_cons_self, _, List.mem_cons_self, rfl, rfl, ?_⟩
        rintro rfl
        exact hne rfl

end Draws

end QueueBench
