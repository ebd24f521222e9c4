import QueueBench.Analysis
import QueueBench.Loading

/-! # Logging and results

A log is only written, so leaving it out changes no result. What a sequence of steps gives is what
its steps give, and its log is their logs, in order. -/
namespace QueueBench

namespace Logged

variable {α β : Type}

@[simp]
theorem value_pure (a : α) : (pure a : Logged α).value = a := rfl

@[simp]
theorem events_pure (a : α) : (pure a : Logged α).events = [] := rfl

@[simp]
theorem value_bind (x : Logged α) (f : α → Logged β) : (x >>= f).value = (f x.value).value := rfl

@[simp]
theorem events_bind (x : Logged α) (f : α → Logged β) :
    (x >>= f).events = x.events ++ (f x.value).events := rfl

@[simp]
theorem events_log (e : Event) : (log e).events = [e] := rfl

instance : LawfulMonad Logged := LawfulMonad.mk' Logged
  (fun x => by cases x; simp [Functor.map])
  (fun a f => rfl)
  (fun x f g => by simp [bind])

@[simp]
theorem value_map (f : α → β) (x : Logged α) : (f <$> x).value = f x.value := rfl

@[simp]
theorem events_map (f : α → β) (x : Logged α) : (f <$> x).events = x.events :=
  List.append_nil _

theorem mapM_eq (f : α → Logged β) (as : List α) :
    as.mapM f = ⟨as.map fun a => (f a).value, as.flatMap fun a => (f a).events⟩ := by
  induction as with
  | nil => rfl
  | cons a as ih =>
    rw [List.mapM_cons, ih]
    simp [bind, pure]

@[simp]
theorem value_mapM (f : α → Logged β) (as : List α) :
    (as.mapM f).value = as.map fun a => (f a).value := by
  rw [mapM_eq]

@[simp]
theorem events_mapM (f : α → Logged β) (as : List α) :
    (as.mapM f).events = as.flatMap fun a => (f a).events := by
  rw [mapM_eq]

end Logged

namespace LoggedT

variable {m : Type → Type} {α β : Type}

theorem ext {x y : LoggedT m α} (h : x.run = y.run) : x = y := h

variable [Monad m]

/-- The steps that follow run in `m` behind the first, and their log follows its log. -/
theorem run_bind (x : LoggedT m α) (f : α → LoggedT m β) :
    (x >>= f).run = x.run >>= fun a => (f a.value).run >>= fun b =>
      pure ⟨b.value, a.events ++ b.events⟩ := rfl

theorem run_pure (a : α) : (pure a : LoggedT m α).run = pure ⟨a, []⟩ := rfl

instance [LawfulMonad m] : LawfulMonad (LoggedT m) :=
  LawfulMonad.mk' (LoggedT m)
    (fun x => ext (by
      change (x >>= fun a => pure a).run = x.run
      simp [run_bind, run_pure]))
    (fun a f => ext (by simp [run_bind, run_pure]))
    (fun x f g => ext (by simp [run_bind]))

end LoggedT

section Reading

theorem RowOutcome.value_logged (o : RowOutcome) (source : String) :
    (o.logged source).value = o := by
  cases o <;> rfl

variable {source marker : String}

theorem ResultFile.value_readRecords (header : Option Csv.Record) (rows : List Csv.Record)
    (failure : Option String) :
    (readRecords source marker header rows failure).value =
      match readSchema header with
      | .error fault => .error (.header fault)
      | .ok schema => .ok ⟨source, schema, rows.map (readRow schema source marker) ++
          failure.toList.map fun cause => interruptedRow source cause rows.length⟩ := by
  unfold readRecords
  cases readSchema header <;> simp [RowOutcome.value_logged]

theorem ResultFile.ofBytes_eq (source marker : String) (bytes : List UInt8) :
    ofBytes source marker bytes =
      match readSchema (Csv.records bytes).head? with
      | .error fault => .error (.header fault)
      | .ok schema =>
        .ok ⟨source, schema, (Csv.records bytes).tail.map (readRow schema source marker)⟩ := by
  rw [ofBytes, read, value_readRecords]
  simp

theorem Loading.ofPaths_eq (t : FileTree) (marker : String) (paths : List OsString) :
    ofPaths t marker paths = ⟨paths.map fun p => (p, t.load marker p)⟩ := by
  have hpath (p : OsString) : (readPath t marker p).value = (p, t.load marker p) := rfl
  simp [ofPaths, read, hpath]

end Reading

section Charts

variable {runs : List Run} {styles : StyleTable}

theorem Chart.scaling_eq (payload : Option Nat) (o : ScalingOptions) :
    scaling runs payload o styles =
      match payload with
      | none => .error ⟨.scaling, "no thread sweep detected"⟩
      | some payload =>
        let subset := scalingRuns runs payload o.axis
        let metrics := Metric.withData subset o.metrics
        if subset = [] then .error ⟨.scaling, s!"no runs at payload {payload}μs"⟩
        else if metrics = [] then .error ⟨.scaling, noMetricReason⟩
        else .ok
          { family := .scaling
            title := s!"Scaling with threads (payload={payload}μs)"
            columns := metrics.length
            panels := scalingPanels subset o metrics styles } := by
  cases payload with
  | none => rfl
  | some payload =>
    simp only [scaling, buildScaling]
    split
    · rfl
    · split <;> rfl

theorem Analysis.outcome_eq (axes : FixedAxes) (o : Options) (f : Family) :
    outcome runs axes o styles f =
      match f with
      | .scaling => Chart.scaling runs axes.payload o.scaling styles
      | .sensitivity => Chart.sensitivity runs axes.threads o.metrics styles
      | .distribution => Chart.distribution runs axes.payload styles
      | .efficiency => Chart.efficiency runs axes.threads styles
      | .comparison => Chart.comparison runs axes styles := by
  cases f <;> rfl

theorem Analysis.charts_ofRuns (runs : List Run) (o : Options) (styles : StyleTable) :
    (ofRuns runs o styles).charts =
      Family.all.map (outcome runs (FixedAxes.detect runs) o styles) :=
  Logged.value_mapM _ _

end Charts

end QueueBench
