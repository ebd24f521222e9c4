import QueueBench.Proofs.AtPoint
import QueueBench.Proofs.FixedAxes
import QueueBench.Proofs.Sweep

/-! # Which charts are built

A chart is refused only for want of data, and each family has its own condition on the runs.
Since the axes are detected one by one, the point of the comparison may have no run, and a
later run without a metric may take away the last value of a panel. -/
namespace QueueBench

variable {runs : List Run} {styles : StyleTable} {o : Options}

def ChartOutcome.family : ChartOutcome → Family
  | .ok c => c.family
  | .error e => e.family

namespace Chart

theorem mem_withData {metrics : List Metric} {q : Metric} :
    q ∈ Metric.withData runs metrics ↔ q ∈ metrics ∧ ∃ r ∈ runs, (q.value r).isSome := by
  rw [Metric.withData, List.mem_filter, List.any_eq_true]

theorem withData_eq_nil_iff {metrics : List Metric} :
    Metric.withData runs metrics = [] ↔ ¬ ∃ q ∈ metrics, ∃ r ∈ runs, (q.value r).isSome := by
  simp [Metric.withData]

/-- The two guards of a chart of metrics come down to one: a metric with data has a run. -/
theorem exists_ok_iff {shown : List Run} {metrics : List Metric} {e e' : InsufficientData}
    {c : Chart} :
    (∃ d, (if shown = [] then Except.error e
        else if Metric.withData shown metrics = [] then Except.error e' else Except.ok c) =
      (Except.ok d : ChartOutcome)) ↔ ∃ q ∈ metrics, ∃ r ∈ shown, (q.value r).isSome := by
  by_cases hm : Metric.withData shown metrics = []
  · have hn := withData_eq_nil_iff.mp hm
    rw [if_pos hm]
    constructor
    · rintro ⟨d, h⟩
      split at h <;> cases h
    · intro h
      exact (hn h).elim
  · have hs : shown ≠ [] := by
      rintro rfl
      exact hm (by simp [Metric.withData])
    rw [if_neg hs, if_neg hm]
    exact ⟨fun _ => not_not.mp fun h => hm (withData_eq_nil_iff.mpr h), fun _ => ⟨c, rfl⟩⟩

theorem exists_scaling_iff {payload : ℕ} {o : ScalingOptions} :
    (∃ c, scaling runs (some payload) o styles = .ok c) ↔
      ∃ q ∈ o.metrics, ∃ r ∈ scalingRuns runs payload o.axis, (q.value r).isSome := by
  rw [scaling_eq]
  exact exists_ok_iff

theorem exists_sensitivity_iff {threads : ℕ} {metrics : List Metric} :
    (∃ c, sensitivity runs (some threads) metrics styles = .ok c) ↔
      ∃ q ∈ metrics, ∃ r ∈ sensitivityRuns runs threads, (q.value r).isSome :=
  exists_ok_iff

theorem latestBy_filter_ne_nil {κ : Type} [DecidableEq κ] (runs : List Run) (key : Run → κ)
    (p : Run → Bool) : latestBy key (runs.filter p) ≠ [] ↔ ∃ r ∈ runs, p r := by
  rw [ne_eq, latestBy_eq_nil_iff, List.filter_eq_nil_iff]
  simp

theorem exists_ok_of_ne_nil_iff {shown : List Run} {e : InsufficientData} {c : Chart} :
    (∃ d, (if shown = [] then Except.error e else Except.ok c) = (Except.ok d : ChartOutcome)) ↔
      shown ≠ [] := by
  by_cases h : shown = []
  · simp [h]
  · simp [h]

theorem exists_efficiency_iff {threads : ℕ} :
    (∃ c, efficiency runs (some threads) styles = .ok c) ↔
      ∃ r ∈ runs, r.producers = threads ∧ 0 < r.payload := by
  have hs := latestBy_filter_ne_nil runs (Run.configuration .payload)
    fun r => r.producers = threads ∧ 0 < r.payload
  simp only [decide_eq_true_eq] at hs
  exact exists_ok_of_ne_nil_iff.trans hs

theorem exists_comparison_iff {threads payload : ℕ} :
    (∃ c, comparison runs ⟨some payload, some threads⟩ styles = .ok c) ↔
      ∃ r ∈ runs, r.producers = threads ∧ r.payload = payload := by
  have hs := latestBy_filter_ne_nil runs Run.seriesKey
    fun r => r.producers = threads ∧ r.payload = payload
  simp only [decide_eq_true_eq] at hs
  exact exists_ok_of_ne_nil_iff.trans hs

theorem exists_distribution_iff {payload : ℕ} :
    (∃ c, distribution runs (some payload) styles = .ok c) ↔
      ∃ r ∈ runs, r.payload = payload ∧ ∃ p, (r.latency.get p).isSome := by
  have hl : latencyRuns runs payload ≠ [] ↔
      ∃ r ∈ runs, r.payload = payload ∧ ∃ p, (r.latency.get p).isSome := by
    simp [latencyRuns, Latency.isEmpty_eq_false_iff, Option.isSome_iff_ne_none]
  rw [← hl, ne_eq, ← mostThreads_eq_none_iff]
  simp only [distribution]
  cases mostThreads (latencyRuns runs payload) with
  | none => simp
  | some threads => simp

end Chart

/-- A detected payload is that of a run. -/
theorem exists_latest_scaling {payload : ℕ} (h : FixedAxes.payloadOf runs = some payload)
    (o : Chart.ScalingOptions) : ∃ r, r ∈ (Sweep.scaling (some payload) o).latest runs := by
  obtain ⟨r, hr, hv⟩ := exists_run_of_widestSweep h
  exact Sweep.exists_latest_of_mem hr (by simp [Sweep.selects, hv])

/-- A detected producer count is that of a run. -/
theorem exists_latest_sensitivity {threads : ℕ} (h : FixedAxes.threadsOf runs = some threads)
    (requested : List Metric) :
    ∃ r, r ∈ (Sweep.sensitivity (some threads) requested).latest runs := by
  obtain ⟨r, hr, hv⟩ := exists_run_of_widestSweep h
  exact Sweep.exists_latest_of_mem hr (by simp [Sweep.selects, hv])

namespace Analysis

/-- The outcome of a family names the family. -/
theorem family_outcome (runs : List Run) (axes : FixedAxes) (o : Options) (styles : StyleTable)
    (f : Family) : ChartOutcome.family (outcome runs axes o styles f) = f := by
  rcases axes with ⟨payload, threads⟩
  cases f with
  | scaling =>
    cases payload with
    | none => rfl
    | some payload =>
      simp only [outcome_eq, Chart.scaling_eq]
      split
      · rfl
      · split <;> rfl
  | sensitivity =>
    cases threads with
    | none => rfl
    | some threads =>
      simp only [outcome_eq, Chart.sensitivity]
      split
      · rfl
      · split <;> rfl
  | efficiency =>
    cases threads with
    | none => rfl
    | some threads =>
      simp only [outcome_eq, Chart.efficiency]
      split <;> rfl
  | distribution =>
    cases payload with
    | none => rfl
    | some payload =>
      simp only [outcome_eq, Chart.distribution]
      split <;> rfl
  | comparison =>
    cases threads with
    | none => cases payload <;> rfl
    | some threads =>
      cases payload with
      | none => rfl
      | some payload =>
        simp only [outcome_eq, Chart.comparison]
        split <;> rfl

/-- The charts that are built, each under its family. -/
theorem mem_built {c : Chart} :
    c ∈ (ofRuns runs o styles).built ↔
      outcome runs (FixedAxes.detect runs) o styles c.family = .ok c := by
  have hall : c.family ∈ Family.all := by cases c.family <;> decide
  simp only [built, charts_ofRuns, List.mem_filterMap, List.mem_map]
  constructor
  · rintro ⟨_, ⟨f, _, rfl⟩, h⟩
    cases hf : outcome runs (FixedAxes.detect runs) o styles f with
    | error e =>
      rw [hf] at h
      cases h
    | ok d =>
      have hfam := family_outcome runs (FixedAxes.detect runs) o styles f
      rw [hf] at h hfam
      obtain rfl := Option.some.inj h
      obtain rfl := hfam
      exact hf
  · intro h
    exact ⟨_, ⟨c.family, hall, rfl⟩, by rw [h]; rfl⟩

def Builds (a : Analysis) (f : Family) : Prop := ∃ c ∈ a.built, c.family = f

theorem builds_iff {f : Family} : (ofRuns runs o styles).Builds f ↔
    ∃ c, outcome runs (FixedAxes.detect runs) o styles f = .ok c := by
  constructor
  · rintro ⟨c, hc, rfl⟩
    exact ⟨c, mem_built.mp hc⟩
  · rintro ⟨c, hc⟩
    have hf := family_outcome runs (FixedAxes.detect runs) o styles f
    rw [hc] at hf
    obtain rfl := hf
    exact ⟨c, mem_built.mpr hc, rfl⟩

theorem builds_of_detect {f : Family} {axes : FixedAxes} (ha : FixedAxes.detect runs = axes)
    (h : ∃ c, outcome runs axes o styles f = .ok c) : (ofRuns runs o styles).Builds f :=
  builds_iff.mpr (ha ▸ h)

theorem builds_scaling {payload : ℕ} {r : Run} (h : FixedAxes.payloadOf runs = some payload)
    (hr : r ∈ (Sweep.scaling (some payload) o.scaling).latest runs) (ht : .throughput ∈ o.metrics) :
    (ofRuns runs o styles).Builds .scaling := by
  rw [Sweep.latest_scaling] at hr
  rw [builds_iff, outcome, FixedAxes.detect, h]
  exact Chart.exists_scaling_iff.mpr ⟨_, ht, r, hr, rfl⟩

/-- The order of the families, the axes, and the condition of each family, for all runs. -/
theorem builds_exactly (o : Options) (styles : StyleTable) :
    (∀ runs, (ofRuns runs o styles).charts.map ChartOutcome.family =
      [.scaling, .distribution, .sensitivity, .efficiency, .comparison]) ∧
    (ofRuns [] o styles).axes = ⟨none, none⟩ ∧
    (∀ c ∈ (ofRuns [] o styles).charts, ∃ e, c = .error e) ∧
    ∀ runs, runs ≠ [] → ∃ payload threads,
      (ofRuns runs o styles).axes = ⟨some payload, some threads⟩ ∧
      ((ofRuns runs o styles).Builds .scaling ↔ ∃ q ∈ o.metrics, ∃ i m x r,
        (Sweep.scaling (some payload) o.scaling).lastAt runs i m x = some r ∧
          (q.value r).isSome) ∧
      ((ofRuns runs o styles).Builds .sensitivity ↔ ∃ q ∈ o.metrics, ∃ i m x r,
        (Sweep.sensitivity (some threads) o.metrics).lastAt runs i m x = some r ∧
          (q.value r).isSome) ∧
      (.throughput ∈ o.metrics → (ofRuns runs o styles).Builds .scaling ∧
        (ofRuns runs o styles).Builds .sensitivity) ∧
      ((ofRuns runs o styles).Builds .distribution ↔
        ∃ r ∈ runs, r.payload = payload ∧ ∃ p, (r.latency.get p).isSome) ∧
      ((ofRuns runs o styles).Builds .efficiency ↔
        ∃ r ∈ runs, r.producers = threads ∧ 0 < r.payload) ∧
      ((ofRuns runs o styles).Builds .comparison ↔
        ∃ r ∈ runs, r.producers = threads ∧ r.payload = payload) := by
  have hempty : FixedAxes.detect [] = ⟨none, none⟩ := by
    rw [FixedAxes.detect, FixedAxes.payloadOf, FixedAxes.threadsOf, widestSweep_nil,
      widestSweep_nil]
  refine ⟨fun runs => ?_, hempty, ?_, fun runs hne => ?_⟩
  · rw [charts_ofRuns, List.map_map]
    exact List.map_congr_left fun f _ => family_outcome runs _ o styles f
  · intro c hc
    rw [charts_ofRuns, hempty] at hc
    obtain ⟨f, _, rfl⟩ := List.mem_map.mp hc
    cases f <;> exact ⟨_, rfl⟩
  · obtain ⟨payload, hp⟩ := exists_widestSweep hne Run.payload Run.producers
    obtain ⟨threads, ht⟩ := exists_widestSweep hne Run.producers Run.payload
    have haxes : FixedAxes.detect runs = ⟨some payload, some threads⟩ := by
      rw [FixedAxes.detect, FixedAxes.payloadOf, FixedAxes.threadsOf, hp, ht]
    have hscaling : (ofRuns runs o styles).Builds .scaling ↔ ∃ q ∈ o.metrics,
        ∃ r ∈ (Sweep.scaling (some payload) o.scaling).latest runs, (q.value r).isSome := by
      rw [builds_iff, haxes, Sweep.latest_scaling]
      exact Chart.exists_scaling_iff
    have hsensitivity : (ofRuns runs o styles).Builds .sensitivity ↔ ∃ q ∈ o.metrics,
        ∃ r ∈ (Sweep.sensitivity (some threads) o.metrics).latest runs, (q.value r).isSome := by
      rw [builds_iff, haxes, Sweep.latest_sensitivity]
      exact Chart.exists_sensitivity_iff
    refine ⟨payload, threads, haxes, ?_, ?_, fun hq => ⟨?_, ?_⟩, ?_, ?_, ?_⟩
    · simpa only [Sweep.exists_latest_iff] using hscaling
    · simpa only [Sweep.exists_latest_iff] using hsensitivity
    -- No run lacks a throughput.
    · obtain ⟨a, ha⟩ := exists_latest_scaling hp o.scaling
      exact hscaling.mpr ⟨_, hq, a, ha, rfl⟩
    · obtain ⟨a, ha⟩ := exists_latest_sensitivity ht o.metrics
      exact hsensitivity.mpr ⟨_, hq, a, ha, rfl⟩
    · rw [builds_iff, haxes]
      exact Chart.exists_distribution_iff
    · rw [builds_iff, haxes]
      exact Chart.exists_efficiency_iff
    · rw [builds_iff, haxes]
      exact Chart.exists_comparison_iff

/-- No run is at the detected payload and the detected producer count, and the only run with
a memory figure has a later one without. -/
def erasedRuns : List Run :=
  [{ Run.ofThroughput "spsc" .heap 1 1 100 10 with peakMemory := some 3 },
   Run.ofThroughput "spsc" .heap 2 2 100 20,
   Run.ofThroughput "spsc" .heap 1 1 100 30,
   Run.ofThroughput "spsc" .heap 4 4 10 40,
   Run.ofThroughput "spsc" .heap 4 4 20 50]

theorem builds_exactly_erased :
    let a := ofRuns erasedRuns ⟨.producers, false, [.peakMemory]⟩ .default
    ¬ a.Builds .scaling ∧ ¬ a.Builds .sensitivity ∧ ¬ a.Builds .distribution ∧
      a.Builds .efficiency ∧ ¬ a.Builds .comparison := by
  obtain ⟨_, _, _, h⟩ := builds_exactly ⟨.producers, false, [.peakMemory]⟩ .default
  obtain ⟨payload, threads, haxes, hs, hn, _, hd, he, hc⟩ := h erasedRuns (by decide)
  have hdetect : FixedAxes.detect erasedRuns = ⟨some 100, some 4⟩ := by cbv
  obtain ⟨hp, ht⟩ := FixedAxes.mk.inj (haxes.symm.trans hdetect)
  obtain rfl := Option.some.inj hp
  obtain rfl := Option.some.inj ht
  simp only [← Sweep.exists_latest_iff] at hs hn
  simp only [← Latency.isEmpty_eq_false_iff] at hd
  exact ⟨hs.not.mpr (by decide), hn.not.mpr (by decide), hd.not.mpr (by decide),
    he.mpr (by decide), hc.not.mpr (by decide)⟩

end Analysis

end QueueBench
