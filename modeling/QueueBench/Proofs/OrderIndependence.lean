import QueueBench.Proofs.FixedAxes
import QueueBench.Proofs.Logged
import QueueBench.Proofs.Series

/-! # Order independence

When no two runs stand for the same configuration, the detected axes and all charts are
functions of the set of runs. Every place where a builder looks at the order is covered:
detection, the latest runs, the inferred grouping, shared modes, labels and sorting. -/
namespace QueueBench

variable {runs runs' : List Run}

theorem detect_perm (h : runs.Perm runs') : FixedAxes.detect runs = FixedAxes.detect runs' :=
  FixedAxes.detect_congr (List.toFinset_eq_of_perm _ _ (h.map _))

theorem withData_perm (h : runs.Perm runs') (metrics : List Metric) :
    Metric.withData runs metrics = Metric.withData runs' metrics := by
  unfold Metric.withData
  exact List.filter_congr fun m _ => h.any_eq

theorem eq_nil_perm (h : runs.Perm runs') : (runs = []) = (runs' = []) := by
  rw [← List.length_eq_zero_iff, ← List.length_eq_zero_iff, h.length_eq]

theorem label_perm (h : runs.Perm runs') (x : XAxis) : x.label runs = x.label runs' := by
  rcases x with (_ | _ | _) | _
  · simp only [XAxis.label, ne_eq, eq_nil_perm h, h.mem_iff]
  all_goals rfl

namespace Chart

variable {x : XAxis} {g : Grouping} {styles : StyleTable}

theorem linePanels_perm (h : runs.Perm runs')
    (hd : (runs.map fun r => (g.key r, x.raw r)).Nodup) (metrics : List Metric)
    (suffix : String) :
    linePanels runs x metrics g styles suffix = linePanels runs' x metrics g styles suffix := by
  rw [linePanels, linePanels, group_perm h hd, label_perm h]

theorem latest_perm {κ : Type} [DecidableEq κ] {key : Run → κ} {p : Run → Bool}
    (h : runs.Perm runs') (hd : ((runs.filter p).map key).Nodup) :
    latestBy key (runs.filter p) = runs.filter p ∧
      latestBy key (runs'.filter p) = runs'.filter p := by
  have hp := (h.filter p).map key
  exact ⟨latestBy_of_nodup key hd, latestBy_of_nodup key (hp.nodup_iff.mp hd)⟩

/-- At one producer count a payload tells the runs of an implementation and mode apart. -/
theorem nodup_configuration_payload (threads : ℕ) (p : Run → Bool)
    (hd : (runs.map fun r => (r.implementation, r.mode, r.payload, r.producers)).Nodup)
    (hp : ∀ r, p r → r.producers = threads) :
    ((runs.filter p).map (Run.configuration .payload)).Nodup := by
  apply nodup_of_nodup_map (nodup_map_filter p hd)
  intro r hr s hs he
  have hr' := hp r (List.mem_filter.mp hr).2
  have hs' := hp s (List.mem_filter.mp hs).2
  simp only [Run.configuration, XAxis.raw, Prod.mk.injEq] at he
  simp only [he, hr', hs']

theorem scalingPanels_perm {o : ScalingOptions} (h : runs.Perm runs')
    (hd : (runs.map (Run.configuration (.threads o.axis))).Nodup) (metrics : List Metric) :
    scalingPanels runs o metrics styles = scalingPanels runs' o metrics styles := by
  unfold scalingPanels
  by_cases hs : o.splitByMode
  · simp only [hs, ↓reduceIte]
    rw [modesOf_perm h]
    congr 1
    funext m
    have hk := nodup_key_raw (nodup_map_filter (fun r => decide (r.mode = m)) hd)
    rw [Grouping.infer_filter_mode] at hk
    exact linePanels_perm (h.filter _) hk metrics _
  · simp only [hs, Bool.false_eq_true, ↓reduceIte]
    rw [← Grouping.infer_perm h]
    exact linePanels_perm h (nodup_key_raw hd) metrics _

theorem scaling_perm (o : ScalingOptions) (h : runs.Perm runs')
    (hd : (runs.map fun r => (r.implementation, r.mode, r.payload, o.axis.value r)).Nodup)
    (payload : Option ℕ) :
    scaling runs payload o styles = scaling runs' payload o styles := by
  cases payload with
  | none => rfl
  | some payload =>
    have hc : ((runs.filter fun r => r.payload = payload).map
        (Run.configuration (.threads o.axis))).Nodup := by
      apply nodup_of_nodup_map (nodup_map_filter _ hd)
      intro r hr s hs he
      simp only [List.mem_filter, decide_eq_true_eq] at hr hs
      simp only [Run.configuration, XAxis.raw, Prod.mk.injEq] at he
      simp only [he, hr.2, hs.2]
    obtain ⟨hl, hl'⟩ := latest_perm h hc
    have hp := h.filter fun r => r.payload = payload
    simp only [scaling_eq, scalingRuns, hl, hl', eq_nil_perm hp, withData_perm hp,
      scalingPanels_perm hp hc]

theorem sensitivity_perm (metrics : List Metric) (h : runs.Perm runs')
    (hd : (runs.map fun r => (r.implementation, r.mode, r.payload, r.producers)).Nodup)
    (threads : Option ℕ) :
    sensitivity runs threads metrics styles = sensitivity runs' threads metrics styles := by
  cases threads with
  | none => rfl
  | some threads =>
    have hc := nodup_configuration_payload threads (fun r => r.producers = threads) hd (by simp)
    obtain ⟨hl, hl'⟩ := latest_perm h hc
    have hp := h.filter fun r => r.producers = threads
    simp only [sensitivity, sensitivityRuns, hl, hl', eq_nil_perm hp, withData_perm hp,
      ← Grouping.infer_perm hp, linePanels_perm hp (nodup_key_raw hc)]

theorem efficiency_perm (h : runs.Perm runs')
    (hd : (runs.map fun r => (r.implementation, r.mode, r.payload, r.producers)).Nodup)
    (threads : Option ℕ) :
    efficiency runs threads styles = efficiency runs' threads styles := by
  cases threads with
  | none => rfl
  | some threads =>
    have hc := nodup_configuration_payload threads
      (fun r => r.producers = threads ∧ 0 < r.payload) hd (by simp_all)
    obtain ⟨hl, hl'⟩ := latest_perm h hc
    have hp := h.filter fun r => r.producers = threads ∧ 0 < r.payload
    simp only [efficiency, efficiencyRuns, hl, hl', eq_nil_perm hp, ← Grouping.infer_perm hp,
      group_perm hp (nodup_key_raw hc), label_perm hp]

theorem percentilesOf_perm (h : runs.Perm runs') : percentilesOf runs = percentilesOf runs' := by
  unfold percentilesOf
  exact List.filter_congr fun p _ => h.any_eq

/-- At one producer count and one payload only one run of an implementation and mode is left. -/
theorem nodup_seriesKey (threads payload : ℕ) (p : Run → Bool)
    (hd : (runs.map fun r => (r.implementation, r.mode, r.payload, r.producers)).Nodup)
    (hp : ∀ r ∈ runs, p r → r.producers = threads ∧ r.payload = payload) :
    ((runs.filter p).map Run.seriesKey).Nodup := by
  apply nodup_of_nodup_map (nodup_map_filter p hd)
  intro r hr s hs he
  rw [List.mem_filter] at hr hs
  obtain ⟨ht, hq⟩ := hp r hr.1 hr.2
  obtain ⟨ht', hq'⟩ := hp s hs.1 hs.2
  simp only [Run.seriesKey, Prod.mk.injEq] at he
  simp only [he, ht, ht', hq, hq']

theorem nodup_configuration (hd : (runs.map Run.seriesKey).Nodup) :
    (runs.map (Run.configuration x)).Nodup := by
  apply nodup_of_nodup_map hd
  intro r _ s _ he
  simp only [Run.configuration, Prod.mk.injEq] at he
  simp only [Run.seriesKey, he]

theorem modePanel_perm (h : runs.Perm runs') (hd : (runs.map Run.seriesKey).Nodup)
    (m : AllocMode) :
    modePanel (runs.filter fun r => r.mode = m) m styles =
      modePanel (runs'.filter fun r => r.mode = m) m styles := by
  have hk := nodup_key_raw (x := .payload) (nodup_configuration
    (nodup_map_filter (fun r => decide (r.mode = m)) hd))
  rw [Grouping.infer_filter_mode] at hk
  have hp := h.filter fun r => r.mode = m
  simp only [modePanel, percentilesOf_perm hp, group_perm hp hk]

theorem mostThreads_perm (h : runs.Perm runs') : mostThreads runs = mostThreads runs' := by
  apply Option.ext
  intro n
  simp only [mostThreads, List.max?_eq_some_iff, (h.map _).mem_iff]

theorem distribution_perm (h : runs.Perm runs')
    (hd : (runs.map fun r => (r.implementation, r.mode, r.payload, r.producers)).Nodup)
    (payload : Option ℕ) :
    distribution runs payload styles = distribution runs' payload styles := by
  cases payload with
  | none => rfl
  | some payload =>
    have hw : (latencyRuns runs payload).Perm (latencyRuns runs' payload) := h.filter _
    simp only [distribution, mostThreads_perm hw]
    cases mostThreads (latencyRuns runs' payload) with
    | none => rfl
    | some threads =>
      have hk : (((latencyRuns runs payload).filter fun r => r.producers = threads).map
          Run.seriesKey).Nodup :=
        nodup_seriesKey threads payload _ (nodup_map_filter _ hd) (by simp_all [latencyRuns])
      obtain ⟨hl, hl'⟩ := latest_perm hw hk
      have hp := hw.filter fun r => r.producers = threads
      simp only [distributionRuns, hl, hl', modesOf_perm hp, modePanel_perm hp hk]

theorem secondaryMetric_perm (h : runs.Perm runs') :
    secondaryMetric runs = secondaryMetric runs' := by
  simp only [secondaryMetric, h.any_eq]

theorem comparison_perm (h : runs.Perm runs')
    (hd : (runs.map fun r => (r.implementation, r.mode, r.payload, r.producers)).Nodup)
    (axes : FixedAxes) : comparison runs axes styles = comparison runs' axes styles := by
  rcases axes with ⟨_ | payload, _ | threads⟩
  · rfl
  · rfl
  · rfl
  have hk := nodup_seriesKey threads payload
    (fun r => r.producers = threads ∧ r.payload = payload) hd (by simp)
  obtain ⟨hl, hl'⟩ := latest_perm h hk
  have hp := h.filter fun r => r.producers = threads ∧ r.payload = payload
  have hg := nodup_key_raw (x := .payload) (nodup_configuration hk)
  simp only [comparison, comparisonRuns, hl, hl', eq_nil_perm hp, ← Grouping.infer_perm hp,
    group_perm hp hg, secondaryMetric_perm hp]

end Chart

namespace Analysis

/-- Axes and charts are the same for every order of the runs. -/
theorem ofRuns_order_independent (o : Options) (styles : StyleTable)
    (hp : (runs.map fun r => (r.implementation, r.mode, r.payload, r.producers)).Nodup)
    (ht : (runs.map fun r => (r.implementation, r.mode, r.payload, o.axis.value r)).Nodup)
    (h : runs.Perm runs') :
    (ofRuns runs o styles).axes = (ofRuns runs' o styles).axes ∧
      (ofRuns runs o styles).charts = (ofRuns runs' o styles).charts := by
  have ha : (ofRuns runs o styles).axes = (ofRuns runs' o styles).axes := detect_perm h
  refine ⟨ha, ?_⟩
  rw [charts_ofRuns, charts_ofRuns]
  apply List.map_congr_left
  intro family _
  rw [← show FixedAxes.detect runs = FixedAxes.detect runs' from detect_perm h]
  cases family with
  | scaling => exact Chart.scaling_perm o.scaling h ht _
  | sensitivity => exact Chart.sensitivity_perm o.metrics h hp _
  | distribution => exact Chart.distribution_perm h hp _
  | efficiency => exact Chart.efficiency_perm h hp _
  | comparison => exact Chart.comparison_perm h hp _

/-- The modes stand interleaved, and both orders start with another mode. -/
theorem ofRuns_order_independent_interleaved :
    let a := Run.ofThroughput "spsc" .heap 1 1 0 10
    let b := Run.ofThroughput "spsc" .pooled 1 1 0 20
    let c := Run.ofThroughput "spsc" .heap 2 2 0 30
    let o := { Options.default with axis := .total }
    (ofRuns [a, b, c] o StyleTable.default).axes = (ofRuns [b, c, a] o StyleTable.default).axes ∧
      (ofRuns [a, b, c] o StyleTable.default).charts =
        (ofRuns [b, c, a] o StyleTable.default).charts :=
  ofRuns_order_independent _ _ (by decide) (by decide) (by decide)

end Analysis

end QueueBench
