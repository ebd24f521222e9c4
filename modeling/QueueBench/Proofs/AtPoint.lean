import QueueBench.Proofs.Bars

/-! # Charts at one point

The bars of both charts stand for the latest run of each implementation and mode at their
point. The comparison keeps all series in one panel and tells them apart by label, the
distribution has a panel for each mode. -/
namespace QueueBench

theorem Percentile.mem_all (p : Percentile) : p ∈ Percentile.all := by
  cases p <;> decide

theorem Percentile.label_injective {p q : Percentile} (h : p.label = q.label) : p = q := by
  revert h
  cases p <;> cases q <;> decide

theorem Latency.isEmpty_eq_false_iff {l : Latency} :
    l.isEmpty = false ↔ ∃ p, (l.get p).isSome := by
  rw [isEmpty, List.all_eq_false]
  constructor
  · rintro ⟨p, _, hp⟩
    exact ⟨p, by simpa [Option.isSome_iff_ne_none] using hp⟩
  · rintro ⟨p, hp⟩
    exact ⟨p, p.mem_all, by simpa [Option.isSome_iff_ne_none] using hp⟩

namespace Chart

variable {runs : List Run} {styles : StyleTable} {c : Chart} {i : String} {m : AllocMode}

theorem nodup_infer_key (h : (runs.map Run.seriesKey).Nodup) :
    (runs.map (Grouping.infer runs).key).Nodup :=
  nodup_of_nodup_map h fun _ hr _ hs he => Grouping.infer_key_inj hr hs he

section Comparison

variable {axes : FixedAxes} {threads payload : ℕ}

def comparedMetrics (runs : List Run) : List Metric :=
  .throughput :: (secondaryMetric runs).toList

theorem nodup_comparisonRuns (runs : List Run) (threads payload : ℕ) :
    ((comparisonRuns runs threads payload).map Run.seriesKey).Nodup :=
  nodup_keys_latestBy _ _

theorem panels_of_comparison (h : comparison runs axes styles = .ok c) :
    ∃ threads payload, axes = ⟨some payload, some threads⟩ ∧ c.columns = c.panels.length ∧
      c.panels = (comparedMetrics (comparisonRuns runs threads payload)).map
        (comparisonPanel (group (comparisonRuns runs threads payload)
          (Grouping.infer (comparisonRuns runs threads payload)) .payload styles)) := by
  rcases axes with ⟨_ | payload, _ | threads⟩
  · cases h
  · cases h
  · cases h
  simp only [comparison] at h
  split at h
  · cases h
  obtain rfl := Except.ok.inj h
  exact ⟨threads, payload, rfl, rfl, rfl⟩

theorem mem_comparedMetrics {q : Metric} (h : q ∈ comparedMetrics runs) :
    q ∈ [Metric.throughput, .maxDepth, .latency .p99] := by
  rcases List.mem_cons.mp h with rfl | h
  · exact List.mem_cons_self
  · exact List.mem_cons_of_mem _ (List.mem_of_find?_eq_some (Option.mem_toList.mp h))

theorem title_comparisonPanel_injective {series : List Series} {q q' : Metric}
    (hq : q ∈ comparedMetrics runs) (hq' : q' ∈ comparedMetrics runs)
    (h : (comparisonPanel series q).title = (comparisonPanel series q').title) : q = q' := by
  have hi : ∀ a ∈ [Metric.throughput, .maxDepth, .latency .p99],
      ∀ b ∈ [Metric.throughput, .maxDepth, .latency .p99],
        s!"{a.title} Comparison" = s!"{b.title} Comparison" → a = b := by decide
  exact hi q (mem_comparedMetrics hq) q' (mem_comparedMetrics hq') h

def Compares (c : Chart) (runs : List Run) (q : Metric) (implementation : String)
    (mode : AllocMode) (y : Float) : Prop :=
  ∃ label, labelAmong runs implementation mode = some label ∧
    c.HasBar s!"{q.title} Comparison" label q.title y

theorem compares_iff {q : Metric} {y : Float} (hd : (runs.map Run.seriesKey).Nodup)
    (hp : c.panels = (comparedMetrics runs).map
      (comparisonPanel (group runs (Grouping.infer runs) .payload styles)))
    (hq : q ∈ comparedMetrics runs) :
    c.Compares runs q i m y ↔
      ∃ r ∈ runs, r.implementation = i ∧ r.mode = m ∧ q.value r = some y := by
  have hb (label : String) :
      (comparisonPanel (group runs (Grouping.infer runs) .payload styles) q).body.HasBar
        label q.title y ↔
      q ∈ [q] ∧ ∃ r ∈ runs, ((Grouping.infer runs).key r).label = label ∧ q.value r = some y := by
    refine hasBar_iff Metric.title id [q] (nodup_infer_key hd) ?_
    intro b hb _
    exact List.mem_singleton.mp hb
  constructor
  · rintro ⟨label, hl, p, hm, ht, hbar⟩
    rw [hp, List.mem_map] at hm
    obtain ⟨q', hq', rfl⟩ := hm
    obtain rfl := title_comparisonPanel_injective hq' hq ht
    obtain ⟨_, r, hr, he, hv⟩ := (hb label).mp hbar
    have hlr := labelAmong_of_mem hr
    rw [he] at hlr
    obtain ⟨hi, hmode⟩ := labelAmong_injective hlr hl
    exact ⟨r, hr, hi, hmode, hv⟩
  · rintro ⟨r, hr, rfl, rfl, hv⟩
    refine ⟨_, labelAmong_of_mem hr, _, hp ▸ List.mem_map_of_mem hq, rfl, ?_⟩
    exact (hb _).mpr ⟨List.mem_singleton_self q, r, hr, rfl, hv⟩

end Comparison

section Distribution

theorem mostThreads_eq_none_iff : mostThreads runs = none ↔ runs = [] := by
  rw [mostThreads, List.max?_eq_none_iff, List.map_eq_nil_iff]

theorem mem_percentilesOf {p : Percentile} :
    p ∈ percentilesOf runs ↔ ∃ r ∈ runs, (r.latency.get p).isSome := by
  simp [percentilesOf, p.mem_all]

/-- A percentile of a run stands in the panel of its mode. -/
theorem mem_percentilesOf_row {r : Run} {p : Percentile} (hr : r ∈ runs)
    (hp : (r.latency.get p).isSome) : p ∈ percentilesOf (runs.filter fun a => a.mode = r.mode) :=
  mem_percentilesOf.mpr ⟨r, List.mem_filter.mpr ⟨hr, decide_eq_true rfl⟩, hp⟩

theorem isSome_value_latency {r : Run} {p : Percentile} :
    ((Metric.latency p).value r).isSome ↔ (r.latency.get p).isSome := by
  rw [Metric.value, Option.isSome_map]

theorem isSome_latency_of_value {r : Run} {p : Percentile} {y : Float}
    (h : (Metric.latency p).value r = some y) : (r.latency.get p).isSome :=
  isSome_value_latency.mp (Option.isSome_of_eq_some h)

theorem nodup_distributionRuns (runs : List Run) (threads : ℕ) :
    ((distributionRuns runs threads).map Run.seriesKey).Nodup :=
  nodup_keys_latestBy _ _

theorem nodup_key_filter_mode (hd : (runs.map Run.seriesKey).Nodup) (m : AllocMode) :
    ((runs.filter fun r => r.mode = m).map Grouping.byImplementation.key).Nodup := by
  have hn := nodup_infer_key (nodup_map_filter (fun r => decide (r.mode = m)) hd)
  rwa [Grouping.infer_filter_mode] at hn

theorem panels_of_distribution {fixedPayload : Option ℕ}
    (h : distribution runs fixedPayload styles = .ok c) :
    ∃ payload threads, fixedPayload = some payload ∧
      mostThreads (latencyRuns runs payload) = some threads ∧
      c.title = s!"Latency distribution (P={threads}, payload={payload}μs)" ∧
      c.columns = c.panels.length ∧
      c.panels = (modesOf (distributionRuns (latencyRuns runs payload) threads)).filterMap
        fun mode => modePanel ((distributionRuns (latencyRuns runs payload) threads).filter
          fun r => r.mode = mode) mode styles := by
  cases fixedPayload with
  | none => cases h
  | some payload =>
    simp only [distribution] at h
    split at h
    · cases h
    rename_i threads ht
    obtain rfl := Except.ok.inj h
    exact ⟨payload, threads, rfl, ht, rfl, rfl, rfl⟩

/-- A panel of a mode has the percentiles that occur, and the runs as groups. -/
theorem modePanel_eq_some {p : Panel} (h : modePanel runs m styles = some p) :
    p.title = allocationTitle m ∧ p.body = .bars ((percentilesOf runs).map Percentile.label)
      (barGroups (group runs .byImplementation .payload styles)
        ((percentilesOf runs).map Metric.latency)) := by
  simp only [modePanel] at h
  split at h
  · cases h
  · obtain rfl := Option.some.inj h
    refine ⟨rfl, ?_⟩
    simp only [barGroups, List.map_map]
    rfl

theorem exists_modePanel (h : percentilesOf runs ≠ []) (m : AllocMode) (styles : StyleTable) :
    ∃ p, modePanel runs m styles = some p :=
  ⟨_, if_neg h⟩

def Distributes (c : Chart) (p : Percentile) (implementation : String) (mode : AllocMode)
    (y : Float) : Prop :=
  c.HasBar (allocationTitle mode) implementation p.label y

theorem allocationTitle_injective {n : AllocMode} (h : allocationTitle m = allocationTitle n) :
    m = n := by
  revert h
  cases m <;> cases n <;> decide

theorem distributes_iff {p : Percentile} {y : Float} (hd : (runs.map Run.seriesKey).Nodup)
    (hp : c.panels = (modesOf runs).filterMap fun mode =>
      modePanel (runs.filter fun r => r.mode = mode) mode styles) :
    c.Distributes p i m y ↔
      ∃ r ∈ runs, r.implementation = i ∧ r.mode = m ∧ (Metric.latency p).value r = some y := by
  have hb : (PanelBody.bars ((percentilesOf (runs.filter fun r => r.mode = m)).map
        Percentile.label)
      (barGroups (group (runs.filter fun r => r.mode = m) .byImplementation .payload styles)
        ((percentilesOf (runs.filter fun r => r.mode = m)).map Metric.latency))).HasBar
        i p.label y ↔
      p ∈ percentilesOf (runs.filter fun r => r.mode = m) ∧
        ∃ r ∈ runs.filter fun r => r.mode = m, (Grouping.byImplementation.key r).label = i ∧
          (Metric.latency p).value r = some y :=
    hasBar_iff _ _ _ (nodup_key_filter_mode hd m) fun _ _ he => Percentile.label_injective he
  constructor
  · rintro ⟨panel, hm, ht, hbar⟩
    rw [hp, List.mem_filterMap] at hm
    obtain ⟨mode, _, hpanel⟩ := hm
    obtain ⟨htitle, hbody⟩ := modePanel_eq_some hpanel
    obtain rfl := allocationTitle_injective (htitle.symm.trans ht)
    rw [hbody] at hbar
    obtain ⟨_, r, hr, hi, hv⟩ := hb.mp hbar
    obtain ⟨hr, hmode⟩ := List.mem_filter.mp hr
    exact ⟨r, hr, hi, by simpa using hmode, hv⟩
  · rintro ⟨r, hr, rfl, rfl, hv⟩
    have hrm : r ∈ runs.filter fun a => a.mode = r.mode := List.mem_filter.mpr ⟨hr, by simp⟩
    have hpr := mem_percentilesOf_row hr (isSome_latency_of_value hv)
    obtain ⟨panel, hpanel⟩ := exists_modePanel (List.ne_nil_of_mem hpr) r.mode styles
    obtain ⟨htitle, hbody⟩ := modePanel_eq_some hpanel
    refine ⟨panel, ?_, htitle, ?_⟩
    · rw [hp]
      exact List.mem_filterMap.mpr ⟨r.mode, mem_modesOf.mpr ⟨r, hr, rfl⟩, hpanel⟩
    · rw [hbody]
      exact hb.mpr ⟨hpr, r, hrm, rfl, hv⟩

end Distribution

end Chart

end QueueBench
