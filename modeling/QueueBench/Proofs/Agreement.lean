import QueueBench.Proofs.Outcomes

/-! # Agreement of the charts

The builders select the latest runs by different filters, in different orders and under
different keys. At the point that two charts share, these choices come to the same runs, so
the charts show the same values there. -/
namespace QueueBench

variable {runs : List Run} {styles : StyleTable} {c d : Chart} {q : Metric} {column x : ℕ}
variable {i : String} {m : AllocMode} {r : Run} {y : Float}

namespace Sweep

variable {s : Sweep}

/-- Where the axis value is fixed as well, it makes no difference whether the runs are narrowed
down before or after the latest are taken. -/
theorem mem_latest_at : r ∈ s.latest runs ∧ s.axis.raw r = x ↔
    r ∈ latestBy Run.seriesKey (runs.filter fun r => s.selects r ∧ s.axis.raw r = x) := by
  -- At one axis value the configuration says no more than implementation and mode.
  constructor
  · rintro ⟨hr, hx⟩
    have hs := (of_mem_latestBy_filter _ hr).2
    apply mem_latestBy_of_imp hr
    · simp [hs, hx]
    · intro b hb hp
      rw [decide_eq_true_eq] at hp
      obtain ⟨hi, hm⟩ := Prod.mk.inj hb
      refine ⟨?_, hp.1⟩
      rw [Run.configuration, Run.configuration, hi, hm, hp.2, hx]
  · intro h
    have hp := (of_mem_latestBy_filter _ h).2
    rw [decide_eq_true_eq] at hp
    refine ⟨?_, hp.2⟩
    apply mem_latestBy_of_imp h hp.1
    intro b hb hs
    simp only [Run.configuration, Prod.mk.injEq] at hb
    obtain ⟨hi, hm, hx⟩ := hb
    refine ⟨Prod.ext hi hm, ?_⟩
    rw [decide_eq_true_eq]
    exact ⟨hs, hx.trans hp.2⟩

def Meets (s : Sweep) (x threads payload : ℕ) : Prop :=
  ∀ r, s.selects r ∧ s.axis.raw r = x ↔ r.producers = threads ∧ r.payload = payload

theorem meets_scaling {o : Chart.ScalingOptions} (ha : o.axis = .producers)
    (threads payload : ℕ) : (scaling (some payload) o).Meets threads threads payload := by
  intro r
  simp [selects, axis, XAxis.raw, ha, ThreadAxis.value, eq_comm, and_comm]

theorem meets_sensitivity (requested : List Metric) (threads payload : ℕ) :
    (sensitivity (some threads) requested).Meets payload threads payload := by
  intro r
  simp [selects, axis, XAxis.raw, eq_comm]

theorem Meets.mem_comparisonRuns {threads payload : ℕ} (h : s.Meets x threads payload) :
    r ∈ Chart.comparisonRuns runs threads payload ↔ r ∈ s.latest runs ∧ s.axis.raw r = x := by
  rw [mem_latest_at, Chart.comparisonRuns]
  simp only [h _]

/-- The points of a chart where it meets the comparison are the runs there. -/
theorem Meets.hasPoint_iff {threads payload : ℕ} (h : s.Meets x threads payload)
    (hf : ∀ r ∈ runs, r.Fits) (hc : s.chart runs styles = .ok c)
    (hq : (s.metrics runs)[column]? = some q) :
    s.HasPoint runs c column i m ⟨Float.ofNat x, y⟩ ↔
      ∃ r ∈ Chart.comparisonRuns runs threads payload,
        r.implementation = i ∧ r.mode = m ∧ q.value r = some y := by
  rw [Sweep.hasPoint_iff hf hc hq]
  constructor
  · rintro ⟨r, hr, hi, hmode, hx, hy⟩
    exact ⟨r, h.mem_comparisonRuns.mpr ⟨hr, hx⟩, hi, hmode, hy⟩
  · rintro ⟨r, hr, hi, hmode, hy⟩
    obtain ⟨hr, hx⟩ := h.mem_comparisonRuns.mp hr
    exact ⟨r, hr, hi, hmode, hx, hy⟩

end Sweep

theorem throughput_mem_withData {metrics : List Metric} (hr : r ∈ runs)
    (ht : .throughput ∈ metrics) : .throughput ∈ Metric.withData runs metrics :=
  Chart.mem_withData.mpr ⟨ht, r, hr, rfl⟩

namespace Chart

variable {payload threads : ℕ}

section Comparison

/-- A built comparison has a run at its point. -/
theorem exists_mem_comparisonRuns
    (h : comparison runs ⟨some payload, some threads⟩ styles = .ok c) :
    ∃ r, r ∈ comparisonRuns runs threads payload :=
  List.exists_mem_of_ne_nil _ (exists_ok_of_ne_nil_iff.mp ⟨c, h⟩)

theorem compares_throughput_iff (h : comparison runs ⟨some payload, some threads⟩ styles = .ok c) :
    c.Compares (comparisonRuns runs threads payload) .throughput i m y ↔
      ∃ r ∈ comparisonRuns runs threads payload,
        r.implementation = i ∧ r.mode = m ∧ Metric.throughput.value r = some y := by
  obtain ⟨threads', payload', haxes, _, hp⟩ := panels_of_comparison h
  obtain ⟨hpayload, hthreads⟩ := FixedAxes.mk.inj haxes
  obtain rfl := Option.some.inj hpayload
  obtain rfl := Option.some.inj hthreads
  exact compares_iff (nodup_comparisonRuns runs threads payload) hp List.mem_cons_self

theorem compares_iff_hasPoint {s : Sweep} (hm : s.Meets x threads payload)
    (hf : ∀ r ∈ runs, r.Fits)
    (hc : comparison runs ⟨some payload, some threads⟩ styles = .ok c)
    (hd : s.chart runs styles = .ok d) (hq : (s.metrics runs)[column]? = some .throughput) :
    c.Compares (comparisonRuns runs threads payload) .throughput i m y ↔
      s.HasPoint runs d column i m ⟨Float.ofNat x, y⟩ := by
  rw [compares_throughput_iff hc, hm.hasPoint_iff hf hd hq]

end Comparison

section Distribution

variable {p : Percentile} {y' : Float}

/-- Runs without latency are left out first here, but that brings no other run to the front of
one that has a latency. -/
theorem mem_distributionRuns (h : r ∈ comparisonRuns runs threads payload)
    (hl : r.latency.isEmpty = false) :
    r ∈ distributionRuns (latencyRuns runs payload) threads := by
  have hp := (of_mem_latestBy_filter _ h).2
  rw [decide_eq_true_eq] at hp
  rw [distributionRuns, latencyRuns, List.filter_filter]
  apply mem_latestBy_of_imp h
  · simp [hp, hl]
  · intro b hb hq
    refine ⟨hb, ?_⟩
    simp only [Bool.and_eq_true, decide_eq_true_eq] at hq ⊢
    exact ⟨hq.1, hq.2.1⟩

/-- One run decides the bar of its implementation, its mode and a percentile. -/
theorem distributes_iff_eq (hd : (runs.map Run.seriesKey).Nodup)
    (hp : c.panels = (modesOf runs).filterMap fun mode =>
      modePanel (runs.filter fun r => r.mode = mode) mode styles)
    (hr : r ∈ runs) (hy : (Metric.latency p).value r = some y) :
    c.Distributes p r.implementation r.mode y' ↔ y' = y := by
  rw [distributes_iff hd hp]
  constructor
  · rintro ⟨a, ha, hi, hm, hv⟩
    obtain rfl := List.inj_on_of_nodup_map hd ha hr (Prod.ext hi hm)
    exact Option.some.inj (hv.symm.trans hy)
  · rintro rfl
    exact ⟨r, hr, rfl, rfl, hy⟩

theorem distributes_iff_of_hasPoint {s : Sweep} (hm : s.Meets x threads payload)
    (hf : ∀ r ∈ runs, r.Fits)
    (hp : c.panels = (modesOf (distributionRuns (latencyRuns runs payload) threads)).filterMap
      fun mode => modePanel ((distributionRuns (latencyRuns runs payload) threads).filter
        fun r => r.mode = mode) mode styles)
    (hd : s.chart runs styles = .ok d) (hq : (s.metrics runs)[column]? = some (.latency p))
    (hpoint : s.HasPoint runs d column i m ⟨Float.ofNat x, y⟩) :
    c.Distributes p i m y' ↔ y' = y := by
  obtain ⟨r, hr, rfl, rfl, hy⟩ := (hm.hasPoint_iff hf hd hq).mp hpoint
  have hl : r.latency.isEmpty = false :=
    Latency.isEmpty_eq_false_iff.mpr ⟨p, isSome_latency_of_value hy⟩
  exact distributes_iff_eq (nodup_distributionRuns _ _) hp (mem_distributionRuns hr hl) hy

end Distribution

end Chart

namespace Analysis

variable {o : Options}

theorem outcome_of_mem_built {f : Family} (h : c ∈ (ofRuns runs o styles).built)
    (hf : c.family = f) : outcome runs (FixedAxes.detect runs) o styles f = .ok c :=
  hf ▸ mem_built.mp h

/-- Where the comparison meets a chart of lines it shows the same throughput, and a latency
that the scaling chart shows where it meets the distribution stands there as well. -/
theorem figures_agree (o : Options) (styles : StyleTable) (hf : ∀ r ∈ runs, r.Fits)
    (ha : o.axis = .producers) (ht : .throughput ∈ o.metrics) :
    (∀ c ∈ (ofRuns runs o styles).built, c.family = .comparison → ∃ payload threads,
      let scaling := Sweep.scaling (some payload) o.scaling
      let sensitivity := Sweep.sensitivity (some threads) o.metrics
      (ofRuns runs o styles).axes = ⟨some payload, some threads⟩ ∧
      (ofRuns runs o styles).Builds .scaling ∧ .throughput ∈ scaling.metrics runs ∧
      (ofRuns runs o styles).Builds .sensitivity ∧ .throughput ∈ sensitivity.metrics runs ∧
      (∀ d ∈ (ofRuns runs o styles).built, d.family = .scaling →
        ∀ column, (scaling.metrics runs)[column]? = some .throughput → ∀ i m y,
          c.Compares (Chart.comparisonRuns runs threads payload) .throughput i m y ↔
            scaling.HasPoint runs d column i m ⟨Float.ofNat threads, y⟩) ∧
      ∀ d ∈ (ofRuns runs o styles).built, d.family = .sensitivity →
        ∀ column, (sensitivity.metrics runs)[column]? = some .throughput → ∀ i m y,
          c.Compares (Chart.comparisonRuns runs threads payload) .throughput i m y ↔
            sensitivity.HasPoint runs d column i m ⟨Float.ofNat payload, y⟩) ∧
    ∀ c ∈ (ofRuns runs o styles).built, c.family = .distribution → ∃ payload threads,
      let scaling := Sweep.scaling (some payload) o.scaling
      (ofRuns runs o styles).axes.payload = some payload ∧
      Chart.mostThreads (Chart.latencyRuns runs payload) = some threads ∧
      c.title = s!"Latency distribution (P={threads}, payload={payload}μs)" ∧
      ∀ d ∈ (ofRuns runs o styles).built, d.family = .scaling →
        ∀ p column, (scaling.metrics runs)[column]? = some (.latency p) → ∀ i m y,
          scaling.HasPoint runs d column i m ⟨Float.ofNat threads, y⟩ →
            ∀ y', c.Distributes p i m y' ↔ y' = y := by
  constructor
  · intro c hc hcf
    have hc := outcome_of_mem_built hc hcf
    obtain ⟨threads, payload, haxes, _⟩ := Chart.panels_of_comparison hc
    rw [haxes] at hc
    obtain ⟨r, hr⟩ := Chart.exists_mem_comparisonRuns hc
    have hscaling := Sweep.meets_scaling (o := o.scaling) ha threads payload
    have hsensitivity := Sweep.meets_sensitivity o.metrics threads payload
    have hrs := (hscaling.mem_comparisonRuns.mp hr).1
    have hrn := (hsensitivity.mem_comparisonRuns.mp hr).1
    refine ⟨payload, threads, haxes, ?_, throughput_mem_withData hrs ht, ?_,
      throughput_mem_withData hrn ht, ?_, ?_⟩
    · exact builds_scaling (congrArg FixedAxes.payload haxes) hrs ht
    · rw [builds_iff, haxes]
      rw [Sweep.latest_sensitivity] at hrn
      exact Chart.exists_sensitivity_iff.mpr ⟨_, ht, r, hrn, rfl⟩
    · intro d hd hdf column hq i m y
      have hd := outcome_of_mem_built hd hdf
      rw [haxes] at hd
      exact Chart.compares_iff_hasPoint hscaling hf hc hd hq
    · intro d hd hdf column hq i m y
      have hd := outcome_of_mem_built hd hdf
      rw [haxes] at hd
      exact Chart.compares_iff_hasPoint hsensitivity hf hc hd hq
  · intro c hc hcf
    obtain ⟨payload, threads, hpayload, hmost, htitle, _, hp⟩ :=
      Chart.panels_of_distribution (outcome_of_mem_built hc hcf)
    refine ⟨payload, threads, hpayload, hmost, htitle, ?_⟩
    intro d hd hdf p column hq i m y hpoint y'
    have hd := outcome_of_mem_built hd hdf
    rw [outcome_eq, hpayload] at hd
    have hscaling := Sweep.meets_scaling (o := o.scaling) ha threads payload
    exact Chart.distributes_iff_of_hasPoint hscaling hf hp hd hq hpoint

/-- A later run without latency repeats the first one. -/
def repeatedRuns : List Run :=
  let latency (y : Double) : Latency := { Latency.none with p99 := some y }
  [{ Run.ofThroughput "spsc" .heap 2 2 100 10 with latency := latency 5 },
   { Run.ofThroughput "mpmc" .heap 2 2 100 30 with latency := latency 7 },
   Run.ofThroughput "spsc" .heap 2 2 100 20]

def repeatedSweep : Sweep := .scaling (some 100) Options.default.scaling

/-- The comparison takes the later run, and the bar of the other implementation is the one
latency that the scaling chart shows. -/
theorem figures_agree_repeated :
    let a := ofRuns repeatedRuns .default .default
    (∃ c ∈ a.built, c.family = .comparison ∧
      c.Compares (Chart.comparisonRuns repeatedRuns 2 100) .throughput "spsc" .heap 20) ∧
    ∃ c ∈ a.built, c.family = .distribution ∧ ∀ y, c.Distributes .p99 "mpmc" .heap y ↔ y = 7 := by
  have hf : ∀ r ∈ repeatedRuns, r.Fits := by decide
  obtain ⟨hcomparison, hdistribution⟩ := figures_agree .default .default hf rfl (by decide)
  have haxes : FixedAxes.detect repeatedRuns = ⟨some 100, some 2⟩ := by cbv
  obtain ⟨d, hd, hdf⟩ : (ofRuns repeatedRuns .default .default).Builds .scaling :=
    builds_of_detect haxes ⟨_, rfl⟩
  have hscaling := outcome_of_mem_built hd hdf
  rw [haxes] at hscaling
  have hpoint {q : Metric} (i : String) (y : Float) {column : ℕ}
      (hq : (repeatedSweep.metrics repeatedRuns)[column]? = some q) :=
    Sweep.hasPoint_iff (s := repeatedSweep) (i := i) (m := .heap) (x := 2) (y := y) hf hscaling hq
  constructor
  · obtain ⟨c, hc, hcf⟩ : (ofRuns repeatedRuns .default .default).Builds .comparison :=
      builds_of_detect haxes ⟨_, rfl⟩
    obtain ⟨payload, threads, hpt, _, _, _, _, hs, _⟩ := hcomparison c hc hcf
    obtain ⟨hp, ht⟩ := FixedAxes.mk.inj (hpt.symm.trans haxes)
    obtain rfl := Option.some.inj hp
    obtain rfl := Option.some.inj ht
    have hq : (repeatedSweep.metrics repeatedRuns)[0]? = some .throughput := by decide
    exact ⟨c, hc, hcf, (hs d hd hdf 0 hq _ _ _).mpr ((hpoint "spsc" 20 hq).mpr (by decide))⟩
  · obtain ⟨c, hc, hcf⟩ : (ofRuns repeatedRuns .default .default).Builds .distribution :=
      builds_of_detect haxes ⟨_, rfl⟩
    obtain ⟨payload, threads, hp, ht, _, hs⟩ := hdistribution c hc hcf
    obtain rfl := Option.some.inj (hp.symm.trans (congrArg FixedAxes.payload haxes))
    obtain rfl : threads = 2 := by
      have hm : Chart.mostThreads (Chart.latencyRuns repeatedRuns 100) = some 2 := by decide
      exact Option.some.inj (ht.symm.trans hm)
    have hq : (repeatedSweep.metrics repeatedRuns)[1]? = some (.latency .p99) := by decide
    exact ⟨c, hc, hcf, hs d hd hdf .p99 1 hq _ _ _ ((hpoint "mpmc" 7 hq).mpr (by decide))⟩

end Analysis

end QueueBench
