import Mathlib.Order.Bounds.Basic
import QueueBench.Proofs.Agreement

/-! # Summary and scaling chart

The summary averages all runs at a thread count, and the scaling chart shows the latest run of
each implementation and mode there. A repeated run changes neither set of thread counts, so
both start and end a sweep at the same ones. -/
namespace QueueBench

variable {runs : List Run} {styles : StyleTable} {axis : ThreadAxis} {s : Sweep} {c : Chart}
variable {i : String} {m : AllocMode} {payload column x : ℕ}

def threadCounts (runs : List Run) (axis : ThreadAxis) : Set ℕ := {x | ∃ r ∈ runs, axis.value r = x}

namespace ThreadScaling

/-- A sweep over these thread counts, from its least to its greatest, with the mean at each. -/
structure Spans (t : ThreadScaling) (counts : Set ℕ) (mean : ℕ → Float) : Prop where
  least : IsLeast counts t.fromThreads
  greatest : IsGreatest counts t.toThreads
  lt : t.fromThreads < t.toThreads
  fromMean : t.fromThroughput = mean t.fromThreads
  toMean : t.toThroughput = mean t.toThreads

theorem min?_eq_some_iff : (runs.map axis.value).min? = some x ↔
    IsLeast (threadCounts runs axis) x := by
  rw [List.min?_eq_some_iff, List.mem_map]
  refine and_congr_right fun _ => ?_
  simp [lowerBounds, threadCounts]

theorem max?_eq_some_iff : (runs.map axis.value).max? = some x ↔
    IsGreatest (threadCounts runs axis) x := by
  rw [List.max?_eq_some_iff, List.mem_map]
  refine and_congr_right fun _ => ?_
  simp [upperBounds, threadCounts]

theorem spans_of_ofSweep {t : ThreadScaling} (h : ofSweep runs axis = some t) :
    t.Spans (threadCounts runs axis) (meanAt runs axis) := by
  simp only [ofSweep, Option.bind_eq_bind, Option.bind_eq_some_iff] at h
  obtain ⟨a, ha, b, hb, h⟩ := h
  have hleast := min?_eq_some_iff.mp ha
  have hgreatest := max?_eq_some_iff.mp hb
  split at h
  · cases h
  rename_i hne
  split at h
  · cases h
  obtain rfl := Option.some.inj h
  exact ⟨hleast, hgreatest, Nat.lt_of_le_of_ne (hgreatest.2 hleast.1) hne, rfl, rfl⟩

/-- Two thread counts are enough, unless there is nothing to compare with. -/
theorem ofSweep_eq_none_iff (h : (threadCounts runs axis).Nontrivial) :
    ∃ x, IsLeast (threadCounts runs axis) x ∧
      (ofSweep runs axis = none ↔ meanAt runs axis x ≤ 0) := by
  obtain ⟨a, ha, b, hb, hab⟩ := h
  have hne : runs.map axis.value ≠ [] := List.ne_nil_of_mem (List.mem_map.mpr ha)
  obtain ⟨low, hlow⟩ := Option.ne_none_iff_exists'.mp (mt List.min?_eq_none_iff.mp hne)
  obtain ⟨high, hhigh⟩ := Option.ne_none_iff_exists'.mp (mt List.max?_eq_none_iff.mp hne)
  have hleast := min?_eq_some_iff.mp hlow
  have hgreatest := max?_eq_some_iff.mp hhigh
  have hlt : low ≠ high := by
    rintro rfl
    have ha := Nat.le_antisymm (hgreatest.2 ha) (hleast.2 ha)
    have hb := Nat.le_antisymm (hgreatest.2 hb) (hleast.2 hb)
    exact hab (ha.trans hb.symm)
  refine ⟨low, hleast, ?_⟩
  simp only [ofSweep, hlow, hhigh, Option.bind_eq_bind, Option.bind_some, if_neg hlt]
  split
  · rename_i hm
    exact ⟨fun _ => hm, fun _ => rfl⟩
  · rename_i hm
    exact ⟨nofun, fun h => (hm h).elim⟩

end ThreadScaling

namespace Summary

def sweepRuns (runs : List Run) (implementation : String) (payload : ℕ) : List Run :=
  (runs.filter fun r => r.implementation = implementation).filter fun r => r.payload = payload

theorem mem_sweepRuns {r : Run} :
    r ∈ sweepRuns runs i payload ↔ r ∈ runs ∧ r.implementation = i ∧ r.payload = payload := by
  rw [sweepRuns, List.mem_filter, List.mem_filter, decide_eq_true_eq, decide_eq_true_eq, and_assoc]

theorem exists_entry {i : String} (h : runs ≠ []) (payload : Option ℕ) (axis : ThreadAxis) :
    ∃ e, ImplementationSummary.ofRuns i runs payload axis = some e ∧ e.implementation = i ∧
      e.scaling = payload.bind fun payload =>
        ThreadScaling.ofSweep (runs.filter fun r => r.payload = payload) axis := by
  cases runs with
  | nil => exact (h rfl).elim
  | cons r rest => exact ⟨_, rfl, rfl, rfl⟩

theorem mem_names : i ∈ names runs ↔ ∃ r ∈ runs, r.implementation = i := by
  rw [names, mem_distinct, List.mem_map]

theorem runs_ne_nil_of_mem_names (h : i ∈ names runs) :
    (runs.filter fun r => r.implementation = i) ≠ [] := by
  obtain ⟨r, hr, hi⟩ := mem_names.mp h
  exact List.ne_nil_of_mem (List.mem_filter.mpr ⟨hr, by simpa using hi⟩)

/-- One entry for each implementation that occurs, in the order of names. -/
theorem map_implementation (runs : List Run) (payload : Option ℕ) (axis : ThreadAxis) :
    (ofRuns runs payload axis).implementations.map ImplementationSummary.implementation =
      names runs := by
  rw [ofRuns, List.map_filterMap]
  have hn : ∀ n ∈ names runs, (ImplementationSummary.ofRuns n
      (runs.filter fun r => r.implementation = n) payload axis).map
        ImplementationSummary.implementation = some n := by
    intro n hn
    obtain ⟨e, he, hi, _⟩ := exists_entry (i := n) (runs_ne_nil_of_mem_names hn) payload axis
    rw [he, Option.map_some, hi]
  rw [List.filterMap_congr hn, List.filterMap_some]

theorem scaling_of_mem {e : ImplementationSummary} {payload : Option ℕ}
    (h : e ∈ (ofRuns runs payload axis).implementations) :
    e.scaling = payload.bind fun payload =>
      ThreadScaling.ofSweep (sweepRuns runs e.implementation payload) axis := by
  obtain ⟨n, hn, he⟩ := List.mem_filterMap.mp h
  obtain ⟨e', he', hi, hs⟩ := exists_entry (i := n) (runs_ne_nil_of_mem_names hn) payload axis
  obtain rfl := Option.some.inj (he.symm.trans he')
  rw [hs, hi]
  rfl

end Summary

namespace Sweep

/-- The thread counts at which a series of the implementation has a point, in any mode. -/
def plotted (s : Sweep) (runs : List Run) (c : Chart) (column : ℕ) (i : String) : Set ℕ :=
  {x | ∃ m y, s.HasPoint runs c column i m ⟨Float.ofNat x, y⟩}

/-- A run that is replaced leaves another one at its axis value. -/
theorem exists_latest_at_iff :
    (∃ r ∈ s.latest runs, r.implementation = i ∧ s.axis.raw r = x) ↔
      ∃ r ∈ runs, s.selects r ∧ r.implementation = i ∧ s.axis.raw r = x := by
  constructor
  · rintro ⟨r, hr, hi, hx⟩
    obtain ⟨hr, hs⟩ := of_mem_latestBy_filter _ hr
    exact ⟨r, hr, hs, hi, hx⟩
  · rintro ⟨r, hr, hs, rfl, rfl⟩
    obtain ⟨a, ha, hk⟩ := exists_mem_latestBy (Run.configuration s.axis)
      (List.mem_filter.mpr ⟨hr, hs⟩)
    simp only [Run.configuration, Prod.mk.injEq] at hk
    exact ⟨a, ha, hk.1, hk.2.2⟩

theorem mem_plotted_throughput (hf : ∀ r ∈ runs, r.Fits) (h : s.chart runs styles = .ok c)
    (hq : (s.metrics runs)[column]? = some .throughput) :
    x ∈ s.plotted runs c column i ↔
      ∃ r ∈ runs, s.selects r ∧ r.implementation = i ∧ s.axis.raw r = x := by
  rw [← exists_latest_at_iff]
  constructor
  · rintro ⟨m, y, hp⟩
    obtain ⟨r, hr, hi, _, hx, _⟩ := (hasPoint_iff hf h hq).mp hp
    exact ⟨r, hr, hi, hx⟩
  -- No run lacks a throughput, so each one that is kept has a point.
  · rintro ⟨r, hr, hi, hx⟩
    exact ⟨r.mode, r.throughput.value, (hasPoint_iff hf h hq).mpr ⟨r, hr, hi, rfl, hx, rfl⟩⟩

theorem exists_plotted_of_hasPoint (h : s.chart runs styles = .ok c) {q : Metric} {p : Point}
    (hq : (s.metrics runs)[column]? = some q) (hp : s.HasPoint runs c column i m p) :
    ∃ x ∈ s.plotted runs c column i, p.x = Float.ofNat x := by
  obtain ⟨spot, hspot, l, hl, he, hmem⟩ := hp
  obtain ⟨r, _, _, hx, _⟩ := exists_run_of_point h hq hl hmem
  have hx : Float.ofNat (s.axis.raw r) = p.x := hx
  refine ⟨s.axis.raw r, ⟨m, p.y, spot, hspot, l, hl, he, ?_⟩, hx.symm⟩
  rwa [hx]

end Sweep

namespace Analysis

variable {o : Options}

/-- Mean throughput of all runs of an implementation at a payload and a thread count, as they
stand in the list. -/
def meanThroughput (runs : List Run) (axis : ThreadAxis) (implementation : String)
    (payload threads : ℕ) : Float :=
  Number.mean ((runs.filter fun r => r.implementation = implementation ∧ r.payload = payload ∧
    axis.value r = threads).map fun r => r.throughput.value)

theorem meanAt_sweepRuns (runs : List Run) (axis : ThreadAxis) (i : String) (payload : ℕ) :
    ThreadScaling.meanAt (Summary.sweepRuns runs i payload) axis =
      meanThroughput runs axis i payload := by
  funext x
  rw [ThreadScaling.meanAt, meanThroughput, Summary.sweepRuns, List.filter_filter,
    List.filter_filter]
  congr 3
  funext r
  rw [Bool.eq_iff_iff]
  simp only [Bool.and_eq_true, decide_eq_true_eq]
  tauto

/-- The thread counts of the throughput lines are those of the runs behind the summary. -/
theorem plotted_scaling {o : Chart.ScalingOptions} (hf : ∀ r ∈ runs, r.Fits)
    (h : (Sweep.scaling (some payload) o).chart runs styles = .ok c)
    (hq : ((Sweep.scaling (some payload) o).metrics runs)[column]? = some .throughput)
    (i : String) :
    (Sweep.scaling (some payload) o).plotted runs c column i =
      threadCounts (Summary.sweepRuns runs i payload) o.axis := by
  ext x
  rw [Sweep.mem_plotted_throughput hf h hq]
  refine exists_congr fun r => ?_
  rw [Summary.mem_sweepRuns, Sweep.selects, decide_eq_true_eq, Option.some.injEq]
  constructor
  · rintro ⟨hr, rfl, hi, hx⟩
    exact ⟨⟨hr, hi, rfl⟩, hx⟩
  · rintro ⟨⟨hr, hi, rfl⟩, hx⟩
    exact ⟨hr, rfl, hi, hx⟩

/-- Each entry of the summary starts and ends its sweep where the throughput lines of its
implementation start and end, and averages all runs there. -/
theorem summary_agrees_with_scaling (o : Options) (styles : StyleTable)
    (hf : ∀ r ∈ runs, r.Fits) (ht : .throughput ∈ o.metrics) :
    let a := ofRuns runs o styles
    (a.summary.implementations.map ImplementationSummary.implementation).Nodup ∧
    (runs ≠ [] → ∃ payload, a.axes.payload = some payload ∧ a.Builds .scaling ∧
      .throughput ∈ (Sweep.scaling (some payload) o.scaling).metrics runs) ∧
    ∀ payload, a.axes.payload = some payload → ∀ c ∈ a.built, c.family = .scaling →
      let s := Sweep.scaling (some payload) o.scaling
      ∀ column, (s.metrics runs)[column]? = some .throughput → ∀ i,
        let counts := s.plotted runs c column i
        let mean := meanThroughput runs o.axis i payload
        (∀ m p, s.HasPoint runs c column i m p → ∃ x ∈ counts, p.x = Float.ofNat x) ∧
        (∀ e ∈ a.summary.implementations, e.implementation = i →
          ∀ t, e.scaling = some t → t.Spans counts mean) ∧
        (counts.Nontrivial → ∃ e ∈ a.summary.implementations, e.implementation = i ∧
          ∃ x, IsLeast counts x ∧ (e.scaling = none ↔ mean x ≤ 0)) := by
  intro a
  have hnames : a.summary.implementations.map ImplementationSummary.implementation =
      Summary.names runs := Summary.map_implementation runs _ o.axis
  refine ⟨?_, ?_, ?_⟩
  · rw [hnames]
    exact nodup_distinct _
  · intro hne
    obtain ⟨payload, hp⟩ := exists_widestSweep hne Run.payload Run.producers
    obtain ⟨r, hr⟩ := exists_latest_scaling hp o.scaling
    exact ⟨payload, hp, builds_scaling hp hr ht, throughput_mem_withData hr ht⟩
  · intro payload hp c hc hcf s column hq i counts mean
    have hp : (FixedAxes.detect runs).payload = some payload := hp
    have hc : s.chart runs styles = .ok c := by
      have hc := outcome_of_mem_built hc hcf
      rwa [outcome_eq, hp] at hc
    have hcounts : counts = threadCounts (Summary.sweepRuns runs i payload) o.axis :=
      plotted_scaling hf hc hq i
    have hscaling : ∀ e ∈ a.summary.implementations, e.implementation = i →
        e.scaling = ThreadScaling.ofSweep (Summary.sweepRuns runs i payload) o.axis := by
      rintro e he rfl
      rw [Summary.scaling_of_mem he, hp, Option.bind_some]
    rw [hcounts]
    refine ⟨?_, ?_, ?_⟩
    · intro m p hpoint
      rw [← hcounts]
      exact Sweep.exists_plotted_of_hasPoint hc hq hpoint
    · intro e he hi t ht
      rw [hscaling e he hi] at ht
      have hspans := ThreadScaling.spans_of_ofSweep ht
      rwa [meanAt_sweepRuns] at hspans
    · intro htwo
      obtain ⟨x, hx, hnone⟩ := ThreadScaling.ofSweep_eq_none_iff htwo
      rw [meanAt_sweepRuns] at hnone
      obtain ⟨_, r, hr, _⟩ := htwo.nonempty
      obtain ⟨hr, hi, _⟩ := Summary.mem_sweepRuns.mp hr
      have hmem := Summary.mem_names.mpr ⟨r, hr, hi⟩
      rw [← hnames, List.mem_map] at hmem
      obtain ⟨e, he, hi⟩ := hmem
      refine ⟨e, he, hi, x, hx, ?_⟩
      rw [hscaling e he hi]
      exact hnone

/-- Modes at different thread counts, one of which is run twice. -/
def unevenRuns : List Run :=
  [Run.ofThroughput "spsc" .heap 1 1 100 10,
   Run.ofThroughput "spsc" .pooled 4 4 100 40,
   Run.ofThroughput "spsc" .heap 1 1 100 30,
   Run.ofThroughput "spsc" .pooled 8 8 50 90]

/-- The entry ranges over both modes, and the run that the chart replaces counts in its mean. -/
theorem summary_agrees_with_scaling_uneven :
    ∃ e ∈ (ofRuns unevenRuns .default .default).summary.implementations,
      e.implementation = "spsc" ∧ ∃ t, e.scaling = some t ∧
        t.fromThreads = 1 ∧ t.toThreads = 4 ∧ t.fromThroughput = 20 := by
  have hf : ∀ r ∈ unevenRuns, r.Fits := by decide
  obtain ⟨_, hbuilt, hagree⟩ := summary_agrees_with_scaling .default .default hf (by decide)
  obtain ⟨payload, hp, ⟨c, hc, hcf⟩, _⟩ := hbuilt (by decide)
  have haxes : FixedAxes.detect unevenRuns = ⟨some 100, some 1⟩ := by cbv
  obtain rfl := Option.some.inj (hp.symm.trans (congrArg FixedAxes.payload haxes))
  have hq : ((Sweep.scaling (some 100) Options.default.scaling).metrics unevenRuns)[0]? =
      some .throughput := by decide
  obtain ⟨_, hspans, htwo⟩ := hagree 100 hp c hc hcf 0 hq "spsc"
  have hcounts : (Sweep.scaling (some 100) Options.default.scaling).plotted unevenRuns c 0 "spsc" =
      threadCounts (Summary.sweepRuns unevenRuns "spsc" 100) .producers := by
    have hc := outcome_of_mem_built hc hcf
    rw [haxes] at hc
    exact plotted_scaling hf hc hq "spsc"
  simp only [hcounts] at hspans htwo
  have hfrom := ThreadScaling.min?_eq_some_iff.mp (show ((Summary.sweepRuns unevenRuns "spsc"
    100).map ThreadAxis.producers.value).min? = some 1 by decide)
  have hto := ThreadScaling.max?_eq_some_iff.mp (show ((Summary.sweepRuns unevenRuns "spsc"
    100).map ThreadAxis.producers.value).max? = some 4 by decide)
  obtain ⟨e, he, hi, x, hx, hnone⟩ := htwo ⟨1, hfrom.1, 4, hto.1, by decide⟩
  obtain rfl := hx.unique hfrom
  have hpositive : ¬ meanThroughput unevenRuns .producers "spsc" 100 1 ≤ 0 := by decide +kernel
  obtain ⟨t, ht⟩ := Option.ne_none_iff_exists'.mp (mt hnone.mp hpositive)
  have hspan := hspans e he hi t ht
  have hone := hspan.least.unique hfrom
  refine ⟨e, he, hi, t, ht, hone, hspan.greatest.unique hto, ?_⟩
  rw [hspan.fromMean, hone]
  decide +kernel

end Analysis

end QueueBench
