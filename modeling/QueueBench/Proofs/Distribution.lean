import Mathlib.Order.Bounds.Basic
import QueueBench.Proofs.AtPoint

/-! # The latency distribution

From the runs that measured a latency at the payload to the bars: the greatest producer count
among them, a panel for each mode that was run there, a group for each implementation, and in it
the percentiles of the latest run. -/
namespace QueueBench

variable {runs measured : List Run} {styles : StyleTable} {payload threads : ℕ}
variable {i : String} {m : AllocMode} {r : Run}

theorem forall₂_filterMap_of_forall {α β : Type} {f : α → Option β} {R : β → α → Prop}
    {as : List α} (h : ∀ a ∈ as, ∃ b, f a = some b ∧ R b a) :
    List.Forall₂ R (as.filterMap f) as := by
  induction as with
  | nil => exact .nil
  | cons a as ih =>
    obtain ⟨b, hb, hr⟩ := h a List.mem_cons_self
    rw [List.filterMap_cons_some hb]
    exact .cons hr (ih fun a ha => h a (List.mem_cons_of_mem _ ha))

def measuredRuns (runs : List Run) (payload : ℕ) : List Run :=
  runs.filter fun r => r.payload = payload ∧ ∃ p ∈ Percentile.all, (r.latency.get p).isSome

def lastRun (measured : List Run) (threads : ℕ) (m : AllocMode) (i : String) : Option Run :=
  lastWhere (fun r => r.producers = threads ∧ r.mode = m ∧ r.implementation = i) measured

namespace Grouping

theorem eq_of_mem_keys {k : SeriesKey} (h : k ∈ byImplementation.keys runs) :
    k = ⟨k.implementation, none⟩ := by
  obtain ⟨r, _, rfl⟩ := mem_keys.mp h
  rfl

def names (runs : List Run) : List String :=
  (byImplementation.keys runs).map SeriesKey.implementation

theorem mem_names : i ∈ names runs ↔ ∃ r ∈ runs, r.implementation = i := by
  rw [names, List.mem_map]
  constructor
  · rintro ⟨k, hk, rfl⟩
    obtain ⟨r, hr, rfl⟩ := mem_keys.mp hk
    exact ⟨r, hr, rfl⟩
  · rintro ⟨r, hr, rfl⟩
    exact ⟨_, mem_keys.mpr ⟨r, hr, rfl⟩, rfl⟩

theorem pairwise_names (runs : List Run) : (names runs).Pairwise (· < ·) := by
  rw [names, List.pairwise_map]
  have hp := (pairwise_keys byImplementation runs).and (nodup_keys byImplementation runs)
  refine hp.imp_of_mem ?_
  rintro a b ha hb ⟨hle, hne⟩
  rcases SeriesKey.le_iff.mp hle with hlt | ⟨he, _⟩
  · exact hlt
  · rw [eq_of_mem_keys ha, eq_of_mem_keys hb, he] at hne
    exact (hne rfl).elim

end Grouping

namespace Chart

theorem latencyRuns_eq (runs : List Run) (payload : ℕ) :
    latencyRuns runs payload = measuredRuns runs payload := by
  unfold latencyRuns measuredRuns
  apply List.filter_congr
  intro r _
  have hl : r.latency.isEmpty = false ↔ ∃ p ∈ Percentile.all, (r.latency.get p).isSome := by
    simp [Latency.isEmpty_eq_false_iff, Percentile.mem_all]
  simp only [hl]

theorem mostThreads_eq_some_iff : mostThreads measured = some threads ↔
    IsGreatest {n | ∃ r ∈ measured, r.producers = n} threads := by
  rw [mostThreads, List.max?_eq_some_iff, List.mem_map]
  refine and_congr_right fun _ => ?_
  simp [upperBounds]

/-- A run is left exactly when it is the last one of its implementation and mode. -/
theorem mem_distributionRuns_iff : r ∈ distributionRuns measured threads ↔
    lastRun measured threads r.mode r.implementation = some r :=
  mem_latestBy_seriesKey_iff

theorem exists_distributionRuns_iff :
    (∃ r ∈ distributionRuns measured threads, r.mode = m ∧ r.implementation = i) ↔
      ∃ r ∈ measured, r.producers = threads ∧ r.mode = m ∧ r.implementation = i :=
  exists_latestBy_seriesKey_iff

/-- One group for each implementation that was run in the mode, with its last run, and those
percentiles that one of the last runs has. -/
structure ShowsMode (measured : List Run) (threads : ℕ) (styles : StyleTable) (p : Panel)
    (m : AllocMode) (names : List String) (percentiles : List Percentile) : Prop where
  title : p.title = allocationTitle m
  ascending : names.Pairwise (· < ·)
  mem_names : ∀ i, i ∈ names ↔
    ∃ r ∈ measured, r.producers = threads ∧ r.mode = m ∧ r.implementation = i
  percentiles_eq : percentiles = Percentile.all.filter fun q =>
    names.any fun i => ((lastRun measured threads m i).bind fun r => r.latency.get q).isSome
  body : p.body = .bars (percentiles.map Percentile.label) (names.map fun i =>
    ⟨i, styles.style i m,
      percentiles.map fun q => (lastRun measured threads m i).bind (Metric.latency q).value⟩)

section Mode

def modeRuns (measured : List Run) (threads : ℕ) (m : AllocMode) : List Run :=
  (distributionRuns measured threads).filter fun r => r.mode = m

theorem mode_of_mem_modeRuns (hr : r ∈ modeRuns measured threads m) : r.mode = m :=
  of_decide_eq_true (List.mem_filter.mp hr).2

theorem lastRun_of_mem_modeRuns (hr : r ∈ modeRuns measured threads m) :
    lastRun measured threads m r.implementation = some r := by
  rw [← mode_of_mem_modeRuns hr]
  exact mem_distributionRuns_iff.mp (List.mem_filter.mp hr).1

theorem mem_names_modeRuns : i ∈ Grouping.names (modeRuns measured threads m) ↔
    ∃ r ∈ measured, r.producers = threads ∧ r.mode = m ∧ r.implementation = i := by
  rw [Grouping.mem_names, ← exists_distributionRuns_iff]
  simp [modeRuns, and_assoc]

theorem percentilesOf_modeRuns (measured : List Run) (threads : ℕ) (m : AllocMode) :
    percentilesOf (modeRuns measured threads m) = Percentile.all.filter fun q =>
      (Grouping.names (modeRuns measured threads m)).any fun i =>
        ((lastRun measured threads m i).bind fun r => r.latency.get q).isSome := by
  unfold percentilesOf
  apply List.filter_congr
  intro q _
  rw [Bool.eq_iff_iff, List.any_eq_true, List.any_eq_true]
  constructor
  · rintro ⟨r, hr, hv⟩
    refine ⟨_, Grouping.mem_names.mpr ⟨r, hr, rfl⟩, ?_⟩
    rwa [lastRun_of_mem_modeRuns hr, Option.bind_some]
  · rintro ⟨i, hi, hv⟩
    obtain ⟨r, hr, rfl⟩ := Grouping.mem_names.mp hi
    rw [lastRun_of_mem_modeRuns hr, Option.bind_some] at hv
    exact ⟨r, hr, hv⟩

theorem barGroups_modeRuns (percentiles : List Percentile) :
    barGroups (group (modeRuns measured threads m) .byImplementation .payload styles)
        (percentiles.map Metric.latency) =
      (Grouping.names (modeRuns measured threads m)).map fun i => ⟨i, styles.style i m,
        percentiles.map fun q => (lastRun measured threads m i).bind (Metric.latency q).value⟩ := by
  rw [Grouping.names, List.map_map]
  apply barGroups_eq_map (nodup_key_filter_mode (nodup_distributionRuns measured threads) m)
  intro r hr
  have hl := lastRun_of_mem_modeRuns hr
  have hm := mode_of_mem_modeRuns hr
  simp only [Function.comp_apply, Grouping.key, SeriesKey.label, hl, hm, List.map_map,
    Option.bind_some]
  rfl

theorem exists_modePanel_shows (hm : m ∈ modesOf (distributionRuns measured threads))
    (hv : ∀ r ∈ measured, ∃ p, (r.latency.get p).isSome) (styles : StyleTable) :
    ∃ p, modePanel (modeRuns measured threads m) m styles = some p ∧ ∃ names percentiles,
      ShowsMode measured threads styles p m names percentiles := by
  obtain ⟨r, hr, rfl⟩ := mem_modesOf.mp hm
  obtain ⟨q, hq⟩ := hv r (of_mem_latestBy_filter _ hr).1
  obtain ⟨p, hp⟩ :=
    exists_modePanel (List.ne_nil_of_mem (mem_percentilesOf_row hr hq)) r.mode styles
  obtain ⟨htitle, hbody⟩ := modePanel_eq_some hp
  refine ⟨p, hp, _, _, htitle, Grouping.pairwise_names _, fun i => mem_names_modeRuns,
    percentilesOf_modeRuns measured threads r.mode, ?_⟩
  rw [hbody]
  exact congrArg _ (barGroups_modeRuns _)

end Mode

theorem modesOf_distributionRuns (measured : List Run) (threads : ℕ) :
    modesOf (distributionRuns measured threads) = [AllocMode.heap, .pooled].filter fun m =>
      ∃ r ∈ measured, r.producers = threads ∧ r.mode = m := by
  unfold modesOf
  apply List.filter_congr
  intro m _
  rw [Bool.eq_iff_iff, List.any_eq_true, decide_eq_true_eq]
  simp only [decide_eq_true_eq]
  constructor
  · rintro ⟨r, hr, rfl⟩
    obtain ⟨s, hs, ht, hm, _⟩ := exists_distributionRuns_iff.mp ⟨r, hr, rfl, rfl⟩
    exact ⟨s, hs, ht, hm⟩
  · rintro ⟨r, hr, ht, rfl⟩
    obtain ⟨s, hs, hm, _⟩ := exists_distributionRuns_iff.mpr ⟨r, hr, ht, rfl, rfl⟩
    exact ⟨s, hs, hm⟩

/-- Without a measured latency there is no chart. Otherwise it stands at the greatest producer
count that measured one, with a panel for each mode that was run there. -/
theorem distribution_shows_last_runs (runs : List Run) (payload : ℕ) (styles : StyleTable) :
    (measuredRuns runs payload = [] → distribution runs (some payload) styles =
      .error ⟨.distribution, s!"no latency data at payload {payload}μs"⟩) ∧
    (measuredRuns runs payload ≠ [] → ∃ threads c,
      IsGreatest {n | ∃ r ∈ measuredRuns runs payload, r.producers = n} threads ∧
      distribution runs (some payload) styles = .ok c ∧
      c.title = s!"Latency distribution (P={threads}, payload={payload}μs)" ∧
      c.columns = c.panels.length ∧
      List.Forall₂ (fun p m => ∃ names percentiles,
          ShowsMode (measuredRuns runs payload) threads styles p m names percentiles) c.panels
        ([AllocMode.heap, .pooled].filter fun m =>
          ∃ r ∈ measuredRuns runs payload, r.producers = threads ∧ r.mode = m)) := by
  have hv : ∀ r ∈ measuredRuns runs payload, ∃ p, (r.latency.get p).isSome := by
    intro r hr
    obtain ⟨_, p, _, hp⟩ := of_decide_eq_true (List.mem_filter.mp hr).2
    exact ⟨p, hp⟩
  simp only [distribution, latencyRuns_eq]
  constructor
  · intro h
    rw [h]
    rfl
  · intro h
    obtain ⟨threads, ht⟩ := Option.ne_none_iff_exists'.mp (mt mostThreads_eq_none_iff.mp h)
    simp only [ht]
    refine ⟨threads, _, mostThreads_eq_some_iff.mp ht, rfl, rfl, rfl, ?_⟩
    rw [← modesOf_distributionRuns]
    exact forall₂_filterMap_of_forall fun m hm => exists_modePanel_shows hm hv styles

/-- The sweep goes further without latency, the other mode stops before, and a later run of one
implementation lacks the percentile of its first run. -/
def patchyRuns : List Run :=
  [{ Run.ofThroughput "spsc" .heap 2 2 100 10 with latency := { Latency.none with p99 := some 5 } },
   { Run.ofThroughput "mpmc" .heap 2 2 100 20 with latency := { Latency.none with avg := some 7 } },
   { Run.ofThroughput "spsc" .heap 2 1 100 30 with latency := { Latency.none with p50 := some 6 } },
   { Run.ofThroughput "spsc" .pooled 1 1 100 40 with
      latency := { Latency.none with p99 := some 4 } },
   Run.ofThroughput "spsc" .pooled 4 4 100 50]

theorem distribution_shows_last_runs_patchy :
    measuredRuns patchyRuns 100 ≠ [] ∧ ∃ c p names percentiles,
      distribution patchyRuns (some 100) .default = .ok c ∧ c.panels = [p] ∧
      ShowsMode (measuredRuns patchyRuns 100) 2 .default p .heap names percentiles := by
  have hne : measuredRuns patchyRuns 100 ≠ [] := by decide
  obtain ⟨threads, c, hgreatest, hc, _, _, hpanels⟩ :=
    (distribution_shows_last_runs patchyRuns 100 .default).2 hne
  have htwo : IsGreatest {n | ∃ r ∈ measuredRuns patchyRuns 100, r.producers = n} 2 := by
    refine ⟨by decide, ?_⟩
    rintro _ ⟨r, hr, rfl⟩
    revert r
    decide
  obtain rfl := hgreatest.unique htwo
  have hmodes : ([AllocMode.heap, .pooled].filter fun m =>
      ∃ r ∈ measuredRuns patchyRuns 100, r.producers = 2 ∧ r.mode = m) = [.heap] := by decide
  rw [hmodes, List.forall₂_cons_right_iff] at hpanels
  obtain ⟨p, rest, ⟨names, percentiles, hp⟩, hrest, hpanels⟩ := hpanels
  rw [List.forall₂_nil_right_iff] at hrest
  exact ⟨hne, c, p, names, percentiles, hc, hrest ▸ hpanels, hp⟩

end Chart

end QueueBench
