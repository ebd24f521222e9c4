import QueueBench.Proofs.AtPoint
import QueueBench.Proofs.OrderIndependence
import QueueBench.Proofs.Partition

/-! # The comparison of implementations

From the runs at one producer count and one payload to the bars: the last run of each
implementation and mode, in the order of names with heap before pooled, its throughput, and
beside it one more metric, chosen by what those last runs measured. -/
namespace QueueBench

variable {runs shown : List Run} {styles : StyleTable} {axes : FixedAxes} {c : Chart}
variable {r s : Run}

/-- Names in the order of their bytes, heap before pooled. -/
def Run.Before (r s : Run) : Prop :=
  Text.encode r.implementation < Text.encode s.implementation ∨
    r.implementation = s.implementation ∧ r.mode = .heap ∧ s.mode = .pooled

def lastRunAt (runs : List Run) (threads payload : ℕ) (m : AllocMode) (i : String) :
    Option Run :=
  lastWhere (fun r => (r.producers = threads ∧ r.payload = payload) ∧ r.mode = m ∧
    r.implementation = i) runs

structure LastRunsAt (runs : List Run) (threads payload : ℕ) (shown : List Run) : Prop where
  ascending : shown.Pairwise Run.Before
  mem_iff : ∀ r, r ∈ shown ↔ lastRunAt runs threads payload r.mode r.implementation = some r
  occurs_iff : ∀ m i, (∃ r ∈ shown, r.mode = m ∧ r.implementation = i) ↔
    ∃ r ∈ runs, (r.producers = threads ∧ r.payload = payload) ∧ r.mode = m ∧
      r.implementation = i

namespace Grouping

variable {g : Grouping}

def ordered (g : Grouping) (runs : List Run) : List Run :=
  runs.mergeSort fun r s => (g.key r).le (g.key s)

theorem ordered_perm (g : Grouping) (runs : List Run) : (g.ordered runs).Perm runs :=
  List.mergeSort_perm _ _

/-- Where no two runs share a key, the keys in order are those of the runs in order. -/
theorem map_key_ordered (hd : (runs.map g.key).Nodup) :
    (g.ordered runs).map g.key = g.keys runs := by
  have hsorted : ((g.ordered runs).map g.key).Pairwise fun a b => SeriesKey.le a b := by
    rw [List.pairwise_map]
    apply List.pairwise_mergeSort
    · intro a b d
      exact SeriesKey.orders.trans (g.key a) (g.key b) (g.key d)
    · intro a b
      exact SeriesKey.orders.total (g.key a) (g.key b)
  have hperm := (ordered_perm g runs).map g.key
  apply SeriesKey.orders.eq_of_mem_iff hsorted (pairwise_keys g runs)
    (hperm.nodup_iff.mpr hd) (nodup_keys g runs)
  intro k
  rw [hperm.mem_iff, mem_keys, List.mem_map]

theorem before_of_key (h : (g.key r).Before (g.key s)) : r.Before s := by
  rcases h with hlt | ⟨hi, hm⟩
  · cases g <;> exact Or.inl hlt
  · cases g with
    | byImplementation => simp [key] at hm
    | byImplementationAndMode =>
      refine Or.inr ⟨hi, ?_⟩
      simpa [key] using hm

theorem pairwise_ordered (hd : (runs.map g.key).Nodup) :
    (g.ordered runs).Pairwise Run.Before := by
  have hkeys := pairwise_before g runs
  rw [← map_key_ordered hd, List.pairwise_map] at hkeys
  exact hkeys.imp before_of_key

end Grouping

/-- Where no two runs share a key, each group of bars is a run. -/
theorem barGroups_eq_map_ordered {g : Grouping} {x : XAxis} (hd : (runs.map g.key).Nodup)
    (metrics : List Metric) :
    barGroups (group runs g x styles) metrics = (g.ordered runs).map fun r =>
      ⟨(g.key r).label, styles.style r.implementation r.mode,
        metrics.map fun q => q.value r⟩ := by
  rw [barGroups, group, ← Grouping.map_key_ordered hd, List.map_map, List.map_map]
  apply List.map_congr_left
  intro r hr
  exact barGroup_ofKey hd ((Grouping.ordered_perm g runs).mem_iff.mp hr) metrics

namespace Chart

def comparedRuns (runs : List Run) (threads payload : ℕ) : List Run :=
  (Grouping.infer (comparisonRuns runs threads payload)).ordered
    (comparisonRuns runs threads payload)

theorem comparedRuns_perm (runs : List Run) (threads payload : ℕ) :
    (comparedRuns runs threads payload).Perm (comparisonRuns runs threads payload) :=
  Grouping.ordered_perm _ _

theorem lastRunsAt_comparedRuns (runs : List Run) (threads payload : ℕ) :
    LastRunsAt runs threads payload (comparedRuns runs threads payload) where
  ascending := Grouping.pairwise_ordered (nodup_infer_key (nodup_comparisonRuns _ _ _))
  mem_iff _ := (comparedRuns_perm _ _ _).mem_iff.trans mem_latestBy_seriesKey_iff
  occurs_iff m i := by
    simp only [(comparedRuns_perm runs threads payload).mem_iff]
    exact exists_latestBy_seriesKey_iff

def MixesModes (shown : List Run) : Prop :=
  (∃ r ∈ shown, r.mode = .heap) ∧ ∃ r ∈ shown, r.mode = .pooled

instance (shown : List Run) : Decidable (MixesModes shown) :=
  inferInstanceAs (Decidable (_ ∧ _))

/-- The mode is told only where both occur. -/
def barLabel (shown : List Run) (r : Run) : String :=
  if MixesModes shown then s!"{r.implementation} ({r.mode.name})" else r.implementation

theorem mixesModes_iff : MixesModes runs ↔ Grouping.infer runs = .byImplementationAndMode := by
  have hinfer : Grouping.infer runs = .byImplementation ↔
      ∀ a ∈ runs, ∀ b ∈ runs, a.mode = b.mode := Grouping.infer_eq_byImplementation_iff
  constructor
  · rintro ⟨⟨a, ha, hm⟩, b, hb, hn⟩
    cases hg : Grouping.infer runs with
    | byImplementationAndMode => rfl
    | byImplementation =>
      have hab := hinfer.mp hg a ha b hb
      rw [hm, hn] at hab
      cases hab
  · intro hg
    by_contra hmixed
    have huniform : ∀ a ∈ runs, ∀ b ∈ runs, a.mode = b.mode := by
      intro a ha b hb
      cases hm : a.mode <;> cases hn : b.mode
      · rfl
      · exact (hmixed ⟨⟨a, ha, hm⟩, b, hb, hn⟩).elim
      · exact (hmixed ⟨⟨b, hb, hn⟩, a, ha, hm⟩).elim
      · rfl
    rw [hinfer.mpr huniform] at hg
    cases hg

theorem label_infer_key (runs : List Run) (r : Run) :
    ((Grouping.infer runs).key r).label = barLabel runs r := by
  by_cases hmixed : MixesModes runs
  · rw [barLabel, if_pos hmixed, mixesModes_iff.mp hmixed]
    rfl
  · rw [barLabel, if_neg hmixed]
    cases hg : Grouping.infer runs with
    | byImplementation => rfl
    | byImplementationAndMode => exact (hmixed (mixesModes_iff.mpr hg)).elim

theorem barLabel_perm (h : runs.Perm shown) (r : Run) : barLabel runs r = barLabel shown r := by
  rw [← label_infer_key, ← label_infer_key, Grouping.infer_perm h]

def barPanel (shown : List Run) (styles : StyleTable) (q : Metric)
    (height : Run → Option Float) : Panel :=
  { title := s!"{q.title} Comparison"
    xLabel := ""
    yLabel := q.label
    scale := .linear
    limit := none
    body := .bars [q.title] (shown.map fun r =>
      ⟨barLabel shown r, styles.style r.implementation r.mode, [height r]⟩) }

theorem comparisonPanel_eq (hd : (runs.map Run.seriesKey).Nodup) (q : Metric) :
    comparisonPanel (group runs (Grouping.infer runs) .payload styles) q =
      barPanel ((Grouping.infer runs).ordered runs) styles q q.value := by
  have hgroups : barGroups (group runs (Grouping.infer runs) .payload styles) [q] =
      ((Grouping.infer runs).ordered runs).map fun r =>
        ⟨barLabel ((Grouping.infer runs).ordered runs) r,
          styles.style r.implementation r.mode, [q.value r]⟩ := by
    rw [barGroups_eq_map_ordered (nodup_infer_key hd)]
    apply List.map_congr_left
    intro r _
    rw [label_infer_key, barLabel_perm (Grouping.ordered_perm _ runs).symm, List.map_singleton]
  rw [barPanel, ← hgroups]
  rfl

/-- What stands beside the throughput: depths where one of the runs has one, else the tail
latencies, and nothing where the runs have neither. -/
def secondPanel (shown : List Run) (styles : StyleTable) : Option Panel :=
  if ∃ r ∈ shown, r.maxDepth.isSome then
    some (barPanel shown styles .maxDepth fun r => r.maxDepth.map Float.ofNat)
  else if ∃ r ∈ shown, r.latency.p99.isSome then
    some (barPanel shown styles (.latency .p99) fun r => r.latency.p99.map Double.value)
  else none

theorem map_secondaryMetric (shown : List Run) (styles : StyleTable) :
    (secondaryMetric shown).map (fun q => barPanel shown styles q q.value) =
      secondPanel shown styles := by
  have hdepth : (shown.any fun r => (Metric.maxDepth.value r).isSome) ↔
      ∃ r ∈ shown, r.maxDepth.isSome := by
    simp only [List.any_eq_true, Metric.value, Option.isSome_map]
  have htail : (shown.any fun r => ((Metric.latency .p99).value r).isSome) ↔
      ∃ r ∈ shown, r.latency.p99.isSome := by
    simp only [List.any_eq_true, Metric.value, Latency.get, Option.isSome_map]
  rw [secondaryMetric, secondPanel, List.find?_cons, List.find?_cons]
  by_cases hd : ∃ r ∈ shown, r.maxDepth.isSome
  · rw [if_pos hd, hdepth.mpr hd]
    rfl
  rw [if_neg hd, Bool.eq_false_iff.mpr (mt hdepth.mp hd)]
  by_cases ht : ∃ r ∈ shown, r.latency.p99.isSome
  · rw [if_pos ht, htail.mpr ht]
    rfl
  · rw [if_neg ht, Bool.eq_false_iff.mpr (mt htail.mp ht)]
    rfl

theorem length_secondPanel (shown : List Run) (styles : StyleTable) :
    (secondPanel shown styles).toList.length = 1 ↔
      ∃ r ∈ shown, r.maxDepth.isSome ∨ r.latency.p99.isSome := by
  unfold secondPanel
  by_cases hd : ∃ r ∈ shown, r.maxDepth.isSome
  · obtain ⟨r, hr, hv⟩ := hd
    rw [if_pos ⟨r, hr, hv⟩]
    exact ⟨fun _ => ⟨r, hr, Or.inl hv⟩, fun _ => rfl⟩
  rw [if_neg hd]
  by_cases ht : ∃ r ∈ shown, r.latency.p99.isSome
  · obtain ⟨r, hr, hv⟩ := ht
    rw [if_pos ⟨r, hr, hv⟩]
    exact ⟨fun _ => ⟨r, hr, Or.inr hv⟩, fun _ => rfl⟩
  · rw [if_neg ht]
    refine ⟨nofun, ?_⟩
    rintro ⟨r, hr, hv | hv⟩
    · exact (hd ⟨r, hr, hv⟩).elim
    · exact (ht ⟨r, hr, hv⟩).elim

/-- The bars are the last runs of the point, first by throughput, then by depth or tail latency
where one of these runs has it. -/
theorem comparison_shows_last_runs (h : comparison runs axes styles = .ok c) :
    ∃ threads payload shown, axes = ⟨some payload, some threads⟩ ∧
      LastRunsAt runs threads payload shown ∧
      c.panels = barPanel shown styles .throughput (fun r => some r.throughput.value) ::
        (secondPanel shown styles).toList ∧
      (c.panels.length = 2 ↔ ∃ r ∈ shown, r.maxDepth.isSome ∨ r.latency.p99.isSome) := by
  obtain ⟨threads, payload, haxes, _, hpanels⟩ := panels_of_comparison h
  have hperm := comparedRuns_perm runs threads payload
  have hpanel : comparisonPanel (group (comparisonRuns runs threads payload)
      (Grouping.infer (comparisonRuns runs threads payload)) .payload styles) =
      fun q => barPanel (comparedRuns runs threads payload) styles q q.value := by
    funext q
    exact comparisonPanel_eq (nodup_comparisonRuns runs threads payload) q
  have hshown : c.panels = barPanel (comparedRuns runs threads payload) styles .throughput
      (fun r => some r.throughput.value) ::
        (secondPanel (comparedRuns runs threads payload) styles).toList := by
    rw [hpanels, hpanel, comparedMetrics, secondaryMetric_perm hperm.symm,
      ← map_secondaryMetric, Option.toList_map]
    rfl
  refine ⟨threads, payload, _, haxes, lastRunsAt_comparedRuns runs threads payload, hshown, ?_⟩
  rw [hshown, List.length_cons, Nat.succ_inj, length_secondPanel]

/-- The only depths of the point belong to a run that was repeated without one, and both modes
of one implementation were run. -/
def shadowedRuns : List Run :=
  [{ Run.ofThroughput "hp" .pooled 2 2 100 10 with maxDepth := some 7 },
   { Run.ofThroughput "ebr" .heap 2 2 100 20 with latency := { Latency.none with p99 := some 5 } },
   .ofThroughput "hp" .pooled 2 2 100 30, .ofThroughput "hp" .heap 2 2 100 40,
   { Run.ofThroughput "hp" .heap 4 4 100 50 with maxDepth := some 9 }]

theorem comparison_shows_last_runs_shadowed :
    ∃ c shown, comparison shadowedRuns ⟨some 100, some 2⟩ .default = .ok c ∧
      LastRunsAt shadowedRuns 2 100 shown ∧ MixesModes shown ∧
      c.panels = [barPanel shown .default .throughput fun r => some r.throughput.value,
        barPanel shown .default (.latency .p99) fun r => r.latency.p99.map Double.value] := by
  obtain ⟨c, hc⟩ : ∃ c, comparison shadowedRuns ⟨some 100, some 2⟩ .default = .ok c := ⟨_, rfl⟩
  obtain ⟨threads, payload, shown, haxes, hlast, hpanels, _⟩ := comparison_shows_last_runs hc
  obtain ⟨hpayload, hthreads⟩ := FixedAxes.mk.inj haxes
  obtain rfl := Option.some.inj hpayload
  obtain rfl := Option.some.inj hthreads
  have hheap : shadowedRuns[1] ∈ shown := (hlast.mem_iff _).mpr (by decide)
  have hpooled : shadowedRuns[2] ∈ shown := (hlast.mem_iff _).mpr (by decide)
  have hdepth : ¬ ∃ r ∈ shown, r.maxDepth.isSome := by
    have hnone : ∀ r ∈ shadowedRuns, lastRunAt shadowedRuns 2 100 r.mode r.implementation =
        some r → ¬ r.maxDepth.isSome := by decide
    rintro ⟨r, hr, hd⟩
    have hl := (hlast.mem_iff r).mp hr
    exact hnone r (lastWhere_some hl).1 hl hd
  have htail : ∃ r ∈ shown, r.latency.p99.isSome := ⟨_, hheap, rfl⟩
  refine ⟨c, shown, hc, hlast, ⟨⟨_, hheap, rfl⟩, _, hpooled, rfl⟩, ?_⟩
  rw [hpanels, secondPanel, if_neg hdepth, if_pos htail]
  rfl

end Chart

end QueueBench
