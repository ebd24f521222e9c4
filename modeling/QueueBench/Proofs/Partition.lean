import QueueBench.Proofs.Latest
import QueueBench.Proofs.Series
import QueueBench.Proofs.Text.Order

/-! # Grouping as a stable partition

Grouping loses no run and repeats none. Each run goes into the series of its own key, the series
are ordered by key, and inside a series only the axis moves runs past one another. -/
namespace QueueBench

variable {runs : List Run} {g : Grouping} {x : XAxis} {styles : StyleTable} {s : Series}

section Lists

variable {α κ : Type} [DecidableEq κ] {key : α → κ}

theorem filter_mem_cons_perm {k : κ} {ks : List κ} (hk : k ∉ ks) (as : List α) :
    (as.filter fun a => key a ∈ k :: ks).Perm
      ((as.filter fun a => key a = k) ++ as.filter fun a => key a ∈ ks) := by
  have hsplit := List.filter_append_perm (fun a => decide (key a = k))
    (as.filter fun a => key a ∈ k :: ks)
  rw [List.filter_filter, List.filter_filter] at hsplit
  have hown : (as.filter fun a => decide (key a = k) && decide (key a ∈ k :: ks)) =
      as.filter fun a => key a = k := by
    apply List.filter_congr
    intro a _
    by_cases ha : key a = k <;> simp [ha]
  have hrest : (as.filter fun a => !decide (key a = k) && decide (key a ∈ k :: ks)) =
      as.filter fun a => key a ∈ ks := by
    apply List.filter_congr
    intro a _
    by_cases ha : key a = k
    · simp [ha, hk]
    · simp [ha]
  rw [hown, hrest] at hsplit
  exact hsplit.symm

/-- The classes of distinct keys are disjoint parts. -/
theorem flatMap_filter_perm (key : α → κ) {ks : List κ} (hn : ks.Nodup) (as : List α) :
    (ks.flatMap fun k => as.filter fun a => key a = k).Perm
      (as.filter fun a => key a ∈ ks) := by
  induction ks with
  | nil => simp
  | cons k ks ih =>
    obtain ⟨hk, hn⟩ := List.nodup_cons.mp hn
    rw [List.flatMap_cons]
    exact ((ih hn).append_left _).trans (filter_mem_cons_perm hk as).symm

/-- Sorting by a measure leaves the elements of one measure as they stood. -/
theorem filter_mergeSort (f : α → ℕ) (as : List α) (n : ℕ) :
    (as.mergeSort fun a b => f a ≤ f b).filter (fun a => f a = n) =
      as.filter fun a => f a = n := by
  have hsorted : (as.filter fun a => f a = n).Pairwise fun a b => decide (f a ≤ f b) := by
    apply List.pairwise_of_forall_mem_list
    intro a ha b hb
    have ha := of_decide_eq_true (List.mem_filter.mp ha).2
    have hb := of_decide_eq_true (List.mem_filter.mp hb).2
    exact decide_eq_true (Nat.le_of_eq (ha.trans hb.symm))
  have hsub : (as.filter fun a => f a = n).Sublist (as.mergeSort fun a b => f a ≤ f b) :=
    List.sublist_mergeSort (fun a b c => by simpa using Nat.le_trans)
      (fun a b => by simpa using Nat.le_total _ _) hsorted List.filter_sublist
  have hperm := (List.mergeSort_perm as fun a b => f a ≤ f b).filter fun a => f a = n
  have hfilter := hsub.filter fun a => f a = n
  rw [List.filter_filter] at hfilter
  simp only [Bool.and_self] at hfilter
  exact (hfilter.eq_of_length hperm.length_eq.symm).symm

end Lists

namespace SeriesKey

variable {a b : SeriesKey}

/-- Implementations in the order of their bytes, and under one name no mode before heap before
pooled. -/
def Before (a b : SeriesKey) : Prop :=
  Text.encode a.implementation < Text.encode b.implementation ∨
    a.implementation = b.implementation ∧
      (a.mode, b.mode) ∈ [(none, some .heap), (none, some .pooled), (some .heap, some .pooled)]

theorem mode_before {m n : Option AllocMode} {i j : String}
    (hle : (⟨i, m⟩ : SeriesKey).modeRank ≤ (⟨j, n⟩ : SeriesKey).modeRank) (hne : m ≠ n) :
    (m, n) ∈ [(none, some AllocMode.heap), (none, some .pooled), (some .heap, some .pooled)] := by
  rcases m with _ | _ | _ <;> rcases n with _ | _ | _ <;>
    simp [modeRank, AllocMode.rank] at hle hne ⊢

theorem before_of_le (hle : a.le b) (hne : a ≠ b) : a.Before b := by
  rcases le_iff.mp hle with hlt | ⟨hi, hm⟩
  · exact Or.inl (Text.encode_lt_iff.mpr hlt)
  · refine Or.inr ⟨hi, mode_before hm ?_⟩
    intro he
    obtain ⟨i, m⟩ := a
    obtain ⟨j, n⟩ := b
    exact hne (congrArg₂ mk hi he)

end SeriesKey

theorem Grouping.pairwise_before (g : Grouping) (runs : List Run) :
    (g.keys runs).Pairwise SeriesKey.Before :=
  ((pairwise_keys g runs).and (nodup_keys g runs)).imp fun ⟨hle, hne⟩ =>
    SeriesKey.before_of_le hle hne

namespace Series

/-- Exactly the runs of one key, ascending on the axis, those at one value as they came, and in
the style of the mode that the key names or that they share. -/
structure Gathers (s : Series) (runs : List Run) (g : Grouping) (x : XAxis)
    (styles : StyleTable) : Prop where
  inhabited : s.runs ≠ []
  own : ∀ r ∈ s.runs, g.key r = s.key
  ascending : s.runs.Pairwise fun a b => x.raw a ≤ x.raw b
  stable : ∀ n, (s.runs.filter fun r => x.raw r = n) =
    runs.filter fun r => g.key r = s.key ∧ x.raw r = n
  style_named : ∀ m, s.key.mode = some m → s.style = styles.style s.key.implementation m
  style_shared : s.key.mode = none → ∀ m, (∀ r ∈ s.runs, r.mode = m) →
    s.style = styles.style s.key.implementation m
  style_mixed : s.key.mode = none → (∀ m, ∃ r ∈ s.runs, r.mode ≠ m) →
    s.style = styles.style s.key.implementation .heap

theorem sharedMode_of_mixed (h : ∀ m, ∃ r ∈ runs, r.mode ≠ m) : sharedMode runs = .heap := by
  cases runs with
  | nil => rfl
  | cons first rest =>
    obtain ⟨r, hr, hne⟩ := h first.mode
    rcases List.mem_cons.mp hr with rfl | hr
    · exact (hne rfl).elim
    · rw [sharedMode, if_neg]
      intro hall
      exact hne (of_decide_eq_true (List.all_eq_true.mp hall r hr))

theorem stable_ofKey (k : SeriesKey) (n : ℕ) :
    ((ofKey runs g x styles k).runs.filter fun r => x.raw r = n) =
      runs.filter fun r => g.key r = k ∧ x.raw r = n := by
  have hsort : ((ofKey runs g x styles k).runs.filter fun r => x.raw r = n) =
      (runs.filter fun r => g.key r = k).filter fun r => x.raw r = n := filter_mergeSort _ _ _
  rw [hsort, List.filter_filter]
  simp only [Bool.decide_and, Bool.and_comm]

theorem style_ofKey_eq (k : SeriesKey) :
    (ofKey runs g x styles k).style = styles.style k.implementation
      (k.mode.getD (sharedMode (ofKey runs g x styles k).runs)) := rfl

theorem gathers_of_mem (hs : s ∈ group runs g x styles) : s.Gathers runs g x styles := by
  obtain ⟨r, hr, rfl⟩ := mem_group.mp hs
  have hown : r ∈ (ofKey runs g x styles (g.key r)).runs := mem_ofKey.mpr ⟨hr, rfl⟩
  constructor
  · exact List.ne_nil_of_mem hown
  · intro a ha
    exact (mem_ofKey.mp ha).2
  · exact pairwise_ofKey
  · exact stable_ofKey (g.key r)
  · intro m hm
    have hm : (g.key r).mode = some m := hm
    rw [style_ofKey_eq, hm]
    rfl
  · intro hn m hm
    have hn : (g.key r).mode = none := hn
    rw [style_ofKey_eq, hn, Option.getD_none,
      sharedMode_of_uniform (List.ne_nil_of_mem hown) hm]
    rfl
  · intro hn hm
    have hn : (g.key r).mode = none := hn
    rw [style_ofKey_eq, hn, Option.getD_none, sharedMode_of_mixed hm]
    rfl

end Series

theorem flatMap_runs_perm (runs : List Run) (g : Grouping) (x : XAxis) (styles : StyleTable) :
    ((group runs g x styles).flatMap Series.runs).Perm runs := by
  have hall : (runs.filter fun r => g.key r ∈ g.keys runs) = runs := by
    apply List.filter_eq_self.mpr
    intro r hr
    exact decide_eq_true (Grouping.mem_keys.mpr ⟨r, hr, rfl⟩)
  have hparts : ((g.keys runs).flatMap fun k => (Series.ofKey runs g x styles k).runs).Perm
      ((g.keys runs).flatMap fun k => runs.filter fun r => g.key r = k) :=
    List.Perm.flatMap_left _ fun _ _ => Series.perm_ofKey
  have hclasses := flatMap_filter_perm g.key (Grouping.nodup_keys g runs) runs
  rw [hall] at hclasses
  rw [group, List.flatMap_map]
  exact hparts.trans hclasses

/-- The series are the classes of the runs by key, in the order of keys, and each keeps its runs
in the order of the axis and of arrival. -/
theorem group_stable_partition (runs : List Run) (g : Grouping) (x : XAxis)
    (styles : StyleTable) :
    ((group runs g x styles).map Series.key).Pairwise SeriesKey.Before ∧
      ((group runs g x styles).flatMap Series.runs).Perm runs ∧
      ∀ s ∈ group runs g x styles, s.Gathers runs g x styles := by
  refine ⟨?_, flatMap_runs_perm runs g x styles, fun s hs => Series.gathers_of_mem hs⟩
  have hkeys : (group runs g x styles).map Series.key = g.keys runs := by
    rw [group, List.map_map]
    exact List.map_id _
  rw [hkeys]
  exact g.pairwise_before runs

/-- Two runs of one implementation stand at one producer count, a third one below them was run
in the other mode. -/
def tiedRuns : List Run :=
  [.ofThroughput "hp" .heap 4 4 100 10, .ofThroughput "ebr" .pooled 2 2 100 20,
   .ofThroughput "hp" .pooled 2 2 100 30, .ofThroughput "hp" .heap 4 4 100 40]

theorem group_stable_partition_tied :
    ∃ s ∈ group tiedRuns .byImplementation (.threads .producers) .default,
      s.key = ⟨"hp", none⟩ ∧ s.style = StyleTable.default.style "hp" .heap ∧
      (s.runs.filter fun r => r.producers = 2).map Run.throughput = [30] ∧
      (s.runs.filter fun r => r.producers = 4).map Run.throughput = [10, 40] := by
  obtain ⟨_, hperm, hseries⟩ :=
    group_stable_partition tiedRuns .byImplementation (.threads .producers) .default
  obtain ⟨s, hs, hr⟩ := List.mem_flatMap.mp (hperm.mem_iff.mpr List.mem_cons_self)
  have hg := hseries s hs
  have hkey : s.key = ⟨"hp", none⟩ := (hg.own _ hr).symm
  have hat (n : ℕ) : (s.runs.filter fun r => r.producers = n) =
      tiedRuns.filter fun r => Grouping.byImplementation.key r = s.key ∧ r.producers = n :=
    hg.stable n
  refine ⟨s, hs, hkey, ?_, ?_, ?_⟩
  · have hpooled : Run.ofThroughput "hp" .pooled 2 2 100 30 ∈
        s.runs.filter fun r => r.producers = 2 := by
      rw [hat, hkey]
      decide
    have hmixed : ∀ m, ∃ r ∈ s.runs, r.mode ≠ m := by
      intro m
      cases m with
      | heap => exact ⟨_, (List.mem_filter.mp hpooled).1, by decide⟩
      | pooled => exact ⟨_, hr, by decide⟩
    rw [hg.style_mixed (congrArg SeriesKey.mode hkey) hmixed, hkey]
  · rw [hat, hkey]
    decide
  · rw [hat, hkey]
    decide

end QueueBench
