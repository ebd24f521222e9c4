import QueueBench.Chart.Sweep
import QueueBench.Proofs.Sorted

/-! # Series as a partition

Each run stands in the series of its own key. The series, their order and their styles are
the same for every order of the runs, and so are the runs of a series when no two of them
share a key and an x value. -/
namespace QueueBench

variable {runs runs' : List Run} {g : Grouping} {x : XAxis} {styles : StyleTable}

namespace Grouping

def keyOf (g : Grouping) (implementation : String) (mode : AllocMode) : SeriesKey :=
  match g with
  | byImplementation => ⟨implementation, none⟩
  | byImplementationAndMode => ⟨implementation, some mode⟩

theorem key_eq (g : Grouping) (r : Run) : g.key r = g.keyOf r.implementation r.mode := by
  cases g <;> rfl

theorem infer_of_uniform (h : ∀ r ∈ runs, ∀ s ∈ runs, r.mode = s.mode) :
    infer runs = byImplementation := by
  cases runs with
  | nil => rfl
  | cons first rest =>
    have hall : (rest.all fun r => r.mode = first.mode) = true := by
      simp only [List.all_eq_true, decide_eq_true_eq]
      exact fun r hr => h r (List.mem_cons_of_mem _ hr) first List.mem_cons_self
    simp [infer, hall]

theorem infer_of_mode {m : AllocMode} (h : ∀ r ∈ runs, r.mode = m) :
    infer runs = byImplementation :=
  infer_of_uniform fun r hr s hs => (h r hr).trans (h s hs).symm

theorem infer_filter_mode (runs : List Run) (m : AllocMode) :
    infer (runs.filter fun r => r.mode = m) = byImplementation :=
  infer_of_mode (m := m) fun r hr => by simpa using (List.mem_filter.mp hr).2

theorem infer_eq_byImplementation_iff :
    infer runs = byImplementation ↔ ∀ r ∈ runs, ∀ s ∈ runs, r.mode = s.mode := by
  refine ⟨?_, infer_of_uniform⟩
  intro h
  cases runs with
  | nil => simp
  | cons first rest =>
    have hall : ∀ r ∈ rest, r.mode = first.mode := by
      by_contra hn
      have hf : (rest.all fun r => r.mode = first.mode) = false := by
        simpa using hn
      simp [infer, hf] at h
    have hm : ∀ r ∈ first :: rest, r.mode = first.mode := by
      intro r hr
      rcases List.mem_cons.mp hr with rfl | hr
      · rfl
      · exact hall r hr
    exact fun r hr s hs => (hm r hr).trans (hm s hs).symm

theorem infer_perm (h : runs.Perm runs') : infer runs = infer runs' := by
  have hi : infer runs = byImplementation ↔ infer runs' = byImplementation := by
    simp only [infer_eq_byImplementation_iff, h.mem_iff]
  cases hr : infer runs <;> cases hr' : infer runs' <;> simp_all

/-- The inferred key tells apart whatever differs in implementation or mode. -/
theorem infer_key_inj {r s : Run} (hr : r ∈ runs) (hs : s ∈ runs)
    (h : (infer runs).key r = (infer runs).key s) : r.seriesKey = s.seriesKey := by
  cases hg : infer runs with
  | byImplementation =>
    have hm := infer_eq_byImplementation_iff.mp hg r hr s hs
    simp only [hg, key, SeriesKey.mk.injEq] at h
    exact Prod.ext h.1 hm
  | byImplementationAndMode =>
    simp only [hg, key, SeriesKey.mk.injEq, Option.some.injEq] at h
    exact Prod.ext h.1 h.2

theorem mem_keys {k : SeriesKey} : k ∈ g.keys runs ↔ ∃ r ∈ runs, g.key r = k := by
  rw [keys, mem_distinct, List.mem_map]

theorem nodup_keys (g : Grouping) (runs : List Run) : (g.keys runs).Nodup := nodup_distinct _

theorem pairwise_keys (g : Grouping) (runs : List Run) :
    (g.keys runs).Pairwise fun a b => SeriesKey.le a b :=
  SeriesKey.orders.pairwise_distinct _

theorem keys_perm (h : runs.Perm runs') : g.keys runs = g.keys runs' :=
  SeriesKey.orders.distinct_congr fun _ => (h.map g.key).mem_iff

end Grouping

namespace Series

variable {k : SeriesKey}

theorem mem_ofKey {r : Run} :
    r ∈ (ofKey runs g x styles k).runs ↔ r ∈ runs ∧ g.key r = k := by
  simp [ofKey]

theorem perm_ofKey :
    (ofKey runs g x styles k).runs.Perm (runs.filter fun r => g.key r = k) :=
  List.mergeSort_perm _ _

theorem pairwise_ofKey :
    (ofKey runs g x styles k).runs.Pairwise fun a b => x.raw a ≤ x.raw b := by
  have h : (ofKey runs g x styles k).runs.Pairwise fun a b => decide (x.raw a ≤ x.raw b) :=
    List.pairwise_mergeSort (fun a b c => by simpa using Nat.le_trans)
      (fun a b => by simpa using Nat.le_total _ _) _
  exact h.imp fun hab => by simpa using hab

theorem sharedMode_of_uniform {m : AllocMode} (hne : runs ≠ []) (h : ∀ r ∈ runs, r.mode = m) :
    sharedMode runs = m := by
  cases runs with
  | nil => exact (hne rfl).elim
  | cons first rest =>
    have hf := h first List.mem_cons_self
    have hall : (rest.all fun r => r.mode = first.mode) = true := by
      simp only [List.all_eq_true, decide_eq_true_eq]
      exact fun r hr => (h r (List.mem_cons_of_mem _ hr)).trans hf.symm
    rw [sharedMode, if_pos hall, hf]

/-- The style of a series is that of its runs when these agree on the mode. -/
theorem style_ofKey {r : Run} (hr : r ∈ runs)
    (hm : ∀ s ∈ runs, g.key s = g.key r → s.mode = r.mode) :
    (ofKey runs g x styles (g.key r)).style = styles.style r.implementation r.mode := by
  cases g with
  | byImplementation =>
    have hs : sharedMode (ofKey runs .byImplementation x styles
        (Grouping.byImplementation.key r)).runs = r.mode := by
      apply sharedMode_of_uniform
      · exact List.ne_nil_of_mem (mem_ofKey.mpr ⟨hr, rfl⟩)
      · intro s hs
        obtain ⟨hs, hk⟩ := mem_ofKey.mp hs
        exact hm s hs hk
    exact congrArg (styles.style r.implementation) hs
  | byImplementationAndMode => rfl

/-- Where no two runs share a key, a series is one run. -/
theorem runs_ofKey (hd : (runs.map g.key).Nodup) {r : Run} (hr : r ∈ runs) :
    (ofKey runs g x styles (g.key r)).runs = [r] := by
  apply List.perm_singleton.mp
  refine perm_ofKey.trans ?_
  rw [List.perm_ext_iff_of_nodup ((List.Nodup.of_map _ hd).filter _) (List.nodup_singleton r)]
  intro s
  rw [List.mem_filter, decide_eq_true_eq, List.mem_singleton]
  constructor
  · rintro ⟨hs, hk⟩
    exact List.inj_on_of_nodup_map hd hs hr hk
  · rintro rfl
    exact ⟨hr, rfl⟩

/-- Runs at distinct x values have one ascending order. -/
theorem ofKey_perm (h : runs.Perm runs')
    (hd : (runs.map fun r => (g.key r, x.raw r)).Nodup) (k : SeriesKey) :
    ofKey runs g x styles k = ofKey runs' g x styles k := by
  have hr : (ofKey runs g x styles k).runs = (ofKey runs' g x styles k).runs := by
    have hp : (ofKey runs g x styles k).runs.Perm (ofKey runs' g x styles k).runs :=
      perm_ofKey.trans ((h.filter _).trans perm_ofKey.symm)
    refine List.Perm.eq_of_pairwise ?_ pairwise_ofKey pairwise_ofKey hp
    · intro a b ha hb hab hba
      obtain ⟨ha, hka⟩ := mem_ofKey.mp ha
      obtain ⟨hb, hkb⟩ := mem_ofKey.mp hb
      apply List.inj_on_of_nodup_map hd ha (h.mem_iff.mpr hb)
      exact Prod.ext (hka.trans hkb.symm) (Nat.le_antisymm hab hba)
  have hs (l : List Run) : ofKey l g x styles k = ⟨k, (ofKey l g x styles k).runs,
      styles.style k.implementation (k.mode.getD (sharedMode (ofKey l g x styles k).runs))⟩ := rfl
  rw [hs, hs runs', hr]

end Series

theorem mem_group {s : Series} :
    s ∈ group runs g x styles ↔ ∃ r ∈ runs, s = Series.ofKey runs g x styles (g.key r) := by
  rw [group, List.mem_map]
  constructor
  · rintro ⟨k, hk, rfl⟩
    obtain ⟨r, hr, rfl⟩ := Grouping.mem_keys.mp hk
    exact ⟨r, hr, rfl⟩
  · rintro ⟨r, hr, rfl⟩
    exact ⟨g.key r, Grouping.mem_keys.mpr ⟨r, hr, rfl⟩, rfl⟩

theorem group_perm (h : runs.Perm runs') (hd : (runs.map fun r => (g.key r, x.raw r)).Nodup) :
    group runs g x styles = group runs' g x styles := by
  rw [group, Grouping.keys_perm h]
  exact List.map_congr_left fun k _ => Series.ofKey_perm h hd k

theorem nodup_of_nodup_map {α β γ : Type} {f : α → β} {g : α → γ} {as : List α}
    (h : (as.map f).Nodup) (hg : ∀ a ∈ as, ∀ b ∈ as, g a = g b → f a = f b) :
    (as.map g).Nodup :=
  List.Nodup.map_on (fun a ha b hb e => List.inj_on_of_nodup_map h ha hb (hg a ha b hb e))
    (List.Nodup.of_map f h)

theorem nodup_map_filter {α β : Type} {f : α → β} {as : List α} (p : α → Bool)
    (h : (as.map f).Nodup) : ((as.filter p).map f).Nodup :=
  h.sublist (List.filter_sublist.map f)

theorem nodup_key_raw (h : (runs.map (Run.configuration x)).Nodup) :
    (runs.map fun r => ((Grouping.infer runs).key r, x.raw r)).Nodup := by
  apply nodup_of_nodup_map h
  intro r hr s hs he
  obtain ⟨hk, hx⟩ := Prod.mk.inj he
  obtain ⟨hi, hm⟩ := Prod.mk.inj (Grouping.infer_key_inj hr hs hk)
  simp only [Run.configuration, hi, hm, hx]

namespace Series

variable {k : SeriesKey}

theorem nodup_raw_ofKey (hd : (runs.map fun r => (g.key r, x.raw r)).Nodup) :
    ((ofKey runs g x styles k).runs.map x.raw).Nodup := by
  rw [(perm_ofKey.map x.raw).nodup_iff]
  apply nodup_of_nodup_map (nodup_map_filter _ hd)
  intro a ha b hb he
  simp only [List.mem_filter, decide_eq_true_eq] at ha hb
  rw [ha.2, hb.2, he]

theorem ascending_ofKey (hd : (runs.map fun r => (g.key r, x.raw r)).Nodup) :
    ((ofKey runs g x styles k).runs.map x.raw).Pairwise (· < ·) := by
  have hle : ((ofKey runs g x styles k).runs.map x.raw).Pairwise (· ≤ ·) :=
    List.pairwise_map.mpr pairwise_ofKey
  exact hle.imp₂ (fun _ _ h hne => Nat.lt_of_le_of_ne h hne) (nodup_raw_ofKey hd)

end Series

theorem mem_modesOf {m : AllocMode} : m ∈ modesOf runs ↔ ∃ r ∈ runs, r.mode = m := by
  cases m <;> simp [modesOf, AllocMode.all]

theorem nodup_modesOf (runs : List Run) : (modesOf runs).Nodup :=
  List.Nodup.filter _ (by decide)

/-- One mode is what the inferred grouping does not tell apart. -/
theorem infer_eq_byImplementation_iff_modesOf {r : Run} (hr : r ∈ runs) :
    Grouping.infer runs = .byImplementation ↔ modesOf runs = [r.mode] := by
  constructor
  · intro h
    have hu := Grouping.infer_eq_byImplementation_iff.mp h
    apply List.perm_singleton.mp
    rw [List.perm_ext_iff_of_nodup (nodup_modesOf runs) (List.nodup_singleton _)]
    intro m
    rw [mem_modesOf, List.mem_singleton]
    constructor
    · rintro ⟨a, ha, rfl⟩
      exact hu a ha r hr
    · rintro rfl
      exact ⟨r, hr, rfl⟩
  · intro h
    apply Grouping.infer_of_mode (m := r.mode)
    intro a ha
    have hm : a.mode ∈ modesOf runs := mem_modesOf.mpr ⟨a, ha, rfl⟩
    rwa [h, List.mem_singleton] at hm

theorem modesOf_perm (h : runs.Perm runs') : modesOf runs = modesOf runs' := by
  unfold modesOf
  exact List.filter_congr fun m _ => h.any_eq

end QueueBench
