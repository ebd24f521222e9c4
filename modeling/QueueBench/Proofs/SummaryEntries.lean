import Mathlib.Algebra.GroupWithZero.Nat
import QueueBench.Proofs.Number.TotalOrder
import QueueBench.Proofs.Partition
import QueueBench.Proofs.Summary

/-! # What the entries of a summary count

An entry counts the runs of its implementation and no others, so no run is counted twice or left
out. Each of its statistics is over the runs that have the value, and the bounds of its range are
two of those values. -/
namespace QueueBench

open Double (TotalLe lesser greater)

variable {runs own : List Run} {values : List Double}

section Extremes

variable {before : Double → Double → Prop} {choose : Double → Double → Double} {x y : Double}

structure Extreme (before : Double → Double → Prop) (values : List Double) (x : Double) :
    Prop where
  mem : x ∈ values
  first : ∀ v ∈ values, before x v

structure Chooses (before : Double → Double → Prop) (choose : Double → Double → Double) :
    Prop where
  either : ∀ a b, choose a b = a ∨ choose a b = b
  left : ∀ a b, before (choose a b) a
  right : ∀ a b, before (choose a b) b
  trans : ∀ a b c, before a b → before b c → before a c

theorem Chooses.refl (hc : Chooses before choose) (a : Double) : before a a := by
  have ha := hc.left a a
  rcases hc.either a a with he | he <;> rwa [he] at ha

theorem Chooses.extreme_cons (hc : Chooses before choose) {v : Double}
    (h : Extreme before (choose x y :: values) v) : Extreme before (x :: y :: values) v := by
  have hchosen := h.first _ List.mem_cons_self
  constructor
  · rcases List.mem_cons.mp h.mem with rfl | hv
    · rcases hc.either x y with he | he <;> simp [he]
    · simp [hv]
  · intro w hw
    rcases List.mem_cons.mp hw with rfl | hw
    · exact hc.trans _ _ _ hchosen (hc.left _ _)
    rcases List.mem_cons.mp hw with rfl | hw
    · exact hc.trans _ _ _ hchosen (hc.right _ _)
    · exact h.first w (List.mem_cons_of_mem _ hw)

theorem Chooses.extreme_foldl (hc : Chooses before choose) (x : Double) (values : List Double) :
    Extreme before (x :: values) (values.foldl choose x) := by
  induction values generalizing x with
  | nil =>
    refine ⟨List.mem_cons_self, fun v hv => ?_⟩
    obtain rfl := List.mem_singleton.mp hv
    exact hc.refl v
  | cons y values ih => exact hc.extreme_cons (ih (choose x y))

/-- To come first is to have the least rank. -/
theorem chooses_of_rank {rank : Double → ℤ} (hb : ∀ a b, before a b ↔ rank a ≤ rank b)
    (hc : ∀ a b, choose a b = if rank b < rank a then b else a) : Chooses before choose where
  either a b := by rw [hc]; split <;> simp
  left a b := by
    rw [hb, hc]
    split <;> omega
  right a b := by
    rw [hb, hc]
    split <;> omega
  trans a b c hab hbc := (hb a c).mpr (Int.le_trans ((hb a b).mp hab) ((hb b c).mp hbc))

end Extremes

namespace Double

theorem chooses_lesser : Chooses TotalLe lesser :=
  chooses_of_rank (fun _ _ => orderKey_le_iff.symm) fun _ _ => rfl

theorem chooses_greater : Chooses (fun a b => TotalLe b a) greater := by
  have hb (a b : Double) : TotalLe b a ↔ -orderKey a ≤ -orderKey b := by
    rw [← orderKey_le_iff]
    omega
  have hc (a b : Double) : greater a b = if -orderKey b < -orderKey a then b else a := by
    rw [greater]
    exact if_congr (by omega) rfl rfl
  exact chooses_of_rank hb hc

end Double

namespace Stats

/-- The mean of these values, and two of them between which all lie. -/
structure Over (s : Stats) (values : List Double) : Prop where
  mean : s.mean = Number.sum (values.map Double.value) / Float.ofNat values.length
  min : Extreme TotalLe values s.min
  max : Extreme (fun a b => TotalLe b a) values s.max

/-- Statistics over the values of the runs that have one, if there is such a run. -/
structure Covers (s : Option Stats) (value : Run → Option Double) (own : List Run) : Prop where
  isSome_iff : s.isSome ↔ ∃ r ∈ own, (value r).isSome
  values : ∀ t, s = some t → t.Over (own.filterMap value)

theorem isSome_ofValues_iff : (ofValues values).isSome ↔ values ≠ [] := by
  cases values with
  | nil => simp [ofValues]
  | cons x values => simp [ofValues]

theorem over_of_ofValues {s : Stats} (h : ofValues values = some s) : s.Over values := by
  cases values with
  | nil => cases h
  | cons x values =>
    obtain rfl := Option.some.inj h
    refine ⟨?_, Double.chooses_lesser.extreme_foldl x values,
      Double.chooses_greater.extreme_foldl x values⟩
    rw [Number.mean, List.length_map]

/-- What is not a number is the least with its sign set, and the greatest without it. -/
example : (ofValues [⟨0x7FF8000000000000⟩, 1, ⟨0xFFF8000000000000⟩]).map
    (fun s => (s.min.bits, s.max.bits)) = some (0xFFF8000000000000, 0x7FF8000000000000) := by
  decide +kernel

theorem covers_ofValues (value : Run → Option Double) (own : List Run) :
    Covers (ofValues (own.filterMap value)) value own := by
  refine ⟨?_, fun t ht => over_of_ofValues ht⟩
  rw [isSome_ofValues_iff, Ne, List.filterMap_eq_nil_iff]
  push Not
  simp only [Option.ne_none_iff_isSome]

end Stats

namespace ImplementationSummary

structure Accounts (e : ImplementationSummary) (own : List Run) : Prop where
  runs : e.runs = own.length
  throughput : e.throughput.Over (own.map Run.throughput)
  maxDepth : Stats.Covers e.maxDepth (fun r => r.maxDepth.map Double.ofNat) own
  p99Latency : Stats.Covers e.p99Latency (fun r => r.latency.p99) own

theorem accounts_of_ofRuns {i : String} {payload : Option ℕ} {axis : ThreadAxis}
    {e : ImplementationSummary} (h : ofRuns i own payload axis = some e) :
    e.implementation = i ∧ e.Accounts own := by
  obtain ⟨throughput, ht, rfl⟩ := Option.map_eq_some_iff.mp h
  exact ⟨rfl, rfl, Stats.over_of_ofValues ht, Stats.covers_ofValues _ own,
    Stats.covers_ofValues _ own⟩

end ImplementationSummary

namespace Summary

variable {payload : Option ℕ} {axis : ThreadAxis}

def ownRuns (runs : List Run) (i : String) : List Run :=
  runs.filter fun r => r.implementation = i

theorem nodup_names (runs : List Run) : (names runs).Nodup := nodup_distinct _

theorem pairwise_names (runs : List Run) :
    (names runs).Pairwise fun a b => Text.encode a < Text.encode b :=
  Text.pairwise_encode_mergeSort (nodup_eraseDups _)

theorem accounts_of_mem {e : ImplementationSummary}
    (h : e ∈ (ofRuns runs payload axis).implementations) :
    e.Accounts (ownRuns runs e.implementation) := by
  obtain ⟨n, _, he⟩ := List.mem_filterMap.mp h
  obtain ⟨rfl, ha⟩ := ImplementationSummary.accounts_of_ofRuns he
  exact ha

/-- Every run has a name that occurs, so the classes by name are all runs. -/
theorem sum_length_ownRuns (runs : List Run) :
    ((names runs).map fun i => (ownRuns runs i).length).sum = runs.length := by
  have hall : (runs.filter fun r => r.implementation ∈ names runs) = runs := by
    apply List.filter_eq_self.mpr
    intro r hr
    exact decide_eq_true (mem_names.mpr ⟨r, hr, rfl⟩)
  have hclasses := flatMap_filter_perm Run.implementation (nodup_names runs) runs
  rw [hall] at hclasses
  rw [← List.length_flatMap]
  exact hclasses.length_eq

/-- One entry for each name that occurs, in the order of the bytes of names, and each run is
counted in the entry of its own name. -/
theorem accounts_for_every_run (runs : List Run) (payload : Option ℕ) (axis : ThreadAxis) :
    let entries := (ofRuns runs payload axis).implementations
    (∀ i, (∃ e ∈ entries, e.implementation = i) ↔ ∃ r ∈ runs, r.implementation = i) ∧
      (entries.Pairwise fun a b =>
        Text.encode a.implementation < Text.encode b.implementation) ∧
      (∀ e ∈ entries, e.Accounts (ownRuns runs e.implementation)) ∧
      (entries.map ImplementationSummary.runs).sum = runs.length := by
  intro entries
  have hnames : entries.map ImplementationSummary.implementation = names runs :=
    map_implementation runs payload axis
  have haccounts : ∀ e ∈ entries, e.Accounts (ownRuns runs e.implementation) :=
    fun e he => accounts_of_mem he
  refine ⟨fun i => ?_, ?_, haccounts, ?_⟩
  · rw [← mem_names, ← hnames, List.mem_map]
  · have hpairwise := pairwise_names runs
    rwa [← hnames, List.pairwise_map] at hpairwise
  · have hlengths : entries.map ImplementationSummary.runs =
        (names runs).map fun i => (ownRuns runs i).length := by
      rw [← hnames, List.map_map]
      exact List.map_congr_left fun e he => (haccounts e he).runs
    rw [hlengths, sum_length_ownRuns]

end Summary

end QueueBench
