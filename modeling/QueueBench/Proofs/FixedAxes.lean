import Mathlib.Data.Finset.Card
import Mathlib.Data.List.Permutation
import QueueBench.Proofs.Latest
import QueueBench.Proofs.Sorted

/-! # What detected axes say about the data

A value is detected as soon as there is a run, and it is the value of a run. Of the values that
occur it is the one that was swept most widely, the least one where several were, so detection
looks at no more than the set of points that were run. -/
namespace QueueBench

variable {runs runs' : List Run} {fixed swept : Run → ℕ} {measure : ℕ → ℕ} {value : ℕ}

theorem best_mem (measure : ℕ → ℕ) (n : ℕ) (ns : List ℕ) :
    ns.foldl (fun best m => if measure best < measure m then m else best) n ∈ n :: ns := by
  induction ns generalizing n with
  | nil => exact List.mem_singleton.mpr rfl
  | cons m ns ih =>
    rw [List.foldl_cons]
    by_cases h : measure n < measure m
    · rw [if_pos h]
      exact List.mem_cons_of_mem _ (ih m)
    · rw [if_neg h]
      rcases List.mem_cons.mp (ih n) with he | hm
      · rw [he]
        exact List.mem_cons_self
      · exact List.mem_cons_of_mem _ (List.mem_cons_of_mem _ hm)

theorem firstLargest_mem {ns : List ℕ} {n : ℕ} (h : firstLargest measure ns = some n) :
    n ∈ ns := by
  cases ns with
  | nil => cases h
  | cons m ns =>
    obtain rfl := Option.some.inj h
    exact best_mem measure m ns

theorem exists_run_of_widestSweep (h : widestSweep runs fixed swept = some value) :
    ∃ r ∈ runs, fixed r = value :=
  List.mem_map.mp (mem_distinct.mp (firstLargest_mem h))

theorem widestSweep_nil (fixed swept : Run → ℕ) : widestSweep [] fixed swept = none := by
  rw [widestSweep, List.map_nil, ascending, List.eraseDups_nil, List.mergeSort_nil]
  rfl

theorem exists_widestSweep (h : runs ≠ []) (fixed swept : Run → ℕ) :
    ∃ value, widestSweep runs fixed swept = some value := by
  obtain ⟨r, hr⟩ := List.exists_mem_of_ne_nil runs h
  have hm : fixed r ∈ ascending (runs.map fixed) := mem_distinct.mpr (List.mem_map_of_mem hr)
  unfold widestSweep
  cases ha : ascending (runs.map fixed) with
  | nil => simp [ha] at hm
  | cons n ns => exact ⟨_, rfl⟩

theorem widestSweep_eq_none_iff : widestSweep runs fixed swept = none ↔ runs = [] := by
  constructor
  · intro h
    by_contra hne
    obtain ⟨value, hv⟩ := exists_widestSweep hne fixed swept
    cases h.symm.trans hv
  · rintro rfl
    exact widestSweep_nil fixed swept

/-- The fold goes through the values upwards and gives up its best one only for a larger measure,
so an equal measure is that of a smaller value. -/
theorem best_largest (measure : ℕ → ℕ) {n : ℕ} {ns : List ℕ} (h : (n :: ns).Pairwise (· < ·)) :
    let best := ns.foldl (fun best m => if measure best < measure m then m else best) n
    ∀ m ∈ n :: ns, measure m ≤ measure best ∧ (measure m = measure best → best ≤ m) := by
  induction ns generalizing n with
  | nil =>
    intro best m hm
    obtain rfl := List.mem_singleton.mp hm
    exact ⟨le_rfl, fun _ => le_rfl⟩
  | cons k ns ih =>
    obtain ⟨hn, hk⟩ := List.pairwise_cons.mp h
    have hnk : n < k := hn k List.mem_cons_self
    rw [List.foldl_cons]
    by_cases hlt : measure n < measure k
    · rw [if_pos hlt]
      intro best m hm
      have hb := ih hk
      rcases List.mem_cons.mp hm with rfl | hm
      · have hle := (hb k List.mem_cons_self).1
        exact ⟨hlt.le.trans hle, fun he => absurd he (hlt.trans_le hle).ne⟩
      · exact hb m hm
    · rw [if_neg hlt]
      intro best m hm
      have hb := ih (List.pairwise_cons.mpr
        ⟨fun m hm => hn m (List.mem_cons_of_mem _ hm), (List.pairwise_cons.mp hk).2⟩)
      obtain ⟨hle, hleast⟩ := hb n List.mem_cons_self
      rcases List.mem_cons.mp hm with rfl | hm
      · exact ⟨hle, hleast⟩
      rcases List.mem_cons.mp hm with rfl | hm
      · refine ⟨(not_lt.mp hlt).trans hle, fun he => ?_⟩
        exact (hleast (hle.antisymm (he ▸ not_lt.mp hlt))).trans hnk.le
      · exact hb m (List.mem_cons_of_mem _ hm)

theorem firstLargest_largest {ns : List ℕ} {n : ℕ} (hs : ns.Pairwise (· < ·))
    (h : firstLargest measure ns = some n) :
    ∀ m ∈ ns, measure m ≤ measure n ∧ (measure m = measure n → n ≤ m) := by
  cases ns with
  | nil => cases h
  | cons m ns =>
    obtain rfl := Option.some.inj h
    exact best_largest measure hs

theorem pairwise_ascending (ns : List ℕ) : (ascending ns).Pairwise (· < ·) := by
  have hle : (ascending ns).Pairwise fun a b => decide (a ≤ b) := natOrders.pairwise_distinct ns
  exact hle.imp₂ (fun _ _ h hne => lt_of_le_of_ne (of_decide_eq_true h) hne) (nodup_distinct ns)

def sweep (runs : List Run) (fixed swept : Run → ℕ) (value : ℕ) : Finset ℕ :=
  ((runs.filter fun r => fixed r = value).map swept).toFinset

theorem mem_sweep {n : ℕ} :
    n ∈ sweep runs fixed swept value ↔ ∃ r ∈ runs, fixed r = value ∧ swept r = n := by
  simp [sweep, and_assoc]

theorem coverage_eq_card (runs : List Run) (fixed swept : Run → ℕ) (value : ℕ) :
    coverage runs fixed swept value = (sweep runs fixed swept value).card := by
  have hset (ns : List ℕ) : ns.toFinset = ns.eraseDups.toFinset := by
    ext n
    rw [List.mem_toFinset, List.mem_toFinset, List.mem_eraseDups]
  rw [coverage, sweep, hset, List.toFinset_card_of_nodup (nodup_eraseDups _)]

/-- The value at which the most was swept, the least of several such values. -/
structure Widest (runs : List Run) (fixed swept : Run → ℕ) (value : ℕ) : Prop where
  occurs : ∃ r ∈ runs, fixed r = value
  maximal : ∀ r ∈ runs,
    (sweep runs fixed swept (fixed r)).card ≤ (sweep runs fixed swept value).card
  least : ∀ r ∈ runs,
    (sweep runs fixed swept (fixed r)).card = (sweep runs fixed swept value).card →
      value ≤ fixed r

theorem Widest.unique {v w : ℕ} (hv : Widest runs fixed swept v) (hw : Widest runs fixed swept w) :
    v = w := by
  obtain ⟨r, hr, rfl⟩ := hv.occurs
  obtain ⟨s, hs, rfl⟩ := hw.occurs
  have hcard := (hw.maximal r hr).antisymm (hv.maximal s hs)
  exact (hv.least s hs hcard.symm).antisymm (hw.least r hr hcard)

theorem widest_of_widestSweep (h : widestSweep runs fixed swept = some value) :
    Widest runs fixed swept value := by
  have hl := firstLargest_largest (pairwise_ascending _) h
  simp only [coverage_eq_card] at hl
  have hm (r : Run) (hr : r ∈ runs) : fixed r ∈ ascending (runs.map fixed) :=
    mem_distinct.mpr (List.mem_map_of_mem hr)
  exact ⟨exists_run_of_widestSweep h, fun r hr => (hl _ (hm r hr)).1,
    fun r hr => (hl _ (hm r hr)).2⟩

theorem widestSweep_eq_some_iff :
    widestSweep runs fixed swept = some value ↔ Widest runs fixed swept value := by
  refine ⟨widest_of_widestSweep, fun hv => ?_⟩
  obtain ⟨r, hr, _⟩ := hv.occurs
  obtain ⟨w, hw⟩ := exists_widestSweep (List.ne_nil_of_mem hr) fixed swept
  rw [hw, hv.unique (widest_of_widestSweep hw)]

/-- Runs at the same points, in any order and number, are swept alike. -/
theorem Widest.congr
    (h : ∀ a b, (∃ r ∈ runs, fixed r = a ∧ swept r = b) ↔ ∃ r ∈ runs', fixed r = a ∧ swept r = b)
    (hv : Widest runs fixed swept value) : Widest runs' fixed swept value := by
  have hsweep : sweep runs' fixed swept = sweep runs fixed swept := by
    funext a
    ext b
    rw [mem_sweep, mem_sweep, h]
  have hrun (r : Run) (hr : r ∈ runs') : ∃ s ∈ runs, fixed s = fixed r := by
    obtain ⟨s, hs, he, _⟩ := (h _ _).mpr ⟨r, hr, rfl, rfl⟩
    exact ⟨s, hs, he⟩
  obtain ⟨r, hr, he⟩ := hv.occurs
  obtain ⟨s, hs, he', _⟩ := (h _ _).mp ⟨r, hr, rfl, rfl⟩
  refine ⟨⟨s, hs, he'.trans he⟩, ?_, ?_⟩
  · intro r hr
    obtain ⟨s, hs, he⟩ := hrun r hr
    rw [hsweep, ← he]
    exact hv.maximal s hs
  · intro r hr
    obtain ⟨s, hs, he⟩ := hrun r hr
    rw [hsweep, ← he]
    exact hv.least s hs

theorem widestSweep_congr
    (h : ∀ a b, (∃ r ∈ runs, fixed r = a ∧ swept r = b) ↔
      ∃ r ∈ runs', fixed r = a ∧ swept r = b) :
    widestSweep runs fixed swept = widestSweep runs' fixed swept := by
  apply Option.ext
  intro v
  rw [widestSweep_eq_some_iff, widestSweep_eq_some_iff]
  exact ⟨Widest.congr h, Widest.congr fun a b => (h a b).symm⟩

def pointsOf (runs : List Run) : Finset (ℕ × ℕ) :=
  (runs.map fun r => (r.producers, r.payload)).toFinset

theorem mem_pointsOf {producers payload : ℕ} : (producers, payload) ∈ pointsOf runs ↔
    ∃ r ∈ runs, r.producers = producers ∧ r.payload = payload := by
  simp [pointsOf]

namespace FixedAxes

theorem detect_congr (h : pointsOf runs = pointsOf runs') : detect runs = detect runs' := by
  have hp (a b : ℕ) : (∃ r ∈ runs, r.producers = a ∧ r.payload = b) ↔
      ∃ r ∈ runs', r.producers = a ∧ r.payload = b := by
    rw [← mem_pointsOf, ← mem_pointsOf, h]
  rw [detect, detect, payloadOf, payloadOf, threadsOf, threadsOf, widestSweep_congr hp,
    widestSweep_congr fun a b => by simpa only [and_comm] using hp b a]

/-- The payload is the least of those with the most producer counts, the producer count the least
of those with the most payloads, and both follow from the set of points alone. -/
theorem detects_widest :
    (∀ runs, payloadOf runs = none ↔ runs = []) ∧
    (∀ runs, threadsOf runs = none ↔ runs = []) ∧
    (∀ runs payload,
      payloadOf runs = some payload ↔ Widest runs Run.payload Run.producers payload) ∧
    (∀ runs threads,
      threadsOf runs = some threads ↔ Widest runs Run.producers Run.payload threads) ∧
    ∀ runs runs', pointsOf runs = pointsOf runs' → detect runs = detect runs' :=
  ⟨fun _ => widestSweep_eq_none_iff, fun _ => widestSweep_eq_none_iff,
    fun _ _ => widestSweep_eq_some_iff, fun _ _ => widestSweep_eq_some_iff,
    fun _ _ => detect_congr⟩

def tiedRuns : List Run :=
  [Run.ofThroughput "spsc" .heap 1 1 100 10, Run.ofThroughput "spsc" .heap 2 2 100 20,
   Run.ofThroughput "spsc" .heap 2 2 50 30, Run.ofThroughput "spsc" .heap 4 4 50 40,
   Run.ofThroughput "spsc" .heap 2 2 10 50, Run.ofThroughput "spsc" .pooled 2 2 10 60,
   Run.ofThroughput "mpmc" .heap 2 2 10 70]

def reorderedRuns : List Run :=
  [Run.ofThroughput "mpmc" .pooled 4 1 50 1, Run.ofThroughput "mpmc" .pooled 2 1 10 2,
   Run.ofThroughput "mpmc" .pooled 2 1 50 3, Run.ofThroughput "mpmc" .pooled 1 1 100 4,
   Run.ofThroughput "mpmc" .pooled 1 3 100 5, Run.ofThroughput "mpmc" .pooled 2 1 100 6]

theorem detects_widest_tied :
    pointsOf tiedRuns = pointsOf reorderedRuns ∧ detect tiedRuns = detect reorderedRuns ∧
      Widest tiedRuns Run.payload Run.producers 50 ∧
      Widest tiedRuns Run.producers Run.payload 2 := by
  obtain ⟨_, _, hpayload, hthreads, hpoints⟩ := detects_widest
  exact ⟨by decide, hpoints _ _ (by decide), (hpayload _ _).mp (by cbv), (hthreads _ _).mp (by cbv)⟩

end FixedAxes

end QueueBench
