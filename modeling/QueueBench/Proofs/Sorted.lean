import Mathlib.Data.List.Nodup
import Mathlib.Data.List.Perm.Basic
import Mathlib.Data.List.Sort
import QueueBench.FixedAxes
import QueueBench.Series

/-! # Sorted lists of distinct values

Values without repetition in a fixed order depend only on which values occur. This is why
neither the keys of a chart nor the detected axes depend on the order of the runs. -/
namespace QueueBench

variable {α : Type}

structure Orders (le : α → α → Bool) : Prop where
  trans : ∀ a b c, le a b → le b c → le a c
  total : ∀ a b, le a b || le b a
  antisymm : ∀ a b, le a b → le b a → a = b

theorem nodup_eraseDups [DecidableEq α] (as : List α) : as.eraseDups.Nodup := by
  induction h : as.length using Nat.strong_induction_on generalizing as with
  | h n ih =>
    cases as with
    | nil => simp
    | cons a as =>
      have hl := List.length_filter_le (fun b => !b == a) as
      simp only [List.length_cons] at h
      rw [List.eraseDups_cons, List.nodup_cons]
      refine ⟨?_, ih _ (by omega) _ rfl⟩
      simp [List.mem_eraseDups]

theorem Orders.eq_of_mem_iff {le : α → α → Bool} (ho : Orders le) {as bs : List α}
    (ha : as.Pairwise fun a b => le a b) (hb : bs.Pairwise fun a b => le a b)
    (na : as.Nodup) (nb : bs.Nodup) (h : ∀ a, a ∈ as ↔ a ∈ bs) : as = bs :=
  List.Perm.eq_of_pairwise (fun a b _ _ => ho.antisymm a b) ha hb
    ((List.perm_ext_iff_of_nodup na nb).mpr h)

section Distinct

variable [DecidableEq α] {le : α → α → Bool}

theorem mem_distinct {as : List α} {a : α} : a ∈ as.eraseDups.mergeSort le ↔ a ∈ as := by
  rw [List.mem_mergeSort, List.mem_eraseDups]

theorem nodup_distinct (as : List α) : (as.eraseDups.mergeSort le).Nodup :=
  (List.mergeSort_perm _ _).nodup_iff.mpr (nodup_eraseDups as)

theorem Orders.pairwise_distinct (ho : Orders le) (as : List α) :
    (as.eraseDups.mergeSort le).Pairwise fun a b => le a b :=
  List.pairwise_mergeSort ho.trans ho.total _

theorem Orders.distinct_congr (ho : Orders le) {as bs : List α} (h : ∀ a, a ∈ as ↔ a ∈ bs) :
    as.eraseDups.mergeSort le = bs.eraseDups.mergeSort le :=
  ho.eq_of_mem_iff (ho.pairwise_distinct as) (ho.pairwise_distinct bs) (nodup_distinct as)
    (nodup_distinct bs) fun a => by rw [mem_distinct, mem_distinct, h]

end Distinct

theorem natOrders : Orders fun a b : ℕ => decide (a ≤ b) where
  trans a b c := by simpa using Nat.le_trans
  total a b := by simpa using Nat.le_total a b
  antisymm a b := by simpa using Nat.le_antisymm

namespace SeriesKey

theorem modeRank_injective {a b : SeriesKey} (h : a.modeRank = b.modeRank) : a.mode = b.mode := by
  rcases a with ⟨_, _ | m⟩ <;> rcases b with ⟨_, _ | n⟩
  · rfl
  · simp [modeRank] at h
  · simp [modeRank] at h
  · cases m <;> cases n <;> simp [modeRank, AllocMode.rank] at h ⊢

theorem le_iff {a b : SeriesKey} : a.le b ↔ a.implementation < b.implementation ∨
    a.implementation = b.implementation ∧ a.modeRank ≤ b.modeRank := by
  rw [le, Bool.or_eq_true, Bool.and_eq_true, decide_eq_true_eq, beq_iff_eq, decide_eq_true_eq]

/-- Lexicographic: characters of the implementation first, then modes. -/
theorem orders : Orders le where
  trans a b c hab hbc := by
    rw [le_iff] at *
    rcases hab with hab | ⟨hab, hm⟩
    · rcases hbc with hbc | ⟨hbc, _⟩
      · exact Or.inl (String.lt_trans hab hbc)
      · exact Or.inl (hbc ▸ hab)
    · rcases hbc with hbc | ⟨hbc, hn⟩
      · exact Or.inl (hab ▸ hbc)
      · exact Or.inr ⟨hab.trans hbc, hm.trans hn⟩
  total a b := by
    rw [Bool.or_eq_true, le_iff, le_iff]
    by_cases h : a.implementation = b.implementation
    · rcases Nat.le_total a.modeRank b.modeRank with hm | hm
      · exact Or.inl (Or.inr ⟨h, hm⟩)
      · exact Or.inr (Or.inr ⟨h.symm, hm⟩)
    · by_cases hl : a.implementation < b.implementation
      · exact Or.inl (Or.inl hl)
      · refine Or.inr (Or.inl ?_)
        by_contra hg
        exact h (String.le_antisymm (String.not_lt.mp hg) (String.not_lt.mp hl))
  antisymm a b hab hba := by
    rw [le_iff] at *
    rcases hab with hab | ⟨hab, hm⟩
    · rcases hba with hba | ⟨hba, _⟩
      · exact (String.lt_asymm hab hba).elim
      · exact (String.lt_irrefl _ (hba ▸ hab)).elim
    · rcases hba with hba | ⟨_, hn⟩
      · exact (String.lt_irrefl _ (hab ▸ hba)).elim
      · have he := modeRank_injective (Nat.le_antisymm hm hn)
        cases a
        cases b
        simp_all

end SeriesKey

end QueueBench
