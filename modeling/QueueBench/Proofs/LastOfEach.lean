import Mathlib.Logic.Function.Basic
import QueueBench.Proofs.Latest

/-! # The last element of each key

Three conditions settle what `latestBy` keeps. A loop that remembers the place of each key
instead of searching for it keeps the same elements and never looks outside of what it has kept.
Elements that were kept once can stand in for those they come from, whatever is put before or
behind them. -/
namespace QueueBench

variable {α κ : Type} [DecidableEq κ] {key : α → κ} {as bs : List α} {a b : α} {i : ℕ}

/-- One element for each key that occurs, the last with its key, and the keys in the order in
which they first occur. -/
structure LastOfEach (key : α → κ) (as bs : List α) : Prop where
  first_seen : (bs.map key).Pairwise fun k l => (as.map key).idxOf k < (as.map key).idxOf l
  complete : ∀ a ∈ as, ∃ b ∈ bs, key b = key a
  last : ∀ b ∈ bs, lastWhere (fun a => key a = key b) as = some b

namespace LastOfEach

theorem mem_iff (h : LastOfEach key as bs) :
    b ∈ bs ↔ lastWhere (fun a => key a = key b) as = some b := by
  constructor
  · exact h.last b
  · intro hb
    obtain ⟨c, hc, hk⟩ := h.complete b (lastWhere_some hb).1
    have hl := h.last c hc
    rw [hk] at hl
    obtain rfl := Option.some.inj (hl.symm.trans hb)
    exact hc

theorem nodup (h : LastOfEach key as bs) : bs.Nodup := by
  apply List.Nodup.of_map key
  apply h.first_seen.imp
  intro k l hlt he
  exact Nat.lt_irrefl _ (he ▸ hlt)

/-- The conditions leave no choice. -/
theorem unique {cs : List α} (hb : LastOfEach key as bs) (hc : LastOfEach key as cs) :
    bs = cs := by
  have hp : bs.Perm cs := by
    rw [List.perm_ext_iff_of_nodup hb.nodup hc.nodup]
    intro a
    rw [hb.mem_iff, hc.mem_iff]
  have hb' := List.pairwise_map.mp hb.first_seen
  have hc' := List.pairwise_map.mp hc.first_seen
  refine List.Perm.eq_of_pairwise ?_ hb' hc' hp
  intro a b _ _ hab hba
  exact (Nat.lt_asymm hab hba).elim

end LastOfEach

theorem mem_keys_latestBy {k : κ} : k ∈ (latestBy key as).map key ↔ k ∈ as.map key := by
  rw [List.mem_map, List.mem_map]
  constructor
  · rintro ⟨b, hb, rfl⟩
    exact ⟨b, mem_of_mem_latestBy key hb, rfl⟩
  · rintro ⟨a, ha, rfl⟩
    exact exists_mem_latestBy key ha

/-- One more element moves no key that was seen before. -/
theorem first_seen_latestBy (key : α → κ) (as : List α) :
    ((latestBy key as).map key).Pairwise fun k l =>
      (as.map key).idxOf k < (as.map key).idxOf l := by
  induction as using List.reverseRecOn with
  | nil => exact List.Pairwise.nil
  | append_singleton as a ih =>
    have hseen : ((latestBy key as).map key).Pairwise fun k l =>
        ((as ++ [a]).map key).idxOf k < ((as ++ [a]).map key).idxOf l := by
      refine ih.imp_of_mem ?_
      intro k l hk hl hlt
      rw [mem_keys_latestBy] at hk hl
      rwa [List.map_append, List.idxOf_append_of_mem hk, List.idxOf_append_of_mem hl]
    rw [latestBy_concat, keys_upsert]
    split
    · exact hseen
    · rename_i hfresh
      refine List.pairwise_append.mpr ⟨hseen, List.pairwise_singleton _ _, ?_⟩
      intro k hk l hl
      obtain rfl := List.mem_singleton.mp hl
      rw [mem_keys_latestBy] at hk hfresh
      rw [List.map_append, List.idxOf_append_of_mem hk, List.idxOf_append_of_notMem hfresh]
      exact Nat.lt_add_right _ (List.idxOf_lt_length_of_mem hk)

theorem lastOfEach_latestBy (key : α → κ) (as : List α) :
    LastOfEach key as (latestBy key as) where
  first_seen := first_seen_latestBy key as
  complete _ ha := exists_mem_latestBy key ha
  last _ hb := (mem_latestBy key).mp hb

structure Places (α κ : Type) where
  kept : List α
  place : κ → Option ℕ

namespace Places

variable {s : Places α κ}

def empty : Places α κ := ⟨[], fun _ => none⟩

/-- A key seen before overwrites its place, a new one takes the next. Outside of what has been
kept there is nothing to overwrite. -/
def visit (key : α → κ) (s : Places α κ) (a : α) : Option (Places α κ) :=
  match s.place (key a) with
  | some i => if i < s.kept.length then some { s with kept := s.kept.set i a } else none
  | none => some ⟨s.kept ++ [a], Function.update s.place (key a) (some s.kept.length)⟩

/-- Each key is found at its place, and nowhere else. -/
def Indexed (key : α → κ) (s : Places α κ) : Prop :=
  ∀ k i, s.place k = some i ↔ (s.kept.map key)[i]? = some k

omit [DecidableEq κ] in
theorem Indexed.lt_length (h : s.Indexed key) {k : κ} (hk : s.place k = some i) :
    i < s.kept.length := by
  have hg := (h k i).mp hk
  rw [List.getElem?_eq_some_iff] at hg
  obtain ⟨hi, _⟩ := hg
  rwa [List.length_map] at hi

theorem upsert_eq_set (h : ∀ j, (bs.map key)[j]? = some (key a) ↔ j = i) :
    upsert key a bs = bs.set i a := by
  induction bs generalizing i with
  | nil => simpa using (h i).mpr rfl
  | cons b bs ih =>
    by_cases hk : key b = key a
    · obtain rfl : 0 = i := (h 0).mp (congrArg some hk)
      rw [upsert, if_pos hk, List.set_cons_zero]
    · cases i with
      | zero => exact (hk (Option.some.inj ((h 0).mpr rfl))).elim
      | succ i =>
        rw [upsert, if_neg hk, List.set_cons_succ, ih]
        intro j
        exact (h (j + 1)).trans Nat.succ_inj

omit [DecidableEq κ] in
/-- An element replaces the one at the place of its key, and no key moves. -/
theorem Indexed.set (h : s.Indexed key) (hi : s.place (key a) = some i) :
    Indexed key { s with kept := s.kept.set i a } := by
  have hkeys : (s.kept.set i a).map key = s.kept.map key := by
    rw [List.map_set]
    obtain ⟨hl, hg⟩ := List.getElem?_eq_some_iff.mp ((h (key a) i).mp hi)
    rw [← hg, List.set_getElem_self]
  intro k j
  rw [hkeys]
  exact h k j

theorem Indexed.push (h : s.Indexed key) (hn : s.place (key a) = none) :
    Indexed key ⟨s.kept ++ [a], Function.update s.place (key a) (some s.kept.length)⟩ := by
  intro k i
  show Function.update s.place (key a) (some s.kept.length) k = some i ↔
    ((s.kept ++ [a]).map key)[i]? = some k
  rw [List.map_append, List.getElem?_append, List.length_map]
  by_cases hk : k = key a
  · subst hk
    have hfresh : (s.kept.map key)[i]? ≠ some (key a) := by
      intro hi
      rw [(h (key a) i).mpr hi] at hn
      cases hn
    rw [Function.update_self, Option.some.injEq]
    by_cases hi : i < s.kept.length
    · rw [if_pos hi]
      exact ⟨fun he => absurd hi (by omega), fun hm => (hfresh hm).elim⟩
    · rw [if_neg hi, List.map_singleton, List.getElem?_singleton]
      split
      · exact ⟨fun _ => rfl, fun _ => by omega⟩
      · exact ⟨fun he => by omega, nofun⟩
  · rw [Function.update_of_ne hk]
    by_cases hi : i < s.kept.length
    · rw [if_pos hi, h k i]
    · rw [if_neg hi, List.map_singleton, List.getElem?_singleton]
      constructor
      · intro hp
        exact (hi (h.lt_length hp)).elim
      · intro hp
        split at hp
        · exact (hk (Option.some.inj hp).symm).elim
        · cases hp

/-- A visit finds its place, keeps the index and updates what is kept. -/
theorem Indexed.visit (h : s.Indexed key) (a : α) :
    ∃ t, s.visit key a = some t ∧ t.Indexed key ∧ t.kept = upsert key a s.kept := by
  cases hp : s.place (key a) with
  | some i =>
    refine ⟨{ s with kept := s.kept.set i a }, ?_, h.set hp, ?_⟩
    · simp only [Places.visit, hp, if_pos (h.lt_length hp)]
    · symm
      apply upsert_eq_set
      intro j
      rw [← h (key a) j, hp, Option.some.injEq, eq_comm]
  | none =>
    refine ⟨_, by simp only [Places.visit, hp], h.push hp, ?_⟩
    symm
    apply upsert_of_fresh
    intro hm
    obtain ⟨i, hi⟩ := List.getElem?_of_mem hm
    rw [(h (key a) i).mpr hi] at hp
    cases hp

theorem exists_run (key : α → κ) (as : List α) :
    ∃ s, as.foldlM (visit key) empty = some s ∧ s.Indexed key ∧ s.kept = latestBy key as := by
  induction as using List.reverseRecOn with
  | nil => exact ⟨empty, rfl, by simp [Indexed, empty], rfl⟩
  | append_singleton as a ih =>
    -- The index has to come along: without it the next visit might find no place.
    obtain ⟨s, hs, hi, hk⟩ := ih
    obtain ⟨t, ht, hi', hk'⟩ := hi.visit a
    refine ⟨t, ?_, hi', ?_⟩
    · rw [List.foldlM_append, hs]
      simpa using ht
    · rw [hk', hk, latestBy_concat]

end Places

/-- The latest elements are the last of each key, in the order of first occurrence, and a loop
over places ends with them. -/
theorem latestBy_last_of_each (key : α → κ) (as bs : List α) :
    (latestBy key as = bs ↔ LastOfEach key as bs) ∧
      ((as.foldlM (Places.visit key) .empty).map Places.kept = some bs ↔
        LastOfEach key as bs) := by
  have hl := lastOfEach_latestBy key as
  have hspec : latestBy key as = bs ↔ LastOfEach key as bs := by
    constructor
    · rintro rfl
      exact hl
    · exact hl.unique
  obtain ⟨s, hs, _, hk⟩ := Places.exists_run key as
  refine ⟨hspec, ?_⟩
  rw [hs, Option.map_some, hk, Option.some.injEq, hspec]

example : latestBy Prod.fst [(1, 'a'), (2, 'b'), (1, 'c'), (3, 'd'), (2, 'e')] =
    [(1, 'c'), (2, 'e'), (3, 'd')] := by decide

section Incremental

def upsertAll (key : α → κ) (kept as : List α) : List α :=
  as.foldl (fun kept a => upsert key a kept) kept

theorem latestBy_append (key : α → κ) (as bs : List α) :
    latestBy key (as ++ bs) = upsertAll key (latestBy key as) bs := List.foldl_append

theorem upsertAll_concat (kept as : List α) (a : α) :
    upsertAll key kept (as ++ [a]) = upsert key a (upsertAll key kept as) := by
  simp [upsertAll]

/-- The later element of a key leaves no trace of the earlier one. -/
theorem upsert_overwrite (h : key a = key b) (kept : List α) :
    upsert key a (upsert key b kept) = upsert key a kept := by
  induction kept with
  | nil => simp [upsert, h]
  | cons c kept ih =>
    by_cases hc : key c = key b
    · simp [upsert, h, hc]
    · have hc' : key c ≠ key a := fun e => hc (e.trans h)
      simp only [upsert, if_neg hc, if_neg hc', ih]

/-- A key that has its place can be visited before or after another one. -/
theorem upsert_comm {kept : List α} (hne : key a ≠ key b) (hm : key a ∈ kept.map key) :
    upsert key a (upsert key b kept) = upsert key b (upsert key a kept) := by
  induction kept with
  | nil => cases hm
  | cons c kept ih =>
    by_cases hb : key c = key b
    · have hc : key c ≠ key a := fun e => hne (e.symm.trans hb)
      simp only [upsert, if_pos hb, if_neg hc, if_neg hne.symm]
    · by_cases ha : key c = key a
      · simp only [upsert, if_neg hb, if_pos ha, if_neg hne]
      · have hm' : key a ∈ kept.map key := by
          rcases List.mem_cons.mp hm with he | hm
          · exact (ha he.symm).elim
          · exact hm
        simp only [upsert, if_neg hb, if_neg ha, ih hm']

theorem mem_keys_upsert {k : κ} {kept : List α} :
    k ∈ (upsert key a kept).map key ↔ k = key a ∨ k ∈ kept.map key := by
  rw [keys_upsert]
  by_cases ha : key a ∈ kept.map key
  · rw [if_pos ha]
    refine ⟨Or.inr, ?_⟩
    rintro (rfl | hk)
    · exact ha
    · exact hk
  · rw [if_neg ha, List.mem_append, List.mem_singleton, or_comm]

theorem upsertAll_upsert_of_mem {kept : List α} (hm : key a ∈ kept.map key)
    (hn : key a ∉ bs.map key) :
    upsertAll key (upsert key a kept) bs = upsert key a (upsertAll key kept bs) := by
  induction bs generalizing kept with
  | nil => rfl
  | cons b bs ih =>
    rw [List.map_cons, List.mem_cons, not_or] at hn
    obtain ⟨hne, hn⟩ := hn
    calc upsertAll key (upsert key b (upsert key a kept)) bs
      _ = upsertAll key (upsert key a (upsert key b kept)) bs := by rw [upsert_comm hne hm]
      _ = upsert key a (upsertAll key (upsert key b kept) bs) :=
        ih (mem_keys_upsert.mpr (Or.inr hm)) hn

/-- An element that replaces another in its place counts as one that comes after all of them. -/
theorem upsertAll_upsert (hn : (bs.map key).Nodup) (kept : List α) (a : α) :
    upsertAll key kept (upsert key a bs) = upsert key a (upsertAll key kept bs) := by
  induction bs generalizing kept with
  | nil => rfl
  | cons b bs ih =>
    obtain ⟨hb, hn⟩ := List.nodup_cons.mp hn
    by_cases hk : key b = key a
    · -- No other element of `bs` has the key, so the new one can be moved behind all of them.
      have hm : key a ∈ (upsert key b kept).map key := mem_keys_upsert.mpr (Or.inl hk.symm)
      rw [upsert, if_pos hk]
      calc upsertAll key (upsert key a kept) bs
        _ = upsertAll key (upsert key a (upsert key b kept)) bs := by
          rw [upsert_overwrite hk.symm]
        _ = upsert key a (upsertAll key (upsert key b kept) bs) :=
          upsertAll_upsert_of_mem hm (hk ▸ hb)
    · rw [upsert, if_neg hk]
      exact ih hn (upsert key b kept)

theorem upsertAll_latestBy (kept as : List α) :
    upsertAll key kept (latestBy key as) = upsertAll key kept as := by
  induction as using List.reverseRecOn with
  | nil => rfl
  | append_singleton as a ih =>
    rw [latestBy_concat, upsertAll_upsert (nodup_keys_latestBy key as), ih, upsertAll_concat]

theorem latestBy_latestBy (key : α → κ) (as : List α) :
    latestBy key (latestBy key as) = latestBy key as :=
  latestBy_of_nodup key (nodup_keys_latestBy key as)

/-- Either part of the elements may have been narrowed down to the latest ones before. -/
theorem latestBy_incremental (key : α → κ) (as bs : List α) :
    latestBy key (latestBy key as ++ bs) = latestBy key (as ++ bs) ∧
      latestBy key (as ++ bs) = latestBy key (as ++ latestBy key bs) ∧
      latestBy key (latestBy key as) = latestBy key as := by
  refine ⟨?_, ?_, latestBy_latestBy key as⟩
  · rw [latestBy_append, latestBy_append, latestBy_latestBy]
  · rw [latestBy_append, latestBy_append, upsertAll_latestBy]

end Incremental

end QueueBench
