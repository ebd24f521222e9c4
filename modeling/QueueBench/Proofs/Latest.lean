import Mathlib.Data.List.Induction
import Mathlib.Data.List.Nodup
import QueueBench.Latest

/-! # The meaning of latest runs

`latestBy` keeps, for each key that occurs, the last element with that key, and it keeps
the keys in the order in which they first occur. -/
namespace QueueBench

variable {α κ : Type} [DecidableEq κ] (key : α → κ)

def lastWhere (p : α → Bool) (as : List α) : Option α := (as.filter p).getLast?

theorem lastWhere_concat (p : α → Bool) (as : List α) (a : α) :
    lastWhere p (as ++ [a]) = if p a then some a else lastWhere p as := by
  by_cases h : p a <;> simp [lastWhere, List.filter_append, h]

theorem lastWhere_eq_none_iff {p : α → Bool} {as : List α} :
    lastWhere p as = none ↔ ∀ a ∈ as, ¬ p a := by
  simp [lastWhere]

theorem lastWhere_some {p : α → Bool} {as : List α} {a : α} (h : lastWhere p as = some a) :
    a ∈ as ∧ p a := by
  have hm := List.mem_of_getLast? h
  exact List.mem_filter.mp hm

theorem lastWhere_filter (p q : α → Bool) (as : List α) :
    lastWhere p (as.filter q) = lastWhere (fun a => p a && q a) as := by
  simp [lastWhere, List.filter_filter]

/-- The last element of a class is the last of any part of the class in which it lies. -/
theorem lastWhere_of_imp {p q : α → Bool} {as : List α} {a : α} (h : lastWhere p as = some a)
    (ha : q a) (hi : ∀ b, q b → p b) : lastWhere q as = some a := by
  induction as using List.reverseRecOn with
  | nil => cases h
  | append_singleton as b ih =>
    rw [lastWhere_concat] at h ⊢
    by_cases hp : p b
    · rw [if_pos hp] at h
      obtain rfl := Option.some.inj h
      rw [if_pos ha]
    · rw [if_neg hp] at h
      rw [if_neg fun hq => hp (hi b hq), ih h]

theorem keys_upsert (a : α) (bs : List α) :
    (upsert key a bs).map key =
      if key a ∈ bs.map key then bs.map key else bs.map key ++ [key a] := by
  induction bs with
  | nil => simp [upsert]
  | cons b bs ih =>
    by_cases h : key b = key a
    · simp [upsert, h]
    · have h' : ¬ key a = key b := fun e => h e.symm
      simp only [upsert, h, ↓reduceIte, List.map_cons, ih, List.mem_cons, h', false_or]
      split <;> simp

theorem mem_upsert {a b : α} {bs : List α} (hn : (bs.map key).Nodup) :
    b ∈ upsert key a bs ↔ b = a ∨ b ∈ bs ∧ key b ≠ key a := by
  induction bs with
  | nil => simp [upsert]
  | cons c bs ih =>
    obtain ⟨hc, hn⟩ := List.nodup_cons.mp hn
    by_cases h : key c = key a
    · have hb : b ∈ bs → key b ≠ key a := by
        intro hm he
        exact hc (List.mem_map.mpr ⟨b, hm, he.trans h.symm⟩)
      simp only [upsert, h, ↓reduceIte, List.mem_cons]
      constructor
      · rintro (rfl | hm)
        · exact Or.inl rfl
        · exact Or.inr ⟨Or.inr hm, hb hm⟩
      · rintro (rfl | ⟨rfl | hm, hk⟩)
        · exact Or.inl rfl
        · exact (hk h).elim
        · exact Or.inr hm
    · simp only [upsert, h, ↓reduceIte, List.mem_cons, ih hn]
      constructor
      · rintro (rfl | rfl | ⟨hm, hk⟩)
        · exact Or.inr ⟨Or.inl rfl, h⟩
        · exact Or.inl rfl
        · exact Or.inr ⟨Or.inr hm, hk⟩
      · rintro (rfl | ⟨rfl | hm, hk⟩)
        · exact Or.inr (Or.inl rfl)
        · exact Or.inl rfl
        · exact Or.inr (Or.inr ⟨hm, hk⟩)

theorem nodup_keys_latestBy (as : List α) : ((latestBy key as).map key).Nodup := by
  induction as using List.reverseRecOn with
  | nil => simp
  | append_singleton as a ih =>
    rw [latestBy_concat, keys_upsert]
    split
    · exact ih
    · rename_i h
      exact List.nodup_append.mpr ⟨ih, List.nodup_singleton _, by
        intro k hk l hl he
        rw [List.mem_singleton.mp hl] at he
        exact h (he ▸ hk)⟩

/-- The element kept for a key is the last one with that key. -/
theorem mem_latestBy {as : List α} {a : α} :
    a ∈ latestBy key as ↔ lastWhere (fun b => key b = key a) as = some a := by
  induction as using List.reverseRecOn with
  | nil => simp [lastWhere]
  | append_singleton as c ih =>
    rw [latestBy_concat, mem_upsert key (nodup_keys_latestBy key as), lastWhere_concat, ih]
    by_cases h : key c = key a
    · simp [h, eq_comm]
    · have hne : a ≠ c := fun e => h (e ▸ rfl)
      have hk : key a ≠ key c := fun e => h e.symm
      simp [h, hne, hk]

theorem mem_latestBy_filter {p : α → Bool} {as : List α} {a : α} :
    a ∈ latestBy key (as.filter p) ↔ lastWhere (fun b => key b = key a && p b) as = some a := by
  rw [mem_latestBy, lastWhere_filter]

/-- The latest of its key among some elements is the latest of its key in any narrower choice
of elements and keys. -/
theorem mem_latestBy_of_imp {μ : Type} [DecidableEq μ] {key : α → κ} {key' : α → μ}
    {p q : α → Bool} {as : List α} {a : α} (h : a ∈ latestBy key (as.filter p)) (ha : q a)
    (hi : ∀ b, key' b = key' a → q b → key b = key a ∧ p b) :
    a ∈ latestBy key' (as.filter q) := by
  rw [mem_latestBy_filter] at h ⊢
  apply lastWhere_of_imp h
  · simpa using ha
  · intro b hb
    rw [Bool.and_eq_true, decide_eq_true_eq] at hb ⊢
    exact hi b hb.1 hb.2

theorem mem_of_mem_latestBy {as : List α} {a : α} (h : a ∈ latestBy key as) : a ∈ as :=
  (lastWhere_some ((mem_latestBy key).mp h)).1

theorem of_mem_latestBy_filter {p : α → Bool} {as : List α} {a : α}
    (h : a ∈ latestBy key (as.filter p)) : a ∈ as ∧ p a :=
  List.mem_filter.mp (mem_of_mem_latestBy key h)

theorem exists_mem_latestBy {as : List α} {a : α} (h : a ∈ as) :
    ∃ b ∈ latestBy key as, key b = key a := by
  cases hl : lastWhere (fun b => key b = key a) as with
  | none => simpa using lastWhere_eq_none_iff.mp hl a h
  | some b =>
    have hk : key b = key a := by simpa using (lastWhere_some hl).2
    exact ⟨b, (mem_latestBy key).mpr (by rw [hk]; exact hl), hk⟩

theorem latestBy_eq_nil_iff {as : List α} : latestBy key as = [] ↔ as = [] := by
  constructor
  · intro h
    by_contra hn
    obtain ⟨a, ha⟩ := List.exists_mem_of_ne_nil as hn
    obtain ⟨b, hb, _⟩ := exists_mem_latestBy key ha
    rw [h] at hb
    cases hb
  · rintro rfl
    rfl

theorem upsert_of_fresh {a : α} {bs : List α} (h : key a ∉ bs.map key) :
    upsert key a bs = bs ++ [a] := by
  induction bs with
  | nil => rfl
  | cons b bs ih =>
    simp only [List.map_cons, List.mem_cons, not_or] at h
    simp [upsert, Ne.symm h.1, ih h.2]

/-- Nothing is dropped or moved where no key occurs twice. -/
theorem latestBy_of_nodup {as : List α} (h : (as.map key).Nodup) : latestBy key as = as := by
  induction as using List.reverseRecOn with
  | nil => rfl
  | append_singleton as a ih =>
    rw [List.map_append, List.nodup_append] at h
    obtain ⟨hn, _, hd⟩ := h
    have hf : key a ∉ as.map key := fun hm => hd _ hm _ (List.mem_singleton.mpr rfl) rfl
    rw [latestBy_concat, ih hn, upsert_of_fresh key hf]

section Runs

variable {runs : List Run} {p : Run → Prop} [DecidablePred p]

/-- A run is left exactly when it is the last one of its implementation and mode. -/
theorem mem_latestBy_seriesKey_iff {r : Run} :
    r ∈ latestBy Run.seriesKey (runs.filter fun b => p b) ↔
      lastWhere (fun b => p b ∧ b.mode = r.mode ∧ b.implementation = r.implementation) runs =
        some r := by
  have hp : (fun b : Run => decide (b.seriesKey = r.seriesKey) && decide (p b)) =
      fun b => decide (p b ∧ b.mode = r.mode ∧ b.implementation = r.implementation) := by
    funext b
    rw [← Bool.decide_and, decide_eq_decide, Run.seriesKey, Run.seriesKey, Prod.mk.injEq]
    tauto
  rw [mem_latestBy_filter, hp]

/-- Each implementation and mode that occurs is left with a run. -/
theorem exists_latestBy_seriesKey_iff {i : String} {m : AllocMode} :
    (∃ r ∈ latestBy Run.seriesKey (runs.filter fun b => p b),
        r.mode = m ∧ r.implementation = i) ↔
      ∃ r ∈ runs, p r ∧ r.mode = m ∧ r.implementation = i := by
  constructor
  · rintro ⟨r, hr, hm, hi⟩
    obtain ⟨hr, hp⟩ := of_mem_latestBy_filter _ hr
    exact ⟨r, hr, of_decide_eq_true hp, hm, hi⟩
  · rintro ⟨r, hr, hp, rfl, rfl⟩
    have hf : r ∈ runs.filter fun b => p b := List.mem_filter.mpr ⟨hr, decide_eq_true hp⟩
    obtain ⟨s, hs, hk⟩ := exists_mem_latestBy Run.seriesKey hf
    obtain ⟨hi, hm⟩ := Prod.mk.inj hk
    exact ⟨s, hs, hm, hi⟩

end Runs

def Run.ofThroughput (implementation : String) (mode : AllocMode)
    (producers consumers payload : ℕ) (throughput : Double) : Run :=
  { implementation, mode, producers, consumers, payload, throughput, duration := none,
    latency := .none, peakMemory := none, maxDepth := none, source := "" }

end QueueBench
