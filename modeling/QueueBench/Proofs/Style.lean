import QueueBench.Proofs.Latest
import QueueBench.Style

/-! # Style tables as maps

A style table is built step by step. What it answers for a name depends on the steps only through
the latest registration of a spelling with the same normal form, and without one through the
fallback palettes that were set last. -/
namespace QueueBench

namespace StyleTable

variable {t : StyleTable} {names : List String} {n : String} {p : Palette}
variable {history : List (String × Palette)} {fallback : List Palette}

inductive Step where
  | register (names : List String) (palette : Palette)
  | setFallback (palettes : List Palette)

namespace Step

def apply (t : StyleTable) : Step → StyleTable
  | register names p => t.withEntry names p
  | setFallback ps => t.withFallback ps

def registered : Step → List (String × Palette)
  | register names p => names.map fun n => (n, p)
  | setFallback _ => []

def fallback? : Step → Option (List Palette)
  | register .. => none
  | setFallback ps => some ps

end Step

inductive Origin where
  | empty
  | default

namespace Origin

def table : Origin → StyleTable
  | empty => .empty
  | default => .default

def steps : Origin → List Step
  | empty => []
  | default =>
    [.register ["HazardPointer", "HazardPointers", "hp"] ⟨⟨158, 202, 225⟩, ⟨31, 119, 180⟩⟩,
     .register ["EBR", "EpochBasedReclamation", "epoch"] ⟨⟨253, 174, 107⟩, ⟨230, 85, 13⟩⟩,
     .register ["MutexQueue", "mutex"] ⟨⟨252, 146, 114⟩, ⟨203, 24, 29⟩⟩,
     .register ["NoReclamation", "none"] ⟨⟨161, 217, 155⟩, ⟨35, 139, 69⟩⟩]

end Origin

def build (o : Origin) (steps : List Step) : StyleTable := steps.foldl Step.apply o.table

/-- Every spelling that was registered, with its palette, the oldest first. -/
def registrations (o : Origin) (steps : List Step) : List (String × Palette) :=
  (o.steps ++ steps).flatMap Step.registered

def lastFallback (steps : List Step) : List Palette :=
  (steps.filterMap Step.fallback?).getLast?.getD defaultFallback

/-- The latest registration of a spelling with the normal form of `n`. -/
def latest? (history : List (String × Palette)) (n : String) : Option (String × Palette) :=
  lastWhere (fun e => normalName e.1 = normalName n) history

structure Follows (t : StyleTable) (history : List (String × Palette)) (fallback : List Palette) :
    Prop where
  lookup : ∀ k, t.entries.lookup k = (lastWhere (fun e => normalName e.1 = k) history).map Prod.snd
  fallback : t.fallback = fallback

theorem follows_empty : empty.Follows [] defaultFallback := ⟨fun _ => rfl, rfl⟩

theorem Follows.register_one (h : t.Follows history fallback) (n : String) (p : Palette) :
    Follows { t with entries := (normalName n, p) :: t.entries } (history ++ [(n, p)])
      fallback := by
  refine ⟨fun k => ?_, h.fallback⟩
  rw [lastWhere_concat, List.lookup_cons]
  by_cases hk : k = normalName n
  · simp [hk]
  · have hk' : ¬ normalName n = k := fun e => hk e.symm
    rw [if_neg (by simpa using hk'), beq_false_of_ne hk]
    exact h.lookup k

theorem Follows.register (h : t.Follows history fallback) (names : List String) (p : Palette) :
    (t.withEntry names p).Follows (history ++ names.map fun n => (n, p)) fallback := by
  induction names using List.reverseRecOn with
  | nil => simpa [withEntry] using h
  | append_singleton names n ih =>
    rw [List.map_append, ← List.append_assoc, withEntry, List.foldl_concat]
    exact ih.register_one n p

theorem Follows.setFallback (h : t.Follows history fallback) (ps : List Palette) :
    (t.withFallback ps).Follows history ps := ⟨h.lookup, rfl⟩

/-- A registration lengthens the history, other fallback palettes replace those before. -/
theorem Follows.apply (h : t.Follows history fallback) (s : Step) :
    (s.apply t).Follows (history ++ s.registered) (s.fallback?.getD fallback) := by
  cases s with
  | register names p => exact h.register names p
  | setFallback ps =>
    rw [Step.registered, List.append_nil]
    exact h.setFallback ps

theorem follows_foldl (steps : List Step) :
    (steps.foldl Step.apply empty).Follows (steps.flatMap Step.registered)
      (lastFallback steps) := by
  induction steps using List.reverseRecOn with
  | nil => exact follows_empty
  | append_singleton steps s ih =>
    have hs := ih.apply s
    rw [List.foldl_concat, List.flatMap_append, List.flatMap_singleton]
    have hf : lastFallback (steps ++ [s]) = s.fallback?.getD (lastFallback steps) := by
      cases s <;> simp [lastFallback, Step.fallback?, List.filterMap_append]
    rwa [hf]

theorem follows_build (o : Origin) (steps : List Step) :
    (build o steps).Follows (registrations o steps) (lastFallback steps) := by
  have ho : o.table = o.steps.foldl Step.apply empty := by
    cases o <;> rfl
  have hf : lastFallback (o.steps ++ steps) = lastFallback steps := by
    have hn : o.steps.filterMap Step.fallback? = [] := by
      cases o <;> rfl
    rw [lastFallback, List.filterMap_append, hn, List.nil_append, lastFallback]
  have h := follows_foldl (o.steps ++ steps)
  rwa [hf, List.foldl_append, ← ho] at h

theorem Follows.known_iff (h : t.Follows history fallback) :
    t.known n ↔ ∃ e ∈ history, normalName e.1 = normalName n := by
  rw [known, h.lookup, Option.isSome_map, Option.isSome_iff_ne_none, Ne, lastWhere_eq_none_iff]
  simp

theorem Follows.palette_of_latest (h : t.Follows history fallback) {e : String × Palette}
    (he : latest? history n = some e) : t.palette n = e.2 := by
  rw [palette, h.lookup]
  rw [latest?] at he
  rw [he]
  rfl

theorem palette_of_unknown (hn : ¬ t.known n) :
    t.palette n = t.fallbackPalette (normalName n) := by
  rw [known, Option.not_isSome_iff_eq_none] at hn
  rw [palette, hn]
  rfl

theorem getElem?_fallbackPalette (h : t.fallback ≠ []) (normal : String) :
    t.fallback[(Text.Hash.ofText normal).toNat % t.fallback.length]? =
      some (t.fallbackPalette normal) := by
  have hi : (Text.Hash.ofText normal).toNat % t.fallback.length < t.fallback.length :=
    Nat.mod_lt _ (List.length_pos_iff.mpr h)
  rw [fallbackPalette, List.getElem?_eq_getElem hi, Option.getD_some]

theorem fallbackPalette_of_nil (h : t.fallback = []) (normal : String) :
    t.fallbackPalette normal = gray := by
  rw [fallbackPalette, h]
  rfl

theorem style_congr {n' : String} (h : normalName n' = normalName n) (m : AllocMode) :
    t.style n' m = t.style n m := by
  rw [style, style, palette, palette, h]

/-- Of all spellings with one normal form the latest registration counts, wherever fallback
palettes were set in between. Other names share the fallback palettes that were set last. -/
theorem latest_registration_decides (o : Origin) (steps : List Step) (n : String) :
    let t := build o steps
    let history := registrations o steps
    let fallback := lastFallback steps
    (t.known n ↔ ∃ e ∈ history, normalName e.1 = normalName n) ∧
    (t.known n → ∃ e, latest? history n = some e ∧ t.palette n = e.2) ∧
    (¬ t.known n → fallback ≠ [] →
      fallback[(Text.Hash.ofText (normalName n)).toNat % fallback.length]? =
        some (t.palette n)) ∧
    (¬ t.known n → fallback = [] → t.palette n = gray) ∧
    ∀ n', normalName n' = normalName n → ∀ m, t.style n' m = t.style n m := by
  intro t history fallback
  have h : t.Follows history fallback := follows_build o steps
  refine ⟨h.known_iff, ?_, ?_, ?_, fun n' hn m => style_congr hn m⟩
  · intro hn
    have hsome : latest? history n ≠ none := by
      rw [latest?, Ne, lastWhere_eq_none_iff]
      intro hnone
      obtain ⟨e, he, hk⟩ := h.known_iff.mp hn
      exact hnone e he (by simpa using hk)
    obtain ⟨e, he⟩ := Option.ne_none_iff_exists'.mp hsome
    exact ⟨e, he, h.palette_of_latest he⟩
  · intro hn hf
    rw [palette_of_unknown hn, ← h.fallback] at *
    exact getElem?_fallbackPalette hf _
  · intro hn hf
    rw [palette_of_unknown hn]
    exact fallbackPalette_of_nil (h.fallback.trans hf) _

def respelled : List Step :=
  [.setFallback [⟨⟨9, 9, 9⟩, ⟨8, 8, 8⟩⟩], .register ["H-P", "mine"] ⟨⟨1, 2, 3⟩, ⟨4, 5, 6⟩⟩,
   .setFallback []]

theorem latest_registration_decides_respelled :
    (build .default respelled).palette "hp" = ⟨⟨1, 2, 3⟩, ⟨4, 5, 6⟩⟩ ∧
      (build .default respelled).palette "HazardPointer" =
        ⟨⟨158, 202, 225⟩, ⟨31, 119, 180⟩⟩ ∧
      (build .default respelled).palette "LCRQ" = gray ∧
      (build .default respelled).style "H_p" .heap =
        (build .default respelled).style "hp" .heap := by
  obtain ⟨hknown, hlatest, _, _, hstyle⟩ := latest_registration_decides .default respelled "hp"
  obtain ⟨hlong, hold, _⟩ := latest_registration_decides .default respelled "HazardPointer"
  obtain ⟨hother, _, _, hgray, _⟩ := latest_registration_decides .default respelled "LCRQ"
  refine ⟨?_, ?_, ?_, hstyle "H_p" (by decide) .heap⟩
  · obtain ⟨e, he, hp⟩ := hlatest (hknown.mpr (by decide))
    have hnew : latest? (registrations .default respelled) "hp" =
        some ("H-P", ⟨⟨1, 2, 3⟩, ⟨4, 5, 6⟩⟩) := by decide
    rw [hp, Option.some.inj (he.symm.trans hnew)]
  · obtain ⟨e, he, hp⟩ := hold (hlong.mpr (by decide))
    have hfirst : latest? (registrations .default respelled) "HazardPointer" =
        some ("HazardPointer", ⟨⟨158, 202, 225⟩, ⟨31, 119, 180⟩⟩) := by decide
    rw [hp, Option.some.inj (he.symm.trans hfirst)]
  · exact hgray (mt hother.mp (by decide)) (by decide)

end StyleTable

end QueueBench
