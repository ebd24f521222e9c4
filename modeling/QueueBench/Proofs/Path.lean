import Mathlib.Data.List.TakeWhile
import Mathlib.Tactic.Push
import Mathlib.Tactic.Tauto
import QueueBench.Loading
import QueueBench.Proofs.OsString

/-! # Paths and names

A name is what an entry of a folder may be called. Joining a path and a name adds one part to the
path, and the places that a path can pass are the given ones and names below them. -/
namespace QueueBench.Path

variable {path name part : OsString} {here : List OsString} {front : List UInt8}

structure IsName (n : OsString) : Prop where
  ne_empty : n ≠ ""
  ne_dot : n ≠ "."
  ne_dots : n ≠ ".."
  no_slash : slash ∉ n.bytes
  no_nul : 0 ∉ n.bytes
  short : n.bytes.length ≤ longestName

instance (n : OsString) : Decidable (IsName n) :=
  decidable_of_iff (n ≠ "" ∧ n ≠ "." ∧ n ≠ ".." ∧ slash ∉ n.bytes ∧ 0 ∉ n.bytes ∧
      n.bytes.length ≤ longestName)
    ⟨fun ⟨h₁, h₂, h₃, h₄, h₅, h₆⟩ => ⟨h₁, h₂, h₃, h₄, h₅, h₆⟩,
      fun h => ⟨h.ne_empty, h.ne_dot, h.ne_dots, h.no_slash, h.no_nul, h.short⟩⟩

theorem ne_empty_iff : path ≠ "" ↔ path.bytes ≠ [] := by
  rw [ne_eq, OsString.ext_iff]
  exact Iff.rfl

section Parts

theorem not_mem_of_mem_splitOn {α : Type} [DecidableEq α] {a : α} {as xs : List α}
    (h : xs ∈ as.splitOn a) : a ∉ xs := by
  induction as generalizing xs with
  | nil => simp_all
  | cons b as ih =>
    rw [List.splitOn_cons_eq_if_modifyHead] at h
    split at h
    · rcases List.mem_cons.mp h with rfl | h
      · exact List.not_mem_nil
      · exact ih h
    · rename_i hb
      obtain ⟨first, rest, hsplit⟩ := List.exists_cons_of_ne_nil (List.splitOn_ne_nil a as)
      rw [hsplit, List.modifyHead_cons, List.mem_cons] at h
      rcases h with rfl | h
      · have hfirst : a ∉ first := ih (by rw [hsplit]; exact List.mem_cons_self)
        have hne : a ≠ b := fun he => hb (by simp [he])
        simp [hne, hfirst]
      · exact ih (by rw [hsplit]; exact List.mem_cons_of_mem _ h)

theorem no_slash_of_mem_parts (h : part ∈ parts path) : slash ∉ part.bytes := by
  obtain ⟨bytes, hbytes, rfl⟩ := List.mem_map.mp h
  exact not_mem_of_mem_splitOn hbytes

theorem parts_of_no_slash (h : slash ∉ name.bytes) : parts name = [name] := by
  rw [parts, List.splitOn_eq_singleton h, List.map_singleton]

theorem parts_append_slash (xs ys : List UInt8) :
    parts ⟨xs ++ slash :: ys⟩ = parts ⟨xs⟩ ++ parts ⟨ys⟩ := by
  simp only [parts, List.splitOn_append_cons_self, List.map_append]

end Parts

section Join

inductive Fronts (front : List UInt8) : OsString → Prop where
  | bare (h : front ≠ []) : Fronts front ⟨front⟩
  | slashed : Fronts front ⟨front ++ [slash]⟩

theorem exists_join_eq (hp : path ≠ "") :
    ∃ front, Fronts front path ∧
      ∀ name, IsName name → join path name = ⟨front ++ slash :: name.bytes⟩ := by
  have hstart {name : OsString} (hn : IsName name) :
      ¬ (name.bytes.head? = some slash ∨ path = "") := by
    rintro (hslash | hempty)
    · exact hn.no_slash (List.mem_of_head? hslash)
    · exact hp hempty
  by_cases hend : path.bytes.getLast? = some slash
  · obtain ⟨front, hfront⟩ := List.getLast?_eq_some_iff.mp hend
    obtain rfl : path = ⟨front ++ [slash]⟩ := OsString.ext hfront
    refine ⟨front, .slashed, fun name hn => ?_⟩
    rw [join, if_neg (hstart hn), if_pos hend, List.append_assoc, List.singleton_append]
  · exact ⟨path.bytes, .bare (ne_empty_iff.mp hp), fun name hn => by
      rw [join, if_neg (hstart hn), if_neg hend]⟩

theorem join_injective {n m : OsString} (hp : path ≠ "") (hn : IsName n) (hm : IsName m)
    (h : join path n = join path m) : n = m := by
  obtain ⟨front, _, hjoin⟩ := exists_join_eq hp
  rw [hjoin n hn, hjoin m hm, OsString.mk.injEq, List.append_cancel_left_eq, List.cons.injEq] at h
  exact OsString.ext h.2

theorem Fronts.start_eq (h : Fronts front path) (bytes : List UInt8) :
    start path = start ⟨front ++ slash :: bytes⟩ := by
  suffices hhead : path.bytes.head? = (front ++ slash :: bytes).head? by
    rw [start, start, hhead]
  cases h with
  | bare h =>
    obtain ⟨b, bs, rfl⟩ := List.exists_cons_of_ne_nil h
    rfl
  | slashed => cases front <;> rfl

theorem Fronts.parts_eq (h : Fronts front path) :
    parts path = parts ⟨front⟩ ∨ parts path = parts ⟨front⟩ ++ [.ofText ""] := by
  cases h with
  | bare h => exact Or.inl rfl
  | slashed => exact Or.inr (parts_append_slash front [])

theorem length_join (hp : path ≠ "") (hn : IsName name) :
    path.bytes.length + name.bytes.length ≤ (join path name).bytes.length ∧
      (join path name).bytes.length ≤ path.bytes.length + name.bytes.length + 1 := by
  obtain ⟨front, hfront, hjoin⟩ := exists_join_eq hp
  rw [hjoin name hn, List.length_append, List.length_cons]
  cases hfront with
  | bare => dsimp only; omega
  | slashed =>
    rw [List.length_append, List.length_singleton]
    omega

theorem isValid_iff : isValid path ↔ path ≠ "" ∧ path.bytes.length ≤ longestPath ∧
    ∀ part ∈ parts path, part.bytes.length ≤ longestName ∧ 0 ∉ part.bytes := by
  simp only [isValid, Bool.and_eq_true, decide_eq_true_eq, List.all_eq_true, and_assoc]
  refine and_congr_right fun _ => and_congr_right fun _ => forall₂_congr fun part _ => ?_
  refine and_congr_right fun _ => ⟨fun h hnul => h _ hnul rfl, fun h b hb he => h (he ▸ hb)⟩

/-- Joined to a path that can lead somewhere, a name can be too long only as a whole. -/
theorem isValid_join_iff (hp : isValid path) (hn : IsName name) :
    isValid (join path name) ↔ (join path name).bytes.length ≤ longestPath := by
  obtain ⟨hne, _, hparts⟩ := isValid_iff.mp hp
  obtain ⟨front, hfront, hjoin⟩ := exists_join_eq hne
  rw [isValid_iff, hjoin name hn, parts_append_slash, parts_of_no_slash hn.no_slash]
  refine ⟨fun ⟨_, hsize, _⟩ => hsize, fun hsize => ⟨?_, hsize, ?_⟩⟩
  · rw [ne_empty_iff]
    simp
  · intro part hpart
    rcases List.mem_append.mp hpart with hpart | hpart
    · apply hparts
      rcases hfront.parts_eq with he | he <;> rw [he] <;> simp [hpart]
    · obtain rfl := List.mem_singleton.mp hpart
      exact ⟨hn.short, hn.no_nul⟩

end Join

section Places

/-- Where parts of a path can lead: to a given place or to a name below a place. -/
inductive Place : List OsString → Prop where
  | given {names : List OsString} (h : FileTree.isGiven names) : Place names
  | named {names : List OsString} {n : OsString} (h : Place names) (hn : IsName n) :
    Place (names ++ [n])

theorem isGiven_iff : FileTree.isGiven here ↔ here = [↑"/"] ∨ ∀ n ∈ here, n = ".." := by
  simp [FileTree.isGiven]

theorem Place.exists_name (h : Place here) (hg : ¬ FileTree.isGiven here) :
    ∃ folder n, here = folder ++ [n] ∧ IsName n := by
  cases h with
  | given h => exact (hg h).elim
  | named h hn => exact ⟨_, _, rfl, hn⟩

theorem isGiven_append_name (here : List OsString) (hn : IsName name) :
    FileTree.isGiven (here ++ [name]) = false := by
  rw [Bool.eq_false_iff, Ne, isGiven_iff]
  rintro (he | hall)
  · have hslash : name = "/" := by simpa using congrArg List.getLast? he
    exact hn.no_slash (by rw [hslash]; decide)
  · exact hn.ne_dots (hall name (by simp))

theorem place_back (h : Place here) (hroot : here ≠ [↑"/"]) (hne : here ≠ [])
    (hlast : here.getLast? ≠ some ↑"..") : Place here.dropLast := by
  cases h with
  | given h =>
    rcases isGiven_iff.mp h with he | hall
    · exact (hroot he).elim
    · rw [List.getLast?_eq_some_getLast hne, hall _ (List.getLast_mem hne)] at hlast
      exact (hlast rfl).elim
  | named h hn => rwa [List.dropLast_concat]

theorem place_around (h : Place here) (hroot : here ≠ [↑"/"])
    (hlast : here = [] ∨ here.getLast? = some ↑"..") : Place (here ++ [.ofText ".."]) := by
  apply Place.given
  rw [isGiven_iff]
  refine Or.inr fun n hn => ?_
  cases h with
  | given h =>
    rcases isGiven_iff.mp h with he | hall
    · exact (hroot he).elim
    · rcases List.mem_append.mp hn with hn | hn
      · exact hall n hn
      · exact List.mem_singleton.mp hn
  | named h hname =>
    rcases hlast with hlast | hlast
    · simp at hlast
    · rw [List.getLast?_concat, Option.some.injEq] at hlast
      exact (hname.ne_dots hlast).elim

/-- One part leads from a place to a place. -/
theorem place_step (h : Place here) (hs : slash ∉ part.bytes)
    (hv : part.bytes.length ≤ longestName ∧ 0 ∉ part.bytes) : Place (step here part) := by
  rw [step]
  split
  · exact h
  rename_i hstay
  push Not at hstay
  obtain ⟨hempty, hdot, hroot⟩ := hstay
  by_cases hdots : part = ".."
  · split
    · rename_i hback
      exact place_back h (hroot hdots) hback.2.1 hback.2.2
    · rename_i hforward
      rw [hdots]
      refine place_around h (hroot hdots) ?_
      tauto
  · rw [if_neg fun hback => hdots hback.1]
    exact .named h ⟨hempty, hdot, hdots, hs, hv.2, hv.1⟩

theorem place_foldl {ps : List OsString} (h : Place here)
    (hps : ∀ p ∈ ps, slash ∉ p.bytes ∧ p.bytes.length ≤ longestName ∧ 0 ∉ p.bytes) :
    Place (ps.foldl step here) := by
  induction ps generalizing here with
  | nil => exact h
  | cons p ps ih =>
    obtain ⟨hs, hv⟩ := hps p List.mem_cons_self
    exact ih (place_step h hs hv) fun q hq => hps q (List.mem_cons_of_mem _ hq)

theorem place_start (path : OsString) : Place (start path) := by
  apply Place.given
  rw [start]
  split <;> rfl

theorem place_names (hp : isValid path) : Place (names path) :=
  place_foldl (place_start path) fun part hpart =>
    ⟨no_slash_of_mem_parts hpart, (isValid_iff.mp hp).2.2 part hpart⟩

end Places

section Dots

def behindDots (path : OsString) : ℕ → OsString
  | 0 => path
  | k + 1 => ⟨dot :: slash :: (behindDots path k).bytes⟩

theorem parts_behindDots (path : OsString) (k : ℕ) :
    parts (behindDots path k) = List.replicate k (.ofText ".") ++ parts path := by
  induction k with
  | zero => rfl
  | succ k ih =>
    have hparts := parts_append_slash [dot] (behindDots path k).bytes
    have hdot : parts ⟨[dot]⟩ = [.ofText "."] := by decide
    rw [hdot, ih] at hparts
    exact hparts

theorem length_behindDots (path : OsString) (k : ℕ) :
    (behindDots path k).bytes.length = 2 * k + path.bytes.length := by
  induction k with
  | zero => simp [behindDots]
  | succ k ih =>
    rw [behindDots, List.length_cons, List.length_cons, ih]
    omega

theorem start_behindDots (hp : start path = []) (k : ℕ) : start (behindDots path k) = [] := by
  cases k with
  | zero => exact hp
  | succ k => exact if_neg (by simp [behindDots, dot, slash])

theorem isValid_behindDots {k : ℕ} (hp : isValid path)
    (hs : (behindDots path k).bytes.length ≤ longestPath) : isValid (behindDots path k) := by
  obtain ⟨hne, _, hparts⟩ := isValid_iff.mp hp
  rw [isValid_iff]
  refine ⟨?_, hs, ?_⟩
  · cases k with
    | zero => exact hne
    | succ k => exact ne_empty_iff.mpr (List.cons_ne_nil _ _)
  · rw [parts_behindDots]
    intro part hpart
    rcases List.mem_append.mp hpart with hdot | hpart
    · obtain rfl := List.eq_of_mem_replicate hdot
      decide
    · exact hparts part hpart

end Dots

section Extension

variable {extension : String}

/-- Behind the last dot, which does not stand first, stands a text with the letters of the
extension up to the case of ASCII. -/
def EndsIn (extension : String) (name : OsString) : Prop :=
  ∃ stem text, name.bytes = stem ++ dot :: Text.encode text ∧ stem ≠ [] ∧
    dot ∉ Text.encode text ∧ Text.asciiLower text = Text.asciiLower extension

theorem exists_split_of_dropWhile {α : Type} [DecidableEq α] {a : α} {as : List α}
    (h : (as.dropWhile (· ≠ a)).drop 1 ≠ []) :
    ∃ rest, rest ≠ [] ∧ as = as.takeWhile (· ≠ a) ++ a :: rest ∧ a ∉ as.takeWhile (· ≠ a) := by
  have hsplit : as.takeWhile (· ≠ a) ++ as.dropWhile (· ≠ a) = as := List.takeWhile_append_dropWhile
  have hhead := List.head?_dropWhile_not (fun b => decide (b ≠ a)) as
  cases hrest : as.dropWhile (· ≠ a) with
  | nil => exact (h (by rw [hrest]; rfl)).elim
  | cons b rest =>
    rw [hrest] at hsplit hhead h
    have hb : b = a := by simpa using hhead
    rw [hb] at hsplit
    refine ⟨rest, h, hsplit.symm, fun hmem => ?_⟩
    simpa using List.mem_takeWhile_imp hmem

theorem fileExtension?_eq_some_iff (hn : IsName name) {e : OsString} :
    fileExtension? name = some e ↔
      ∃ stem, name.bytes = stem ++ dot :: e.bytes ∧ stem ≠ [] ∧ dot ∉ e.bytes := by
  simp only [fileExtension?, hn.ne_dots, false_or, Option.ite_none_left_eq_some,
    Option.some.injEq]
  constructor
  · rintro ⟨hstem, rfl⟩
    obtain ⟨rest, hrest, hname, hdot⟩ := exists_split_of_dropWhile hstem
    refine ⟨rest.reverse, ?_, by simpa using hrest, by rwa [List.mem_reverse]⟩
    simpa using congrArg List.reverse hname
  · rintro ⟨stem, hname, hstem, hdot⟩
    have hletters : ∀ b ∈ e.bytes.reverse, decide (b ≠ dot) := by
      intro b hb
      rw [decide_eq_true_eq]
      rintro rfl
      exact hdot (List.mem_reverse.mp hb)
    have hreverse : name.bytes.reverse = e.bytes.reverse ++ dot :: stem.reverse := by
      simp [hname]
    rw [hreverse, List.dropWhile_append_of_pos hletters, List.takeWhile_append_of_pos hletters]
    simp [hstem]

theorem hasExtension_iff (hn : IsName name) :
    FileTree.hasExtension extension name ↔ EndsIn extension name := by
  have hbind (text : String) : (fileExtension? name).bind OsString.text? = some text ↔
      fileExtension? name = some (.ofText text) := by
    simp [Option.bind_eq_some_iff, OsString.text?_eq_some_iff]
  have htext : FileTree.hasExtension extension name ↔ ∃ text,
      fileExtension? name = some (.ofText text) ∧
        Text.asciiLower text = Text.asciiLower extension := by
    simp only [← hbind, FileTree.hasExtension]
    split
    · rename_i text htext
      simp [htext, Text.sameLetters]
    · rename_i hnone
      simp [hnone]
  simp only [htext, fileExtension?_eq_some_iff hn]
  constructor
  · rintro ⟨text, ⟨stem, hname, hstem, hdot⟩, he⟩
    exact ⟨stem, text, hname, hstem, hdot, he⟩
  · rintro ⟨stem, text, hname, hstem, hdot, he⟩
    exact ⟨text, ⟨stem, hname, hstem, hdot⟩, he⟩

end Extension

end QueueBench.Path
