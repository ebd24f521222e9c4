import Mathlib.Data.List.Pairwise
import QueueBench.Proofs.Path

/-! # Trees of files

Whatever is put in place and in whatever order, a place holds a file or a folder and not both, and
files stand under names. A name in a folder is found by the path of the folder joined with it. -/
namespace QueueBench.FileTree

open QueueBench.Path (IsName Place join)

variable {t : FileTree} {path name : OsString} {here folder names : List OsString}
variable {content : Content}

/-- No place is held twice, unless as a folder, and a file has a name. -/
structure WellFormed (t : FileTree) : Prop where
  distinct : t.entries.Pairwise fun a b => a.1 = b.1 → a.2 = .folder ∧ b.2 = .folder
  named : ∀ names content, (names, Entry.file content) ∈ t.entries →
    ∃ folder n, names = folder ++ [n] ∧ IsName n

section Plant

theorem wellFormed_empty : empty.WellFormed := ⟨List.Pairwise.nil, fun _ _ h => nomatch h⟩

/-- What can be put at a path: a folder, or a file unless the path leads to a given place. -/
structure Fits (path : OsString) (e : Entry) : Prop where
  valid : Path.isValid path
  named : e = .folder ∨ ¬ isGiven (Path.names path)

def added (path : OsString) (e : Entry) : List (List OsString × Entry) :=
  (Path.names path, e) ::
    ((Path.walk (Path.start path) (Path.parts path)).filter fun p =>
      p ≠ Path.names path ∧ ¬ isGiven p).map fun p => (p, .folder)

theorem entries_plant (t : FileTree) (path : OsString) (e : Entry) :
    (t.plant path e).entries = added path e ++
      t.entries.filter fun old => (added path e).all fun new => new.1 ≠ old.1 := rfl

theorem pairwise_added (path : OsString) (e : Entry) :
    (added path e).Pairwise fun a b => a.1 = b.1 → a.2 = .folder ∧ b.2 = .folder := by
  rw [added, List.pairwise_cons, List.pairwise_map]
  refine ⟨fun b hb heq => ?_, List.pairwise_of_forall fun _ _ _ => ⟨rfl, rfl⟩⟩
  obtain ⟨p, hp, rfl⟩ := List.mem_map.mp hb
  exact ((of_decide_eq_true (List.mem_filter.mp hp).2).1 heq.symm).elim

theorem exists_name_of_mem_added {e : Entry} (he : Fits path e)
    (h : (names, .file content) ∈ added path e) : ∃ folder n, names = folder ++ [n] ∧ IsName n := by
  rcases List.mem_cons.mp h with heq | hmem
  · obtain ⟨rfl, rfl⟩ := Prod.mk.inj heq
    exact (Path.place_names he.valid).exists_name (he.named.resolve_left nofun)
  · obtain ⟨p, _, hp⟩ := List.mem_map.mp hmem
    cases (Prod.mk.inj hp).2

theorem WellFormed.plant (ht : t.WellFormed) {e : Entry} (he : Fits path e) :
    (t.plant path e).WellFormed := by
  constructor
  · rw [entries_plant, List.pairwise_append]
    refine ⟨pairwise_added path e, ht.distinct.filter _, fun a ha b hb heq => ?_⟩
    have hne := List.all_eq_true.mp (List.mem_filter.mp hb).2 a ha
    exact (of_decide_eq_true hne heq).elim
  · intro names content hmem
    rw [entries_plant] at hmem
    rcases List.mem_append.mp hmem with hmem | hmem
    · exact exists_name_of_mem_added he hmem
    · exact ht.named names content (List.mem_filter.mp hmem).1

def plantAll (t : FileTree) (plantings : List (OsString × Entry)) : FileTree :=
  plantings.foldl (fun t p => t.plant p.1 p.2) t

theorem WellFormed.plantAll (ht : t.WellFormed) {plantings : List (OsString × Entry)}
    (hp : ∀ p ∈ plantings, Fits p.1 p.2) : (t.plantAll plantings).WellFormed := by
  induction plantings generalizing t with
  | nil => exact ht
  | cons p plantings ih =>
    exact ih (ht.plant (hp p List.mem_cons_self)) fun q hq => hp q (List.mem_cons_of_mem _ hq)

end Plant

section Files

theorem WellFormed.eq_of_mem (ht : t.WellFormed) {e e' : Entry} (h : (names, e) ∈ t.entries)
    (h' : (names, e') ∈ t.entries) : e = e' := by
  have : Std.Symm fun a b : List OsString × Entry =>
      a.1 = b.1 → a.2 = .folder ∧ b.2 = .folder := ⟨fun _ _ hab heq => (hab heq.symm).symm⟩
  by_contra hne
  obtain ⟨he, he'⟩ := ht.distinct.forall h h' (fun heq => hne (Prod.mk.inj heq).2) rfl
  exact hne (he.trans he'.symm)

theorem lookup_eq_some_iff (ht : t.WellFormed) {e : Entry} :
    t.entries.lookup names = some e ↔ (names, e) ∈ t.entries := by
  have hmem {e : Entry} (h : t.entries.lookup names = some e) : (names, e) ∈ t.entries := by
    obtain ⟨before, after, he, _⟩ := List.lookup_eq_some_iff.mp h
    rw [he]
    simp
  refine ⟨hmem, fun h => ?_⟩
  cases hl : t.entries.lookup names with
  | some e' => rw [ht.eq_of_mem h (hmem hl)]
  | none =>
    have hkey := List.lookup_eq_none_iff.mp hl (names, e) h
    simp at hkey

theorem entry_eq_file_iff (ht : t.WellFormed) :
    t.entry? names = some (.file content) ↔ (names, .file content) ∈ t.entries := by
  unfold entry?
  split
  · rename_i hgiven
    refine ⟨nofun, fun hmem => ?_⟩
    obtain ⟨folder, n, rfl, hn⟩ := ht.named names content hmem
    rw [Path.isGiven_append_name folder hn] at hgiven
    cases hgiven
  · exact lookup_eq_some_iff ht

/-- In whatever order the entries stand, they are found in the same places. -/
theorem entry_of_perm (ht : t.WellFormed) {t' : FileTree} (ht' : t'.WellFormed)
    (h : t'.entries.Perm t.entries) (names : List OsString) : t'.entry? names = t.entry? names := by
  unfold entry?
  split
  · rfl
  · ext e
    rw [lookup_eq_some_iff ht', lookup_eq_some_iff ht, h.mem_iff]

def fileIn (folder : List OsString) : List OsString × Entry → Option OsString
  | (names, .file _) => if names.dropLast = folder then names.getLast? else none
  | (_, .folder) => none

theorem filesIn_eq (t : FileTree) (folder : List OsString) :
    t.filesIn folder = t.entries.filterMap (fileIn folder) := rfl

theorem fileIn_eq_some_iff {entry : List OsString × Entry} :
    fileIn folder entry = some name ↔ ∃ content, entry = (folder ++ [name], .file content) := by
  obtain ⟨names, e⟩ := entry
  cases e with
  | folder => simp [fileIn]
  | file content =>
    rw [fileIn, Option.ite_none_right_eq_some, List.getLast?_eq_some_iff]
    constructor
    · rintro ⟨rfl, front, rfl⟩
      exact ⟨content, by rw [List.dropLast_concat]⟩
    · rintro ⟨_, he⟩
      rw [(Prod.mk.inj he).1]
      exact ⟨List.dropLast_concat, folder, rfl⟩

theorem mem_filesIn_iff (ht : t.WellFormed) :
    name ∈ t.filesIn folder ↔ ∃ content, t.entry? (folder ++ [name]) = some (.file content) := by
  simp only [entry_eq_file_iff ht, filesIn_eq, List.mem_filterMap, fileIn_eq_some_iff]
  exact ⟨fun ⟨_, hmem, content, he⟩ => ⟨content, he ▸ hmem⟩,
    fun ⟨content, hmem⟩ => ⟨_, hmem, content, rfl⟩⟩

theorem isName_of_mem_filesIn (ht : t.WellFormed) (h : name ∈ t.filesIn folder) : IsName name := by
  obtain ⟨content, hb⟩ := (mem_filesIn_iff ht).mp h
  obtain ⟨front, n, he, hn⟩ := ht.named _ content ((entry_eq_file_iff ht).mp hb)
  obtain ⟨_, hname⟩ := List.append_inj' he rfl
  rwa [List.singleton_inj.mp hname]

theorem nodup_filesIn (ht : t.WellFormed) (folder : List OsString) : (t.filesIn folder).Nodup := by
  rw [List.Nodup, filesIn_eq, List.pairwise_filterMap]
  refine ht.distinct.imp fun hdistinct m hm n hn he => ?_
  obtain ⟨_, rfl⟩ := fileIn_eq_some_iff.mp hm
  obtain ⟨_, rfl⟩ := fileIn_eq_some_iff.mp hn
  cases (hdistinct (by rw [he])).1

end Files

section Follow

theorem follow_append (t : FileTree) (here : List OsString) (xs ys : List OsString) :
    t.follow here (xs ++ ys) = (t.follow here xs).bind fun there => t.follow there ys := by
  induction xs generalizing here with
  | nil => rfl
  | cons x xs ih =>
    simp only [List.cons_append, follow]
    split
    · exact ih _
    · rfl

theorem eq_of_follow_blank {there : List OsString} (h : t.follow here [.ofText ""] = some there) :
    here = there := by
  simp only [follow, Path.step, true_or, if_true, Option.ite_none_right_eq_some,
    Option.some.injEq] at h
  exact h.2

theorem follow_name (hf : t.entry? here = some .folder) (hn : IsName name)
    (he : (t.entry? (here ++ [name])).isSome) : t.follow here [name] = some (here ++ [name]) := by
  have hstep : Path.step here name = here ++ [name] := by
    simp [Path.step, hn.ne_empty, hn.ne_dot, hn.ne_dots]
  simp only [follow, hstep, hf, he, and_self, if_true]

/-- A path and a name in the folder to which it leads. -/
theorem resolve_join (hp : t.resolve path = some folder) (hf : t.entry? folder = some .folder)
    (hn : IsName name) (he : (t.entry? (folder ++ [name])).isSome)
    (hs : (join path name).bytes.length ≤ Path.longestPath) :
    t.resolve (join path name) = some (folder ++ [name]) := by
  rw [resolve, Option.ite_none_right_eq_some] at hp
  obtain ⟨hvalid, hp⟩ := hp
  obtain ⟨front, hfront, hjoin⟩ := Path.exists_join_eq (Path.isValid_iff.mp hvalid).1
  have hlead : t.follow (Path.start path) (Path.parts ⟨front⟩) = some folder := by
    rcases hfront.parts_eq with hparts | hparts
    · rwa [hparts] at hp
    · rw [hparts, follow_append] at hp
      obtain ⟨there, hthere, hlast⟩ := Option.bind_eq_some_iff.mp hp
      rw [hthere, eq_of_follow_blank hlast]
  rw [resolve, if_pos ((Path.isValid_join_iff hvalid hn).mpr hs), hjoin name hn,
    Path.parts_append_slash, Path.parts_of_no_slash hn.no_slash, ← hfront.start_eq name.bytes,
    follow_append,
    hlead]
  exact follow_name hf hn he

theorem follow_dots (hf : t.entry? here = some .folder) (k : ℕ) (parts : List OsString) :
    t.follow here (List.replicate k (.ofText ".") ++ parts) = t.follow here parts := by
  induction k with
  | zero => rfl
  | succ k ih =>
    have hstep : Path.step here (.ofText ".") = here := by simp [Path.step]
    simp only [List.replicate_succ, List.cons_append, follow, hstep, hf, Option.isSome_some,
      and_self, if_true, ih]

/-- Single dots in front of a path from the working folder stay there. -/
theorem resolve_behindDots {k : ℕ} (hp : t.resolve path = some folder)
    (hstart : Path.start path = [])
    (hs : (Path.behindDots path k).bytes.length ≤ Path.longestPath) :
    t.resolve (Path.behindDots path k) = some folder := by
  rw [resolve, Option.ite_none_right_eq_some] at hp
  obtain ⟨hvalid, hfollow⟩ := hp
  have hworking : t.entry? [] = some .folder := rfl
  rw [resolve, if_pos (Path.isValid_behindDots hvalid hs), Path.start_behindDots hstart,
    Path.parts_behindDots, follow_dots hworking, ← hstart, hfollow]

end Follow

end QueueBench.FileTree
