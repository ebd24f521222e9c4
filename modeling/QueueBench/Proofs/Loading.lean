import Mathlib.Data.List.Basic
import Mathlib.Data.List.Induction
import QueueBench.Proofs.Logged

/-! # Loading file after file

A loop that adds what each file gives to four growing lists ends with the lists of a loading. So
paths may be loaded in parts, and a path that cannot be read leaves nothing behind but its own
entry. -/
namespace QueueBench

/-- Each element is dealt to one of two lists, and both keep its order. -/
inductive Deals {α : Type} : List α → List α → List α → Prop where
  | nil : Deals [] [] []
  | left {as ls rs : List α} (a : α) : Deals as ls rs → Deals (a :: as) (a :: ls) rs
  | right {as ls rs : List α} (a : α) : Deals as ls rs → Deals (a :: as) ls (a :: rs)

namespace Loading

variable {t : FileTree} {marker : String} {p : OsString} {ps : List OsString}

structure Lists where
  files : List OsString
  runs : List Run
  rejections : List Rejection
  unreadable : List (OsString × LoadError)

def lists (l : Loading) : Lists := ⟨l.files, l.runs, l.rejections, l.unreadable⟩

namespace Lists

def empty : Lists := ⟨[], [], [], []⟩

def append (g h : Lists) : Lists :=
  ⟨g.files ++ h.files, g.runs ++ h.runs, g.rejections ++ h.rejections,
    g.unreadable ++ h.unreadable⟩

/-- Load one more path. A file that cannot be read adds neither a run nor a rejected row. -/
def visit (t : FileTree) (marker : String) (g : Lists) (path : OsString) : Lists :=
  match t.load marker path with
  | .ok f =>
    { g with
      files := g.files ++ [path]
      runs := g.runs ++ f.runs
      rejections := g.rejections ++ f.rejections }
  | .error e => { g with unreadable := g.unreadable ++ [(path, e)] }

end Lists

theorem lists_append (t : FileTree) (marker : String) (ps qs : List OsString) :
    (ofPaths t marker (ps ++ qs)).lists =
      (ofPaths t marker ps).lists.append (ofPaths t marker qs).lists := by
  simp only [lists, Lists.append, files, runs, rejections, unreadable, resultFiles, ofPaths_eq,
    List.map_append, List.filterMap_append, List.flatMap_append]

theorem lists_of_ok {f : ResultFile} (h : t.load marker p = .ok f) :
    (ofPaths t marker [p]).lists = ⟨[p], f.runs, f.rejections, []⟩ := by
  simp [lists, files, runs, rejections, unreadable, resultFiles, ofPaths_eq, h, Except.toOption]

theorem lists_of_error {e : LoadError} (h : t.load marker p = .error e) :
    (ofPaths t marker [p]).lists = ⟨[], [], [], [(p, e)]⟩ := by
  simp [lists, files, runs, rejections, unreadable, resultFiles, ofPaths_eq, h, Except.toOption]

/-- A visit adds what the path gives on its own. -/
theorem visit_eq (g : Lists) (p : OsString) :
    g.visit t marker p = g.append (ofPaths t marker [p]).lists := by
  cases h : t.load marker p with
  | ok f => simp [Lists.visit, Lists.append, h, lists_of_ok h]
  | error e => simp [Lists.visit, Lists.append, h, lists_of_error h]

theorem foldl_visit (t : FileTree) (marker : String) (ps : List OsString) :
    ps.foldl (Lists.visit t marker) .empty = (ofPaths t marker ps).lists := by
  induction ps using List.reverseRecOn with
  | nil => rfl
  | append_singleton ps p ih => rw [List.foldl_concat, ih, visit_eq, lists_append]

theorem deals_ofPaths (t : FileTree) (marker : String) (ps : List OsString) :
    Deals ps (ofPaths t marker ps).files ((ofPaths t marker ps).unreadable.map Prod.fst) := by
  induction ps with
  | nil => exact .nil
  | cons p ps ih =>
    have hcons := lists_append t marker [p] ps
    cases h : t.load marker p with
    | ok f =>
      rw [lists_of_ok h] at hcons
      have hfiles : (ofPaths t marker (p :: ps)).files = p :: (ofPaths t marker ps).files :=
        congrArg Lists.files hcons
      have hskipped : (ofPaths t marker (p :: ps)).unreadable = (ofPaths t marker ps).unreadable :=
        congrArg Lists.unreadable hcons
      rw [hfiles, hskipped]
      exact ih.left p
    | error e =>
      rw [lists_of_error h] at hcons
      have hfiles : (ofPaths t marker (p :: ps)).files = (ofPaths t marker ps).files :=
        congrArg Lists.files hcons
      have hskipped : (ofPaths t marker (p :: ps)).unreadable =
          (p, e) :: (ofPaths t marker ps).unreadable := congrArg Lists.unreadable hcons
      rw [hfiles, hskipped]
      exact ih.right p

theorem ok_of_mem_files (h : p ∈ (ofPaths t marker ps).files) :
    ∃ f, t.load marker p = .ok f := by
  simp only [files, ofPaths_eq, List.filterMap_map, List.mem_filterMap] at h
  obtain ⟨q, _, hq⟩ := h
  cases hl : t.load marker q with
  | ok f =>
    simp only [Function.comp, hl, Except.toOption, Option.map_some, Option.some.injEq] at hq
    exact ⟨f, hq ▸ hl⟩
  | error e => simp [hl, Except.toOption] at hq

theorem error_of_mem_unreadable (h : p ∈ (ofPaths t marker ps).unreadable.map Prod.fst) :
    ∃ e, t.load marker p = .error e := by
  obtain ⟨⟨q, e⟩, hq, rfl⟩ := List.mem_map.mp h
  simp only [unreadable, ofPaths_eq, List.filterMap_map, List.mem_filterMap] at hq
  obtain ⟨r, _, hr⟩ := hq
  cases hl : t.load marker r with
  | ok f => simp [hl] at hr
  | error e' =>
    simp only [Function.comp, hl, Option.some.injEq, Prod.mk.injEq] at hr
    exact ⟨e', hr.1 ▸ hl⟩

/-- Wherever an unreadable path stands, the others give what they give without it. -/
theorem lists_of_unreadable {e : LoadError} (h : t.load marker p = .error e)
    (ps qs : List OsString) :
    (ofPaths t marker (ps ++ p :: qs)).lists =
      { (ofPaths t marker (ps ++ qs)).lists with
        unreadable := (ofPaths t marker ps).unreadable ++ (p, e) ::
          (ofPaths t marker qs).unreadable } := by
  have hcons := lists_append t marker [p] qs
  rw [List.singleton_append, lists_of_error h] at hcons
  rw [lists_append, hcons, lists_append]
  simp [Lists.append, lists]

/-- Paths loaded together give what they give in two parts, list by list, and a loop over the
paths gathers the same. Each path ends among the files or among the unreadable paths, in order,
and an unreadable one gives no run and no rejected row. -/
theorem loads_file_by_file (t : FileTree) (marker : String) (ps qs : List OsString) :
    let loaded := ofPaths t marker
    (loaded (ps ++ qs)).files = (loaded ps).files ++ (loaded qs).files ∧
    (loaded (ps ++ qs)).runs = (loaded ps).runs ++ (loaded qs).runs ∧
    (loaded (ps ++ qs)).rejections = (loaded ps).rejections ++ (loaded qs).rejections ∧
    (loaded (ps ++ qs)).unreadable = (loaded ps).unreadable ++ (loaded qs).unreadable ∧
    ps.foldl (Lists.visit t marker) .empty = (loaded ps).lists ∧
    Deals ps (loaded ps).files ((loaded ps).unreadable.map Prod.fst) ∧
    (∀ p ∈ (loaded ps).files, p ∉ (loaded ps).unreadable.map Prod.fst) ∧
    ∀ p ∈ (loaded ps).unreadable.map Prod.fst, ∀ before behind,
      (loaded (before ++ p :: behind)).runs = (loaded (before ++ behind)).runs ∧
      (loaded (before ++ p :: behind)).rejections = (loaded (before ++ behind)).rejections := by
  intro loaded
  have happend : (loaded (ps ++ qs)).lists = (loaded ps).lists.append (loaded qs).lists :=
    lists_append t marker ps qs
  refine ⟨congrArg Lists.files happend, congrArg Lists.runs happend,
    congrArg Lists.rejections happend, congrArg Lists.unreadable happend,
    foldl_visit t marker ps, deals_ofPaths t marker ps, ?_, ?_⟩
  · intro p hread hskipped
    obtain ⟨f, hf⟩ := ok_of_mem_files hread
    obtain ⟨e, he⟩ := error_of_mem_unreadable hskipped
    rw [hf] at he
    cases he
  · intro p hskipped before behind
    obtain ⟨e, he⟩ := error_of_mem_unreadable hskipped
    have hlists := lists_of_unreadable he before behind
    exact ⟨congrArg Lists.runs hlists, congrArg Lists.rejections hlists⟩

/-- A file with one good and one bad row, one whose header is no text, one that cannot be opened,
and a folder with the name of a file. -/
def faultyTree : FileTree :=
  let rows := "impl,P,C,payload_us,throughput\nebr,1,1,100,10.0\n,1,1,100,10.0\n"
  FileTree.empty.plant "out/a.csv" (.file (.whole (Text.encode rows)))
    |>.plant "out/b.csv" (.file (.whole (0xFF :: Text.encode rows)))
    |>.plant "out/c.csv" .folder
    |>.plant "out/d.csv" (.file (.closed "Permission denied (os error 13)"))

/-- Without the path whose header is no text, the others give the same runs and rejected rows. -/
theorem loads_file_by_file_faulty :
    let loaded := ofPaths faultyTree "pool"
    let paths : List OsString :=
      ["out/gone.csv", "out/b.csv", "out/d.csv", "out/a.csv", "out/c.csv"]
    let others : List OsString := ["out/gone.csv", "out/d.csv", "out/a.csv", "out/c.csv"]
    (.ofText "out/b.csv") ∈ (loaded ["out/b.csv"]).unreadable.map Prod.fst ∧
      (loaded others).runs.length = 1 ∧ (loaded others).rejections.length = 1 ∧
      (loaded paths).runs = (loaded others).runs ∧
      (loaded paths).rejections = (loaded others).rejections := by
  intro loaded paths others
  have hskipped : (.ofText "out/b.csv") ∈ (loaded ["out/b.csv"]).unreadable.map Prod.fst := by
    decide +kernel
  obtain ⟨_, _, _, _, _, _, _, hnothing⟩ :=
    loads_file_by_file faultyTree "pool" ["out/b.csv"] []
  exact ⟨hskipped, by decide +kernel, by decide +kernel,
    hnothing _ hskipped ["out/gone.csv"] ["out/d.csv", "out/a.csv", "out/c.csv"]⟩

end Loading

end QueueBench
