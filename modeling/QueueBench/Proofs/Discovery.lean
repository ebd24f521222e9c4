import Mathlib.Data.List.Nodup
import QueueBench.Proofs.FileTree

/-! # Discovery of result files

Discovery lists the files directly in a folder that have the extension, in the order of the bytes
of their names, whatever the order in which they came there. A file whose path has become longer
than a path may be cannot be reached by it and is left out. -/
namespace QueueBench.FileTree

open QueueBench.Path (IsName EndsIn join)

variable {t t' : FileTree} {path name : OsString} {extension : String}
  {folder names : List OsString}

/-- The files in the folder with the extension, of those that the path of the folder can reach. -/
structure Listing (t : FileTree) (path : OsString) (folder : List OsString) (extension : String)
    (names : List OsString) : Prop where
  ascending : names.Pairwise fun a b => a.bytes < b.bytes
  nodup : (names.map (join path)).Nodup
  mem_iff : ∀ n, n ∈ names ↔ (∃ content, t.entry? (folder ++ [n]) = some (.file content)) ∧
    EndsIn extension n ∧ (join path n).bytes.length ≤ Path.longestPath
  leads : ∀ n ∈ names, t.find? (join path n) = t.entry? (folder ++ [n])

def found (t : FileTree) (path : OsString) (folder : List OsString) (extension : String) :
    List OsString :=
  (((t.filesIn folder).filter (hasExtension extension)).mergeSort OsString.le).filter
    fun n => Path.isValid (join path n)

theorem search_of_folder (hp : t.resolve path = some folder)
    (hf : t.entry? folder = some .folder) :
    t.search path extension = ⟨(t.found path folder extension).map (join path), []⟩ := by
  have hfolder : t.folder? path = some folder := by
    rw [folder?, hp, Option.filter_some, if_pos (decide_eq_true hf)]
  rw [search, hfolder]
  dsimp only
  rw [List.filter_map]
  rfl

theorem search_of_not_folder (hf : t.find? path ≠ some .folder) :
    t.search path extension = ⟨[], [.folderMissing path]⟩ := by
  have hfolder : t.folder? path = none := by
    rw [folder?, Option.filter_eq_none_iff]
    intro names hnames
    rw [find?, hnames, Option.bind_some] at hf
    exact hf ∘ of_decide_eq_true
  rw [search, hfolder]
  rfl

theorem discover_of_folder (hp : t.resolve path = some folder)
    (hf : t.entry? folder = some .folder) :
    t.discover path extension = (t.found path folder extension).map (join path) :=
  congrArg Logged.value (search_of_folder hp hf)

theorem discover_of_not_folder (hf : t.find? path ≠ some .folder) :
    t.discover path extension = [] :=
  congrArg Logged.value (search_of_not_folder hf)

theorem isValid_of_mem_discover {listed : OsString} (h : listed ∈ t.discover path extension) :
    Path.isValid listed := by
  by_cases hfolder : t.find? path = some .folder
  · obtain ⟨folder, hp, hf⟩ := Option.bind_eq_some_iff.mp hfolder
    rw [discover_of_folder hp hf] at h
    obtain ⟨name, hname, rfl⟩ := List.mem_map.mp h
    exact (List.mem_filter.mp hname).2
  · rw [discover_of_not_folder hfolder] at h
    cases h

theorem isValid_of_resolve (hp : t.resolve path = some folder) : Path.isValid path := by
  rw [resolve, Option.ite_none_right_eq_some] at hp
  exact hp.1

theorem mem_found_iff (ht : t.WellFormed) (hp : t.resolve path = some folder) :
    name ∈ t.found path folder extension ↔
      (∃ content, t.entry? (folder ++ [name]) = some (.file content)) ∧ EndsIn extension name ∧
        (join path name).bytes.length ≤ Path.longestPath := by
  rw [found, List.mem_filter, List.mem_mergeSort, List.mem_filter, and_assoc, ← mem_filesIn_iff ht]
  refine and_congr_right fun hmem => ?_
  have hn := isName_of_mem_filesIn ht hmem
  rw [Path.hasExtension_iff hn, Path.isValid_join_iff (isValid_of_resolve hp) hn]

theorem pairwise_found (ht : t.WellFormed) :
    (t.found path folder extension).Pairwise fun a b => a.bytes < b.bytes :=
  (OsString.pairwise_mergeSort ((nodup_filesIn ht folder).filter _)).filter _

theorem isName_of_mem_found (ht : t.WellFormed) (h : name ∈ t.found path folder extension) :
    IsName name := by
  rw [found, List.mem_filter, List.mem_mergeSort, List.mem_filter] at h
  exact isName_of_mem_filesIn ht h.1.1

theorem listing_found (ht : t.WellFormed) (hp : t.resolve path = some folder)
    (hf : t.entry? folder = some .folder) :
    t.Listing path folder extension (t.found path folder extension) := by
  have hne : path ≠ "" := (Path.isValid_iff.mp (isValid_of_resolve hp)).1
  refine ⟨pairwise_found ht, ?_, fun n => mem_found_iff ht hp, fun n hn => ?_⟩
  · refine (OsString.nodup_of_pairwise (pairwise_found ht)).map_on fun n hn m hm he => ?_
    exact Path.join_injective hne (isName_of_mem_found ht hn) (isName_of_mem_found ht hm) he
  · obtain ⟨⟨content, he⟩, _, hs⟩ := (mem_found_iff ht hp).mp hn
    rw [find?, resolve_join hp hf (isName_of_mem_found ht hn) (by rw [he]; rfl) hs]
    rfl

/-- A folder with the same files has the same listing. -/
theorem Listing.unique {names' : List OsString} (h : t.Listing path folder extension names)
    (h' : t'.Listing path folder extension names')
    (he : ∀ names, t'.entry? names = t.entry? names) : names' = names := by
  have hmem : ∀ n, n ∈ names' ↔ n ∈ names := fun n => by rw [h.mem_iff, h'.mem_iff, he]
  have hperm : names'.Perm names :=
    (List.perm_ext_iff_of_nodup (OsString.nodup_of_pairwise h'.ascending)
      (OsString.nodup_of_pairwise h.ascending)).mpr hmem
  exact hperm.eq_of_pairwise (fun a b _ _ hab hba => (List.lt_asymm hab hba).elim) h'.ascending
    h.ascending

theorem follow_congr (he : ∀ names, t'.entry? names = t.entry? names) (here parts : List OsString) :
    t'.follow here parts = t.follow here parts := by
  induction parts generalizing here with
  | nil => rfl
  | cons part parts ih => simp only [follow, he, ih]

theorem resolve_congr (he : ∀ names, t'.entry? names = t.entry? names) (path : OsString) :
    t'.resolve path = t.resolve path := by
  simp only [resolve, follow_congr he]

theorem discover_congr (ht : t.WellFormed) (ht' : t'.WellFormed)
    (he : ∀ names, t'.entry? names = t.entry? names) :
    t'.discover path extension = t.discover path extension := by
  by_cases hfolder : t.find? path = some .folder
  · obtain ⟨folder, hp, hf⟩ := Option.bind_eq_some_iff.mp hfolder
    have hp' : t'.resolve path = some folder := by rw [resolve_congr he, hp]
    have hf' : t'.entry? folder = some .folder := by rw [he, hf]
    rw [discover_of_folder hp hf, discover_of_folder hp' hf',
      (listing_found ht hp hf).unique (listing_found ht' hp' hf') he]
  · have hfolder' : t'.find? path ≠ some .folder := by
      rwa [find?, resolve_congr he, funext he, ← find?]
    rw [discover_of_not_folder hfolder, discover_of_not_folder hfolder']

/-- Every file in the folder that has the extension and can be reached is listed once, and the
order of the list and the list itself do not depend on how the tree came about. -/
theorem discovers_files_in_order (ht : t.WellFormed) (path : OsString) (extension : String) :
    (t.find? path ≠ some .folder → t.discover path extension = []) ∧
      (∀ folder, t.resolve path = some folder → t.entry? folder = some .folder →
        ∃ names, t.discover path extension = names.map (join path) ∧
          t.Listing path folder extension names) ∧
      ∀ t' : FileTree, t'.WellFormed → (∀ names, t'.entry? names = t.entry? names) →
        t'.discover path extension = t.discover path extension := by
  refine ⟨discover_of_not_folder, ?_, ?_⟩
  · intro folder hp hf
    exact ⟨_, discover_of_folder hp hf, listing_found ht hp hf⟩
  · intro t' ht' he
    exact discover_congr ht ht' he

def brokenName : OsString := ⟨0xFF :: Text.encode ".csv"⟩

def mixedFiles : List (OsString × Entry) :=
  [("results/b.csv", .file (.closed "Permission denied (os error 13)")),
   ("results/.csv", .file (.whole [])), ("results/old.csv", .folder),
   (join "results" brokenName, .file (.whole [])), ("results/a.tar.CSV", .file (.whole []))]

theorem fits_mixedFiles : ∀ p ∈ mixedFiles, Fits p.1 p.2 := by
  have hvalid : ∀ p ∈ mixedFiles, Path.isValid p.1 := by decide
  have hnamed : ∀ p ∈ mixedFiles, p.2 = .folder ∨ ¬ isGiven (Path.names p.1) := by decide
  exact fun p hp => ⟨hvalid p hp, hnamed p hp⟩

def mixedTree : FileTree := empty.plantAll mixedFiles

def reversedTree : FileTree := empty.plantAll mixedFiles.reverse

theorem resolve_results : mixedTree.resolve "results" = some [.ofText "results"] := by decide

theorem wellFormed_mixedTree : mixedTree.WellFormed := wellFormed_empty.plantAll fits_mixedFiles

/-- A dot in front is no extension, a folder is no file, and letters in either case do. A name need
not be a text, and a file need not be readable. -/
theorem discovers_files_in_order_mixed :
    ∃ names : List OsString, mixedTree.discover "results" "csv" = names.map (join "results") ∧
      (.ofText "a.tar.CSV") ∈ names ∧ (.ofText "b.csv") ∈ names ∧ brokenName ∈ names ∧
      (.ofText ".csv") ∉ names ∧ (.ofText "old.csv") ∉ names ∧
      reversedTree.discover "results" "csv" = names.map (join "results") := by
  have ht' : reversedTree.WellFormed :=
    wellFormed_empty.plantAll fun p hp => fits_mixedFiles p (List.mem_reverse.mp hp)
  obtain ⟨_, hlist, hsame⟩ := discovers_files_in_order wellFormed_mixedTree "results" "csv"
  obtain ⟨names, hnames, hl⟩ := hlist [.ofText "results"] resolve_results (by decide)
  have hmem {n : OsString} (hn : IsName n) (hs : n.bytes.length ≤ 4000)
      (he : ∃ content, mixedTree.entry? [.ofText "results", n] = some (.file content))
      (hextension : hasExtension "csv" n) : n ∈ names := by
    have hjoined := (Path.length_join (show (OsString.ofText "results") ≠ "" by decide) hn).2
    have hfolder : (OsString.ofText "results").bytes.length = 7 := by decide
    rw [hl.mem_iff, ← Path.hasExtension_iff hn]
    exact ⟨he, hextension, hjoined.trans (by change _ ≤ 4095; omega)⟩
  refine ⟨names, hnames, ?_, ?_, ?_, ?_, ?_, ?_⟩
  · exact hmem (by decide) (by decide) ⟨.whole [], by decide⟩ (by decide)
  · exact hmem (by decide) (by decide) ⟨.closed "Permission denied (os error 13)", by decide⟩
      (by decide)
  · exact hmem (by decide) (by decide) ⟨.whole [], by decide⟩ (by decide)
  · rw [hl.mem_iff, ← Path.hasExtension_iff (by decide)]
    rintro ⟨_, hextension, _⟩
    revert hextension
    decide
  · have hfolder : mixedTree.entry? [.ofText "results", .ofText "old.csv"] = some .folder := by
      decide
    rw [hl.mem_iff, List.singleton_append, hfolder]
    rintro ⟨⟨_, he⟩, _⟩
    cases he
  · rw [hsame _ ht' (entry_of_perm wellFormed_mixedTree ht' (by decide)), hnames]

/-- The working folder in front of the folder so often that hardly a name fits behind it. -/
def longPath : OsString := Path.behindDots "results" 2041

/-- A file with the extension is missing where its path is too long, although the path of its
folder is not. -/
theorem discover_misses_long_path :
    mixedTree.WellFormed ∧ mixedTree.resolve longPath = some [.ofText "results"] ∧
      mixedTree.find? longPath = some .folder ∧
      ¬ ∃ names : List OsString, mixedTree.discover longPath "csv" = names.map (join longPath) ∧
        (names.Pairwise fun a b => a.bytes < b.bytes) ∧
        ∀ n, n ∈ names ↔
          (∃ content, mixedTree.entry? [.ofText "results", n] = some (.file content)) ∧
            EndsIn "csv" n := by
  have hsize : longPath.bytes.length = 4089 := Path.length_behindDots "results" 2041
  have hp : mixedTree.resolve longPath = some [.ofText "results"] :=
    resolve_behindDots resolve_results (by decide) (by
      change longPath.bytes.length ≤ 4095
      omega)
  have hf : mixedTree.entry? [.ofText "results"] = some .folder := by decide
  refine ⟨wellFormed_mixedTree, hp, by rw [find?, hp]; exact hf, ?_⟩
  rintro ⟨names, hnames, _, hmem⟩
  have hlisted : (.ofText "a.tar.CSV") ∈ names := by
    rw [hmem, ← Path.hasExtension_iff (by decide)]
    exact ⟨⟨.whole [], by decide⟩, by decide⟩
  have hvalid : Path.isValid (join longPath "a.tar.CSV") := by
    apply isValid_of_mem_discover
    rw [hnames]
    exact List.mem_map_of_mem hlisted
  have hjoined := (Path.length_join (Path.isValid_iff.mp (isValid_of_resolve hp)).1
    (show IsName "a.tar.CSV" by decide)).1
  have hname : (OsString.ofText "a.tar.CSV").bytes.length = 9 := by decide
  have hshort : (join longPath "a.tar.CSV").bytes.length ≤ 4095 := (Path.isValid_iff.mp hvalid).2.1
  omega

end QueueBench.FileTree
