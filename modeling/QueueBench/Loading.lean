import QueueBench.ResultFile

/-!
# Loading result files

Finding the result files in a folder, and reading several files in the order given. A file
that cannot be read is skipped; the others are still loaded.
-/
namespace QueueBench

namespace FileTree

def hasExtension (extension : String) (name : OsString) : Bool :=
  match (Path.fileExtension? name).bind OsString.text? with
  | some e => Text.sameLetters e extension
  | none => false

/-- Paths of the files in the folder at `path` with the extension, in the order of file names. A
file is left out when the path to it has become too long to lead there. -/
def search (t : FileTree) (path : OsString) (extension : String) : Logged (List OsString) :=
  match t.folder? path with
  | some names =>
    let found := (t.filesIn names).filter (hasExtension extension)
    return ((found.mergeSort OsString.le).map (Path.join path)).filter Path.isValid
  | none => do
    Logged.log (.folderMissing path)
    return []

def discover (t : FileTree) (path : OsString) (extension : String) : List OsString :=
  (t.search path extension).value

/-- Read the file at a path. A name that is no text gives its runs no source. -/
def read (t : FileTree) (marker : String) (path : OsString) :
    Logged (Except LoadError ResultFile) :=
  match t.find? path with
  | none => return .error .notFound
  | some .folder => return .error .isFolder
  | some (.file content) =>
    let source := ((Path.fileName? path).bind OsString.text?).getD "unknown"
    ResultFile.read source marker content

def load (t : FileTree) (marker : String) (path : OsString) : Except LoadError ResultFile :=
  (t.read marker path).value

end FileTree

structure Loading where
  loads : List (OsString × Except LoadError ResultFile)

namespace Loading

def resultFiles (l : Loading) : List ResultFile := l.loads.filterMap fun (_, r) => r.toOption

def files (l : Loading) : List OsString :=
  l.loads.filterMap fun (p, r) => r.toOption.map fun _ => p

def runs (l : Loading) : List Run := l.resultFiles.flatMap ResultFile.runs

def rejections (l : Loading) : List Rejection := l.resultFiles.flatMap ResultFile.rejections

def unreadable (l : Loading) : List (OsString × LoadError) :=
  l.loads.filterMap fun
    | (p, .error e) => some (p, e)
    | (_, .ok _) => none

def loadEvent (path : OsString) : Except LoadError ResultFile → Event
  | .ok f => .fileLoaded path f.runs.length f.rejections.length
  | .error e => .fileSkipped path e

def readPath (t : FileTree) (marker : String) (path : OsString) :
    Logged (OsString × Except LoadError ResultFile) := do
  let result ← t.read marker path
  Logged.log (loadEvent path result)
  return (path, result)

def read (t : FileTree) (marker : String) (paths : List OsString) : Logged Loading := do
  let l : Loading := ⟨← paths.mapM (readPath t marker)⟩
  Logged.log (.filesLoaded l.runs.length l.files.length l.rejections.length)
  return l

def ofPaths (t : FileTree) (marker : String) (paths : List OsString) : Loading :=
  (read t marker paths).value

end Loading

end QueueBench
