import QueueBench.OsString

/-!
# File trees

The files that can be reached from a working folder, and the paths that lead to them. The parts
of a path are separated by slashes. Empty parts and single dots stay in place, two dots go back.
-/
namespace QueueBench

/-- What comes out of a file when it is read. Causes are in the words of the operating system. -/
inductive Content where
  | whole (bytes : List UInt8)
  /-- Reading fails behind these bytes. -/
  | broken (bytes : List UInt8) (cause : String)
  /-- The file cannot be opened. -/
  | closed (cause : String)
  deriving DecidableEq, Repr

inductive Entry where
  | file (content : Content)
  | folder
  deriving DecidableEq, Repr

/-- The entries by the names that lead to them: from the root when the first name is a slash, else
from the working folder. -/
structure FileTree where
  entries : List (List OsString × Entry)
  deriving DecidableEq, Repr

namespace Path

def slash : UInt8 := 0x2F

def parts (path : OsString) : List OsString := (path.bytes.splitOn slash).map OsString.mk

def step (here : List OsString) (part : OsString) : List OsString :=
  if part = "" ∨ part = "." ∨ (part = ".." ∧ here = [↑"/"]) then here
  else if part = ".." ∧ here ≠ [] ∧ here.getLast? ≠ some ↑".." then here.dropLast
  else here ++ [part]

def start (path : OsString) : List OsString := if path.bytes.head? = some slash then [↑"/"] else []

def names (path : OsString) : List OsString := (parts path).foldl step (start path)

def walk (here : List OsString) : List OsString → List (List OsString)
  | [] => []
  | part :: rest => step here part :: walk (step here part) rest

/-- Bytes of the longest name and of the longest path that a file system takes. -/
def longestName : Nat := 255

def longestPath : Nat := 4095

/-- Whether a path can lead anywhere: NUL has no place in a name. -/
def isValid (path : OsString) : Bool :=
  path ≠ "" && path.bytes.length ≤ longestPath &&
    (parts path).all fun part => part.bytes.length ≤ longestName && part.bytes.all (· ≠ 0)

def join (path name : OsString) : OsString :=
  if name.bytes.head? = some slash ∨ path = "" then name
  else if path.bytes.getLast? = some slash then ⟨path.bytes ++ name.bytes⟩
  else ⟨path.bytes ++ slash :: name.bytes⟩

def fileName? (path : OsString) : Option OsString :=
  match ((parts path).filter fun p : OsString => p ≠ "" ∧ p ≠ ".").getLast? with
  | some last => if last = ".." then none else some last
  | none => none

def dot : UInt8 := 0x2E

/-- What follows the last dot of a file name, unless that dot stands first. -/
def fileExtension? (name : OsString) : Option OsString :=
  let reversed := name.bytes.reverse
  let stem := (reversed.dropWhile (· ≠ dot)).drop 1
  if name = ".." ∨ stem = [] then none
  else some ⟨(reversed.takeWhile (· ≠ dot)).reverse⟩

end Path

namespace FileTree

def empty : FileTree := ⟨[]⟩

/-- Whether these names lead to the root, or to the working folder or one around it. -/
def isGiven (names : List OsString) : Bool := names == [↑"/"] || names.all (· == "..")

def entry? (t : FileTree) (names : List OsString) : Option Entry :=
  if isGiven names then some .folder else t.entries.lookup names

/-- Follow parts from the folder at `here`; each one must exist. -/
def follow (t : FileTree) (here : List OsString) : List OsString → Option (List OsString)
  | [] => some here
  | part :: rest =>
    let there := Path.step here part
    if t.entry? here = some .folder ∧ (t.entry? there).isSome then t.follow there rest else none

def resolve (t : FileTree) (path : OsString) : Option (List OsString) :=
  if Path.isValid path then t.follow (Path.start path) (Path.parts path) else none

def find? (t : FileTree) (path : OsString) : Option Entry := (t.resolve path).bind t.entry?

def folder? (t : FileTree) (path : OsString) : Option (List OsString) :=
  (t.resolve path).filter fun names => t.entry? names = some .folder

/-- Put an entry in place. Every place passed on the way becomes a folder, one that the path
leaves again by two dots too. -/
def plant (t : FileTree) (path : OsString) (e : Entry) : FileTree :=
  let names := Path.names path
  let passed := (Path.walk (Path.start path) (Path.parts path)).filter fun p =>
    p ≠ names ∧ ¬ isGiven p
  let added := (names, e) :: passed.map fun p => (p, .folder)
  ⟨added ++ t.entries.filter fun old => added.all fun new => new.1 ≠ old.1⟩

def filesIn (t : FileTree) (folder : List OsString) : List OsString :=
  t.entries.filterMap fun
    | (names, .file _) => if names.dropLast = folder then names.getLast? else none
    | (_, .folder) => none

/-- Whether a file can be written at the path: over one that is there, or as a new name in a
folder. -/
def accepts (t : FileTree) (path : OsString) : Bool :=
  match t.find? path, (Path.parts path).reverse with
  | some (.file _), _ => true
  | some .folder, _ => false
  | none, last :: rest =>
    let folder := (t.follow (Path.start path) rest.reverse).bind t.entry?
    Path.isValid path && last ≠ "" && last ≠ "." && last ≠ ".." && folder == some .folder
  | none, [] => false

end FileTree

end QueueBench
