import QueueBench.Command.Program
import QueueBench.Drawing.Image
import QueueBench.Drawing.Png

/-!
# Command line program

Reads the folder with the result files, has the program run on what it found, and writes what it
prints and logs. Arguments and the names in a folder arrive here as text. Images are written with
their canvas left white.
-/
namespace QueueBench

def ioCause : IO.Error → String
  | .permissionDenied .. => "Permission denied (os error 13)"
  | e => toString e

def readContent (path : String) : IO Content := do
  match ← (IO.FS.Handle.mk path .read).toBaseIO with
  | .error e => return .closed (ioCause e)
  | .ok handle =>
    let mut bytes := ByteArray.empty
    repeat
      match ← (handle.read 8192).toBaseIO with
      | .error e => return .broken bytes.data.toList (ioCause e)
      | .ok more =>
        if more.isEmpty then break
        bytes := bytes ++ more
    return .whole bytes.data.toList

/-- The files and folders directly in a folder, as a tree that holds nothing else. -/
def readTree (folder : OsString) : IO FileTree := do
  let some path := folder.text? | return .empty
  try
    let path ← IO.FS.realPath path
    if !(← path.isDir) then return .empty
    let mut tree := FileTree.empty.plant folder .folder
    for entry in ← path.readDir do
      let place := Path.join folder entry.fileName
      if ← entry.path.isDir then tree := tree.plant place .folder
      else tree := tree.plant place (.file (← readContent entry.path.toString))
    return tree
  catch _ => return .empty

def imageFile : Renderer IO := fun chart path => do
  match (Drawing.ofChart chart .default none).outcome with
  | .error cause => return .error (ImageError.drawing chart.family cause).message
  | .overflow _ => throw (.userError "capacity overflow")
  | .ok canvas =>
    try
      IO.FS.writeBinFile path.display ⟨(Png.white canvas.width canvas.height).toArray⟩
      return .ok ()
    catch e => return .error s!"{(ImageError.writing path).message}: {e}"

def Ending.write (ending : Ending) (level : Level) : IO Unit := do
  if let .ran e := ending then
    for event in level.shown e.events do
      IO.eprintln s!"{event.level.name} {event.message}"
  for text in ending.printed do
    IO.println text
  for text in ending.complaints do
    IO.eprintln text

end QueueBench

open QueueBench in
def main (args : List String) : IO UInt32 := do
  let begun ← IO.monoMsNow
  let args := args.map OsString.ofText
  let given := (Arguments.parse args).toOption
  let tree ← (given.map fun a => readTree a.folder).getD (pure .empty)
  let ending ← program tree imageFile args
  ending.write (if given.any (·.verbose) then .debug else .info)
  if let .ran { outcome := .ok _, output := .ok _, .. } := ending then
    if !given.any (·.json) then
      let seconds := Float.ofNat ((← IO.monoMsNow) - begun) / 1000
      IO.println s!"⏱️  Total time: {Number.fixed 2 seconds}s"
  return ending.exitCode
