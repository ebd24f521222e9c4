import QueueBench.Axis
import QueueBench.OsString

/-!
# Command line arguments

The settings of one run of the program, read from its command line. Long options take a value
after an equals sign or as the next argument; short ones stand behind one dash together, and the
first of them that takes a value takes the rest. Two dashes alone end the options. A value is
checked when the next option, or the end of the line, is reached.
-/
namespace QueueBench

structure Arguments where
  folder : OsString
  axis : ThreadAxis
  splitModes : Bool
  json : Bool
  verbose : Bool
  deriving DecidableEq, Repr

inductive Refusal where
  | helpRequested
  | versionRequested
  | unknownArgument
  | unknownCommand
  /-- An option given twice, or together with a command. -/
  | conflict
  | missingValue
  /-- A value for an option that takes none. -/
  | unwantedValue
  | badAxis
  /-- A value that has to be text and is not. -/
  | noText
  deriving DecidableEq, Repr

namespace Refusal

/-- Help and version end the program as a success. -/
def exitCode : Refusal → UInt32
  | helpRequested | versionRequested => 0
  | _ => 2

end Refusal

inductive Setting where
  | folder
  | axis
  deriving DecidableEq, Repr

inductive Flag where
  | splitModes
  | json
  | verbose
  deriving DecidableEq, Repr

inductive CommandOption where
  | setting (s : Setting)
  | flag (f : Flag)
  | help
  | version
  deriving DecidableEq, Repr

/-- Where options stand: before any command, or behind the command that runs the program. The first
place also takes commands and the version option. -/
inductive CommandLevel where
  | program
  | run
  deriving DecidableEq, Repr

namespace CommandOption

def ofLongName? (level : CommandLevel) (name : OsString) : Option CommandOption :=
  match name.text? with
  | some "results-dir" => some (setting .folder)
  | some "thread-axis" => some (setting .axis)
  | some "split-modes" => some (flag .splitModes)
  | some "json" => some (flag .json)
  | some "verbose" => some (flag .verbose)
  | some "help" => some help
  | some "version" => if level = .program then some version else none
  | _ => none

/-- All letters are in ASCII, so a byte is enough to know one. -/
def ofLetter? (level : CommandLevel) (letter : UInt8) : Option CommandOption :=
  match Char.ofUInt8 letter with
  | 'r' => some (setting .folder)
  | 't' => some (setting .axis)
  | 'v' => some (flag .verbose)
  | 'h' => some help
  | 'V' => if level = .program then some version else none
  | _ => none

end CommandOption

inductive Word where
  | endOfOptions
  | long (name : OsString) (value : Option OsString)
  | short (letters : List UInt8)
  | plain
  deriving DecidableEq, Repr

def dash : UInt8 := 0x2D

def equalsSign : UInt8 := 0x3D

def splitAtEquals (bytes : List UInt8) : OsString × Option OsString :=
  let name : OsString := ⟨bytes.takeWhile (· ≠ equalsSign)⟩
  match bytes.dropWhile (· ≠ equalsSign) with
  | [] => (name, none)
  | _ :: value => (name, some ⟨value⟩)

def Word.ofBytes (bytes : List UInt8) : Word :=
  if bytes = [dash, dash] then endOfOptions
  else if [dash, dash].isPrefixOf bytes then
    let (name, value) := splitAtEquals (bytes.drop 2)
    long name value
  else if [dash].isPrefixOf bytes ∧ bytes ≠ [dash] then short (bytes.drop 1)
  else plain

structure Given where
  folder : Option OsString
  axis : Option ThreadAxis
  splitModes : Bool
  json : Bool
  verbose : Bool
  deriving DecidableEq, Repr

namespace Given

def nothing : Given := ⟨none, none, false, false, false⟩

/-- Take in a value; it is checked after the repetition. -/
def set (g : Given) (s : Setting) (value : OsString) : Except Refusal Given :=
  match s with
  | .folder =>
    if g.folder.isSome then .error .conflict
    else if value = "" then .error .missingValue
    else .ok { g with folder := some value }
  | .axis =>
    if g.axis.isSome then .error .conflict
    else match value.text?.map ThreadAxis.ofName? with
      | some (some axis) => .ok { g with axis := some axis }
      | some none => .error .badAxis
      | none => .error .noText

def turnOn (g : Given) (f : Flag) : Except Refusal Given :=
  match f with
  | .splitModes => if g.splitModes then .error .conflict else .ok { g with splitModes := true }
  | .json => if g.json then .error .conflict else .ok { g with json := true }
  | .verbose => if g.verbose then .error .conflict else .ok { g with verbose := true }

def arguments (g : Given) : Arguments :=
  { folder := g.folder.getD "results"
    axis := g.axis.getD .producers
    splitModes := g.splitModes
    json := g.json
    verbose := g.verbose }

end Given

structure Progress where
  given : Given
  /-- The last option that takes a value, with its value once that is there. -/
  pending : Option (Setting × Option OsString)
  /-- Some option has been recognised. -/
  anyOption : Bool
  deriving DecidableEq, Repr

namespace Progress

def start : Progress := ⟨.nothing, none, false⟩

def settle (p : Progress) : Except Refusal Given :=
  match p.pending with
  | none => .ok p.given
  | some (_, none) => .error .missingValue
  | some (s, some value) => p.given.set s value

def option (p : Progress) : CommandOption → Option OsString → Except Refusal Progress
  | .setting s, none => p.settle.map fun g => ⟨g, some (s, none), true⟩
  | .setting s, some value => do return ⟨← (← p.settle).set s value, none, true⟩
  | .flag f, none => do return ⟨← (← p.settle).turnOn f, none, true⟩
  | .help, none => do let _ ← p.settle; throw .helpRequested
  | .version, none => do let _ ← p.settle; throw .versionRequested
  | _, some _ => .error .unwantedValue

def longOption (p : Progress) (level : CommandLevel) (name : OsString) (value : Option OsString) :
    Except Refusal Progress :=
  match CommandOption.ofLongName? level name with
  | some o => p.option o value
  | none => .error .unknownArgument

/-- The value attached to a letter, without an equals sign between them. -/
def attached : List UInt8 → Option OsString
  | [] => none
  | b :: bytes => some (if b = equalsSign then ⟨bytes⟩ else ⟨b :: bytes⟩)

def shortOptions (p : Progress) (level : CommandLevel) : List UInt8 → Except Refusal Progress
  | [] => .ok p
  | letter :: rest =>
    match CommandOption.ofLetter? level letter with
    | some (.setting s) => p.option (.setting s) (attached rest)
    | some o => do (← p.option o none).shortOptions level rest
    | none => .error .unknownArgument

def stray (p : Progress) (level : CommandLevel) (ended : Bool) (word : OsString) : Refusal :=
  match level with
  | .run => .unknownArgument
  | .program =>
    if p.anyOption then .conflict
    else if ended ∧ (word = "run" ∨ word = "help") then .unknownArgument
    else .unknownCommand

def read (p : Progress) (level : CommandLevel) : List OsString → Except Refusal Given
  | [] => p.settle
  | word :: rest =>
    match Word.ofBytes word.bytes with
    | .endOfOptions =>
      match rest with
      | [] => p.settle
      | word :: _ => .error (p.stray level true word)
    | .long name value => do (← p.longOption level name value).read level rest
    | .short letters => do (← p.shortOptions level letters).read level rest
    | .plain =>
      match p.pending with
      | some (s, none) => ({ p with pending := some (s, some word) } : Progress).read level rest
      | _ => .error (p.stray level false word)

end Progress

namespace Arguments

def helpOn (names : List OsString) : Refusal :=
  if names = [] ∨ names = [↑"run"] ∨ names = [↑"help"] then .helpRequested else .unknownCommand

/-- Read a command line, without the name of the program. -/
def parse (args : List OsString) : Except Refusal Arguments :=
  if args.head? = some ↑"run" then (Progress.start.read .run args.tail).map Given.arguments
  else if args.head? = some ↑"help" then .error (helpOn args.tail)
  else (Progress.start.read .program args).map Given.arguments

def axisTag : ThreadAxis → String
  | .producers => "Producers"
  | .consumers => "Consumers"
  | .total => "Total"

def shown (a : Arguments) : String :=
  s!"RunArgs \x7b results_dir: {a.folder.quoted}, thread_axis: {axisTag a.axis}, " ++
  s!"split_modes: {a.splitModes}, json: {a.json}, verbose: {a.verbose} \x7d"

end Arguments

end QueueBench
