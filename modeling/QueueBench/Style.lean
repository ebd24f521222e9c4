import QueueBench.Run
import QueueBench.Text.Case
import QueueBench.Text.Hash

/-!
# Series styles

The style of a series follows from its implementation and its mode. Spellings of one
implementation that differ in case and separators share an entry of the style table, the
last registration of a spelling counts, and an unknown implementation gets a fallback
palette picked by the hash of its name.
-/
namespace QueueBench

structure Rgb where
  red : Nat
  green : Nat
  blue : Nat
  deriving DecidableEq, Repr

inductive LineStyle where
  | solid
  | dashed
  deriving DecidableEq, Repr

inductive Marker where
  | circle
  | triangle
  deriving DecidableEq, Repr

structure Style where
  color : Rgb
  line : LineStyle
  marker : Marker
  /-- Width of a stroke in pixels. -/
  weight : Nat
  deriving DecidableEq, Repr

structure Palette where
  heap : Rgb
  pooled : Rgb
  deriving DecidableEq, Repr

def Palette.style (p : Palette) : AllocMode → Style
  | .heap => ⟨p.heap, .dashed, .triangle, 2⟩
  | .pooled => ⟨p.pooled, .solid, .circle, 3⟩

def normalName (name : String) : String :=
  String.ofList ((name.toList.filter fun c => c ≠ '_' ∧ c ≠ '-' ∧ c ≠ ' ').flatMap Text.lowerChar)

/-- Palettes under normal names, the latest registration first, and the fallback palettes. -/
structure StyleTable where
  entries : List (String × Palette)
  fallback : List Palette
  deriving DecidableEq, Repr

namespace StyleTable

/-- None of these belongs to a known implementation. -/
def defaultFallback : List Palette :=
  [⟨⟨188, 189, 220⟩, ⟨117, 107, 177⟩⟩, ⟨⟨196, 156, 148⟩, ⟨140, 86, 75⟩⟩,
   ⟨⟨247, 182, 210⟩, ⟨227, 119, 194⟩⟩, ⟨⟨219, 219, 141⟩, ⟨188, 189, 34⟩⟩,
   ⟨⟨158, 218, 229⟩, ⟨23, 190, 207⟩⟩]

/-- For a table without fallback palettes. -/
def gray : Palette := ⟨⟨189, 189, 189⟩, ⟨99, 99, 99⟩⟩

def empty : StyleTable := ⟨[], defaultFallback⟩

def withEntry (t : StyleTable) (names : List String) (p : Palette) : StyleTable :=
  { t with entries := names.foldl (fun es n => (normalName n, p) :: es) t.entries }

def withFallback (t : StyleTable) (ps : List Palette) : StyleTable := { t with fallback := ps }

def default : StyleTable :=
  empty
    |>.withEntry ["HazardPointer", "HazardPointers", "hp"] ⟨⟨158, 202, 225⟩, ⟨31, 119, 180⟩⟩
    |>.withEntry ["EBR", "EpochBasedReclamation", "epoch"] ⟨⟨253, 174, 107⟩, ⟨230, 85, 13⟩⟩
    |>.withEntry ["MutexQueue", "mutex"] ⟨⟨252, 146, 114⟩, ⟨203, 24, 29⟩⟩
    |>.withEntry ["NoReclamation", "none"] ⟨⟨161, 217, 155⟩, ⟨35, 139, 69⟩⟩

def known (t : StyleTable) (implementation : String) : Bool :=
  (t.entries.lookup (normalName implementation)).isSome

def fallbackPalette (t : StyleTable) (normal : String) : Palette :=
  (t.fallback[(Text.Hash.ofText normal).toNat % t.fallback.length]?).getD gray

def palette (t : StyleTable) (implementation : String) : Palette :=
  let normal := normalName implementation
  (t.entries.lookup normal).getD (t.fallbackPalette normal)

def style (t : StyleTable) (implementation : String) (mode : AllocMode) : Style :=
  (t.palette implementation).style mode

end StyleTable

end QueueBench
