import QueueBench.Column

/-!
# Table schema

The header of a result table: where each known column stands, and how much the harness that
wrote the table measured. The first of several headers for one column counts.
-/
namespace QueueBench

inductive SchemaVersion where
  | depthOnly
  | latency
  | full
  deriving DecidableEq, Repr

def SchemaVersion.name : SchemaVersion → String
  | depthOnly => "DepthOnly"
  | latency => "Latency"
  | full => "Full"

/-- The header names in order, without blanks at their ends. -/
structure Schema where
  headers : List String
  deriving DecidableEq, Repr

namespace Schema

def ofHeaders (headers : List String) : Schema := ⟨headers.map Text.trim⟩

def index? (s : Schema) (c : Column) : Option Nat :=
  s.headers.findIdx? fun h => Column.ofHeader? h == some c

def has (s : Schema) (c : Column) : Bool := (s.index? c).isSome

def version (s : Schema) : SchemaVersion :=
  if Percentile.all.any fun p => s.has (.latency p) then
    if s.has .peakMemory then .full else .latency
  else .depthOnly

def missing (s : Schema) : List Column :=
  Column.all.filter fun c => c.isMandatory && !s.has c

/-- The cells begin with the header names, up to blanks and letter case. -/
def startsWithHeaders : List String → List String → Bool
  | [], _ => true
  | _ :: _, [] => false
  | h :: hs, c :: cs => Text.sameLetters (Text.trim c) h && startsWithHeaders hs cs

/-- The row repeats the header, as it does where the harness appended a second run to a file. -/
def isHeaderRow (s : Schema) (cells : List String) : Bool :=
  !s.headers.isEmpty && startsWithHeaders s.headers cells

end Schema

end QueueBench
