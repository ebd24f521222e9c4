import QueueBench.Text.Quoted
import QueueBench.Text.Utf8

/-!
# Strings of the operating system

Names, paths and arguments are byte sequences. Nothing makes them UTF-8; those that are not can
still be shown, but have no text.
-/
namespace QueueBench

@[ext]
structure OsString where
  bytes : List UInt8
  deriving DecidableEq, Repr

namespace OsString

def ofText (s : String) : OsString := ⟨Text.encode s⟩

instance : Coe String OsString := ⟨ofText⟩

def text? (s : OsString) : Option String := (Text.decode s.bytes).toOption

/-- The text that is shown, with a replacement character for each broken piece. -/
def display (s : OsString) : String :=
  String.ofList <| (Text.pieces s.bytes).map fun
    | .char c => c
    | .broken _ => '\uFFFD'

/-- Between double quotes, with the bytes of a broken piece by their numbers. -/
def quoted (s : OsString) : String :=
  let inner := (Text.pieces s.bytes).flatMap fun
    | .char c => Text.escapeQuoted c
    | .broken bytes => bytes.flatMap Text.escapeByte
  "\"" ++ String.ofList inner ++ "\""

def le (a b : OsString) : Bool := decide (a.bytes ≤ b.bytes)

end OsString

end QueueBench
