/-!
# Documents

Values with a JSON text. Records keep the order of their fields. Strings are escaped as JSON
demands and no further; numbers are kept as their text.
-/
namespace QueueBench

inductive Document where
  | null
  | number (digits : String)
  | text (content : String)
  | list (items : List Document)
  | record (fields : List (String × Document))
  deriving Repr

namespace Document

def controlEscape (n : Nat) : List Char :=
  let ds := Nat.toDigits 16 n
  ['\\', 'u'] ++ List.replicate (4 - ds.length) '0' ++ ds

def escape (c : Char) : List Char :=
  match c.toNat with
  | 0x08 => ['\\', 'b']
  | 0x09 => ['\\', 't']
  | 0x0A => ['\\', 'n']
  | 0x0C => ['\\', 'f']
  | 0x0D => ['\\', 'r']
  | 0x22 | 0x5C => ['\\', c]
  | n => if n < 32 then controlEscape n else [c]

def stringText (s : String) : List Char := '"' :: s.toList.flatMap escape ++ ['"']

/-- The brackets around the fields of a record. -/
def openRecord : Char := Char.ofNat 0x7B

def closeRecord : Char := Char.ofNat 0x7D

def newline (depth : Nat) : List Char := '\n' :: List.replicate (2 * depth) ' '

/-- Items on lines of their own between two brackets; no items take no lines. -/
def block (opening closing : Char) (depth : Nat) : List (List Char) → List Char
  | [] => [opening, closing]
  | items =>
    let lines := items.map fun item => newline (depth + 1) ++ item
    opening :: [','].intercalate lines ++ newline depth ++ [closing]

mutual

/-- The text at a depth of indentation, two spaces a step. -/
def indented (depth : Nat) : Document → List Char
  | null => "null".toList
  | number digits => digits.toList
  | text content => stringText content
  | list items => block '[' ']' depth (indentedItems (depth + 1) items)
  | record fields => block openRecord closeRecord depth (indentedFields (depth + 1) fields)

def indentedItems (depth : Nat) : List Document → List (List Char)
  | [] => []
  | d :: ds => indented depth d :: indentedItems depth ds

def indentedFields (depth : Nat) : List (String × Document) → List (List Char)
  | [] => []
  | (name, d) :: fields =>
    (stringText name ++ ": ".toList ++ indented depth d) :: indentedFields depth fields

end

mutual

def compact : Document → List Char
  | null => "null".toList
  | number digits => digits.toList
  | text content => stringText content
  | list items => '[' :: [','].intercalate (compactItems items) ++ [']']
  | record fields =>
    openRecord :: [','].intercalate (compactFields fields) ++ [closeRecord]

def compactItems : List Document → List (List Char)
  | [] => []
  | d :: ds => compact d :: compactItems ds

def compactFields : List (String × Document) → List (List Char)
  | [] => []
  | (name, d) :: fields => (stringText name ++ ':' :: compact d) :: compactFields fields

end

def toIndented (d : Document) : String := String.ofList (d.indented 0)

def toCompact (d : Document) : String := String.ofList d.compact

def count (n : Nat) : Document := number (toString n)

def optional {α : Type} (f : α → Document) : Option α → Document
  | some a => f a
  | none => null

end Document

end QueueBench
