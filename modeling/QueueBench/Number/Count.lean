/-!
# Counts

The text of a count: an optional plus sign, then one or more ASCII digits, bounded by the
width of the field that holds it.
-/
namespace QueueBench.Number

def max32 : Nat := Nat.pow 2 32 - 1

def max64 : Nat := Nat.pow 2 64 - 1

def digitValue? (c : Char) : Option Nat :=
  if c.isDigit then some (c.toNat - '0'.toNat) else none

/-- Extend `start` by the digits of `cs`; no other character may occur. -/
def digits? (start : Nat) : List Char → Option Nat
  | [] => some start
  | c :: cs => (digitValue? c).bind fun d => digits? (start * 10 + d) cs

def unsigned? : List Char → Option Nat
  | [] => none
  | cs => digits? 0 cs

def count? (limit : Nat) (s : String) : Option Nat :=
  let read := match s.toList with
    | '+' :: cs => unsigned? cs
    | cs => unsigned? cs
  read.filter (· ≤ limit)

end QueueBench.Number
