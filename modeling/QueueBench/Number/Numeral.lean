import QueueBench.Number.Count

/-!
# Numerals

The text of a measured quantity: a decimal fraction with an optional exponent, an infinity
or a NaN, each with an optional sign. A numeral keeps the exact decimal value; rounding to
the nearest binary value is a separate step.
-/
namespace QueueBench.Number

/-- `finite negative digits exponent` stands for `± digits · 10 ^ exponent`. -/
inductive Numeral where
  | nan
  | infinite (negative : Bool)
  | finite (negative : Bool) (digits : Nat) (exponent : Int)
  deriving DecidableEq, Repr

namespace Numeral

def exponent? : List Char → Option Int
  | '-' :: cs => (unsigned? cs).map fun n => -(n : Int)
  | '+' :: cs => (unsigned? cs).map fun n => (n : Int)
  | cs => (unsigned? cs).map fun n => (n : Int)

def tail? : List Char → Option Int
  | [] => some 0
  | c :: cs => if c = 'e' ∨ c = 'E' then exponent? cs else none

def split (cs : List Char) : List Char × List Char × List Char :=
  match cs.dropWhile Char.isDigit with
  | '.' :: rest =>
    (cs.takeWhile Char.isDigit, rest.takeWhile Char.isDigit, rest.dropWhile Char.isDigit)
  | rest => (cs.takeWhile Char.isDigit, [], rest)

/-- At least one digit stands before or after the point. -/
def decimal? (negative : Bool) (cs : List Char) : Option Numeral :=
  let (whole, fraction, rest) := split cs
  match unsigned? (whole ++ fraction), tail? rest with
  | some digits, some e => some (.finite negative digits (e - fraction.length))
  | _, _ => none

def magnitude? (negative : Bool) (cs : List Char) : Option Numeral :=
  let word := cs.map Char.toLower
  if word = "nan".toList then some .nan
  else if word = "inf".toList ∨ word = "infinity".toList then some (.infinite negative)
  else decimal? negative cs

def ofChars? : List Char → Option Numeral
  | '-' :: cs => magnitude? true cs
  | '+' :: cs => magnitude? false cs
  | cs => magnitude? false cs

def read? (s : String) : Option Numeral := ofChars? s.toList

/-- The nearest binary value, ties to even. -/
def toFloat : Numeral → Float
  | nan => 0.0 / 0.0
  | infinite negative => if negative then -1.0 / 0.0 else 1.0 / 0.0
  | finite negative digits exponent =>
    let x := Float.ofScientific digits (exponent < 0) exponent.natAbs
    if negative then -x else x

end Numeral

end QueueBench.Number
