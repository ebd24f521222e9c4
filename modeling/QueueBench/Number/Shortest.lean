import QueueBench.Number.Fixed

/-!
# Shortest decimal text

The fewest decimal digits that identify a float: of the decimal numbers with one digit, with
two, and so on, the first one that lies in the interval of values that round to the float, and
the nearest of those of equal length.
-/
namespace QueueBench.Number

/-- The reals that round to a float, in quarters of its last binary place. -/
structure Interval where
  low : Nat
  value : Nat
  high : Nat
  /-- The ends belong to the interval. -/
  closed : Bool
  /-- Quarters in one unit. -/
  unit : Nat
  deriving DecidableEq, Repr

/-- A power of two is nearer to its lower neighbour. -/
def Interval.ofBinary (b : Binary) : Interval :=
  let scale := Nat.pow 2 b.exponent.toNat
  let lowGap := if b.mantissa = Nat.pow 2 52 ∧ b.exponent ≠ -1074 then 1 else 2
  { low := (4 * b.mantissa - lowGap) * scale
    value := 4 * b.mantissa * scale
    high := (4 * b.mantissa + 2) * scale
    closed := b.mantissa % 2 = 0
    unit := 4 * Nat.pow 2 (-b.exponent).toNat }

def Interval.contains (i : Interval) (n : Nat) (e : Int) : Bool :=
  let x := n * Nat.pow 10 e.toNat * i.unit
  let one := Nat.pow 10 (-e).toNat
  if i.closed then i.low * one ≤ x && x ≤ i.high * one else i.low * one < x && x < i.high * one

/-- The neighbour of the value on the grid of `10 ^ e` that identifies it, if there is one. -/
def Interval.onGrid? (i : Interval) (e : Int) : Option Nat :=
  let (num, den) := inUnits i.value i.unit e
  let below := num / den
  let nearest := roundDiv num den
  let other := if nearest = below then below + 1 else below
  if i.contains nearest e then some nearest
  else if i.contains other e then some other
  else none

def Interval.search (i : Interval) : Nat → Int → Nat × Int
  | 0, e => ((i.onGrid? e).getD 0, e)
  | fuel + 1, e =>
    match i.onGrid? e with
    | some n => (n, e)
    | none => i.search fuel (e - 1)

/-- Digits and exponent of a positive value; seventeen digits always suffice. -/
def shortestDigits (b : Binary) : Nat × Int :=
  let i := Interval.ofBinary b
  i.search 17 (leadingExponent i.value i.unit)

def withoutTrailingZeros (fuel n : Nat) (e : Int) : Nat × Int :=
  match fuel with
  | 0 => (n, e)
  | fuel + 1 => if n ≠ 0 ∧ n % 10 = 0 then withoutTrailingZeros fuel (n / 10) (e + 1) else (n, e)

/-- Positional from `10 ^ -5` up to `10 ^ 16`, where a whole number gets one place; beyond, with
a signed exponent. -/
def shortestText (n : Nat) (e : Int) : List Char :=
  let ds := Nat.toDigits 10 n
  let point := (ds.length : Int) + e
  if 0 ≤ e ∧ point ≤ 16 then ds ++ List.replicate e.toNat '0' ++ ['.', '0']
  else if 0 < point ∧ point ≤ 16 then ds.take point.toNat ++ '.' :: ds.drop point.toNat
  else if -5 < point ∧ point ≤ 0 then '0' :: '.' :: List.replicate (-point).toNat '0' ++ ds
  else
    let power := point - 1
    let mark := if power < 0 then s!"e{power}" else s!"e+{power}"
    match ds with
    | [d] => d :: mark.toList
    | d :: rest => d :: '.' :: rest ++ mark.toList
    | [] => []

/-- Text of a finite float that reads back as the same float. -/
def shortest (x : Float) : String :=
  let b := Binary.ofFloat x
  if b.mantissa = 0 then sign b ++ "0.0"
  else
    let (n, e) := shortestDigits b
    let (n, e) := withoutTrailingZeros 20 n e
    sign b ++ String.ofList (shortestText n e)

end QueueBench.Number
