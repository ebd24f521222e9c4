import QueueBench.Number.Binary

/-!
# Decimal text of a fixed length

Text with a given number of places after the point, or with one digit before the point and
an exponent. The exact binary value is rounded once; a half goes to the even neighbour.
-/
namespace QueueBench.Number

def nonFinite? (x : Float) : Option String :=
  if x.isNaN then some "NaN"
  else if x.isInf then some (if isNegative x then "-inf" else "inf")
  else none

def sign (b : Binary) : String := if b.negative then "-" else ""

def padded (width n : Nat) : List Char :=
  let ds := Nat.toDigits 10 n
  List.replicate (width - ds.length) '0' ++ ds

def pointed (places : Nat) (ds : List Char) : List Char :=
  if places = 0 then ds
  else ds.take (ds.length - places) ++ '.' :: ds.drop (ds.length - places)

def fixed (places : Nat) (x : Float) : String :=
  (nonFinite? x).getD <|
    let b := Binary.ofFloat x
    let (n, d) := b.quotient
    sign b ++ String.ofList
      (pointed places (padded (places + 1) (roundDiv (n * Nat.pow 10 places) d)))

def digitCount (n : Nat) : Nat := (Nat.toDigits 10 n).length

/-- Leading zeros that no finite float exceeds. -/
def smallestPlaces : Nat := 400

/-- The exponent of the first digit of `n / d`, for a value of at least `10 ^ -400`. -/
def leadingExponent (n d : Nat) : Int :=
  (digitCount (n * Nat.pow 10 smallestPlaces / d) : Int) - 1 - smallestPlaces

def inUnits (n d : Nat) (e : Int) : Nat × Nat := (n * Nat.pow 10 (-e).toNat, d * Nat.pow 10 e.toNat)

def scientific (places : Nat) (x : Float) : String :=
  (nonFinite? x).getD <|
    let b := Binary.ofFloat x
    let (n, d) := b.quotient
    let e := if n = 0 then 0 else leadingExponent n d
    let (num, den) := inUnits n d (e - places)
    let m := roundDiv num den
    let (m, e) := if m = Nat.pow 10 (places + 1) then (m / 10, e + 1) else (m, e)
    sign b ++ String.ofList (pointed places (padded (places + 1) m)) ++ s!"e{e}"

end QueueBench.Number
