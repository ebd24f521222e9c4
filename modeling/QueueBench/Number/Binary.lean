/-!
# Binary fractions

The exact value of a finite float, sums of floats, and rounding of quotients to the nearest whole
number.
-/
namespace QueueBench.Number

/-- Stands for `± mantissa · 2 ^ exponent`. -/
structure Binary where
  negative : Bool
  mantissa : Nat
  exponent : Int
  deriving DecidableEq, Repr

def isNegative (x : Float) : Bool := x.toBits.toNat ≥ Nat.pow 2 63

/-- The value of a finite float; zeros keep their sign. -/
def Binary.ofFloat (x : Float) : Binary :=
  let bits := x.toBits.toNat
  let biased : Nat := bits / Nat.pow 2 52 % Nat.pow 2 11
  let fraction : Nat := bits % Nat.pow 2 52
  if biased = 0 then ⟨isNegative x, fraction, -1074⟩
  else ⟨isNegative x, fraction + Nat.pow 2 52, (biased : Int) - 1075⟩

def Binary.quotient (b : Binary) : Nat × Nat :=
  (b.mantissa * Nat.pow 2 b.exponent.toNat, Nat.pow 2 (-b.exponent).toNat)

/-- The whole number nearest to `n / d`; a half goes to the even neighbour. -/
def roundDiv (n d : Nat) : Nat :=
  let q := n / d
  let twice := 2 * (n % d)
  if twice < d then q
  else if d < twice then q + 1
  else if q % 2 = 0 then q else q + 1

/-- Sum from left to right; the empty sum is minus zero, the neutral element of addition. -/
def sum (xs : List Float) : Float := xs.foldl (· + ·) (-0.0)

def mean (xs : List Float) : Float := sum xs / Float.ofNat xs.length

end QueueBench.Number
