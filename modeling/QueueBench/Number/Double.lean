import QueueBench.Number.Binary

/-!
# Stored numbers

A measurement is kept as the 64 bits it is stored in. Arithmetic takes the float they stand for;
the total order takes the bits, and so tells apart what is not a number.
-/
namespace QueueBench

structure Double where
  bits : UInt64
  deriving DecidableEq, Repr

namespace Double

def value (d : Double) : Float := Float.ofBits d.bits

def ofFloat (x : Float) : Double := ⟨x.toBits⟩

def ofNat (n : Nat) : Double := ofFloat (Float.ofNat n)

instance (n : Nat) : OfNat Double n := ⟨ofNat n⟩

/-- Rank in the total order: `-NaN < -∞ < … < -0 < +0 < … < +∞ < +NaN`. -/
def orderKey (d : Double) : Int :=
  let bits := d.bits.toNat
  if bits < Nat.pow 2 63 then bits else -((bits - Nat.pow 2 63 : Nat) : Int) - 1

def lesser (a b : Double) : Double := if orderKey b < orderKey a then b else a

def greater (a b : Double) : Double := if orderKey a < orderKey b then b else a

end Double

end QueueBench
