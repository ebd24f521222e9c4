import QueueBench.Text.Utf8

/-!
# A hash of text

A fixed, unseeded 64-bit hash, so that whatever is picked by it is the same on every run.
Words are read least significant byte first.
-/
namespace QueueBench.Text.Hash

def word (bytes : List UInt8) : UInt64 :=
  bytes.foldr (fun b w => w <<< 8 ||| b.toUInt64) 0

def foldedMul (a b : UInt64) : UInt64 :=
  let p := a.toNat * b.toNat
  p.toUInt64 ^^^ (p >>> 64).toUInt64

structure Lanes where
  low : UInt64
  high : UInt64
  deriving DecidableEq, Repr

def Lanes.seed : Lanes := ⟨0x243f6a8885a308d3, 0x13198a2e03707344⟩

def Lanes.mix (l : Lanes) (x y : UInt64) : Lanes := ⟨l.low ^^^ x, l.high ^^^ y⟩

def Lanes.block (l : Lanes) (x y : UInt64) : Lanes :=
  ⟨l.high, foldedMul (l.low ^^^ x) (0xa4093822299f31d0 ^^^ y)⟩

def Lanes.blocks (l : Lanes) : Nat → List UInt8 → Lanes
  | 0, _ => l
  | n + 1, bytes =>
    (l.block (word (bytes.take 8)) (word ((bytes.drop 8).take 8))).blocks n (bytes.drop 16)

/-- The last byte always belongs to the final pair of words, not to a block. -/
def Lanes.absorb (l : Lanes) (bytes : List UInt8) : Lanes :=
  let n := bytes.length
  if n > 16 then
    let tail := bytes.drop (n - 16)
    (l.blocks ((n - 1) / 16) bytes).mix (word (tail.take 8)) (word (tail.drop 8))
  else if n ≥ 8 then l.mix (word (bytes.take 8)) (word (bytes.drop (n - 8)))
  else if n ≥ 4 then l.mix (word (bytes.take 4)) (word (bytes.drop (n - 4)))
  else match bytes, bytes[n / 2]?, bytes.getLast? with
    | first :: _, some middle, some last =>
      l.mix first.toUInt64 (last.toUInt64 <<< 8 ||| middle.toUInt64)
    | _, _, _ => l

def ofBytes (bytes : List UInt8) : UInt64 :=
  let l := Lanes.seed.absorb bytes
  foldedMul l.low l.high ^^^ bytes.length.toUInt64

def rotateLeft (w : UInt64) (n : UInt64) : UInt64 := w <<< n ||| w >>> (64 - n)

/-- The hash of a text, closed by the byte `0xFF` that ends every text. -/
def ofText (s : String) : UInt64 :=
  let k : UInt64 := 0xf1357aea2e62a9c5
  rotateLeft ((ofBytes (encode s) * k + 0xff) * k) 26

end QueueBench.Text.Hash
