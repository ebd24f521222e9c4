/-!
# PNG images

A white image of a given size, as the bytes of a PNG file with one bit for each pixel. Nothing is
compressed: the rows stand in stored blocks. The size of an image can be read back from its bytes.
-/
namespace QueueBench.Png

def signature : List UInt8 := [0x89, 0x50, 0x4E, 0x47, 0x0D, 0x0A, 0x1A, 0x0A]

/-- A number in four bytes, the highest first. -/
def word (n : Nat) : List UInt8 :=
  [(n / Nat.pow 2 24).toUInt8, (n / Nat.pow 2 16).toUInt8, (n / Nat.pow 2 8).toUInt8, n.toUInt8]

/-- A number in two bytes, the lowest first. -/
def half (n : Nat) : List UInt8 := [n.toUInt8, (n / Nat.pow 2 8).toUInt8]

def crcStep (crc : UInt32) : UInt32 :=
  if crc &&& 1 = 1 then (0xEDB88320 : UInt32) ^^^ (crc >>> 1) else crc >>> 1

def crc (bytes : List UInt8) : UInt32 :=
  bytes.foldl (fun c b => (List.range 8).foldl (fun c _ => crcStep c) (c ^^^ b.toUInt32))
    0xFFFFFFFF ^^^ 0xFFFFFFFF

def adler (bytes : List UInt8) : Nat :=
  let (a, b) := bytes.foldl (fun (a, b) x =>
    let a := (a + x.toNat) % 65521
    (a, (b + a) % 65521)) (1, 0)
  b * Nat.pow 2 16 + a

def chunk (kind : String) (content : List UInt8) : List UInt8 :=
  let tagged := kind.toUTF8.toList ++ content
  word content.length ++ tagged ++ word (crc tagged).toNat

/-- A stored block holds its length, the complement of its length, and its bytes. -/
def block (last : Bool) (bytes : List UInt8) : List UInt8 :=
  (if last then 1 else 0) :: half bytes.length ++ half (65535 - bytes.length) ++ bytes

def stored (row : List UInt8) : Nat → List UInt8
  | 0 => block true []
  | n + 1 => block false row ++ stored row n

def whiteRow (width : Nat) : List UInt8 := 0 :: List.replicate ((width + 7) / 8) 0xFF

/-- A white image; a row must fit one block, so `width` is below half a million. -/
def white (width height : Nat) : List UInt8 :=
  let row := whiteRow width
  let rows := (List.replicate height row).flatten
  signature ++
    chunk "IHDR" (word width ++ word height ++ [1, 0, 0, 0, 0]) ++
    chunk "IDAT" ([0x78, 0x01] ++ stored row height ++ word (adler rows)) ++
    chunk "IEND" []

def number (bytes : List UInt8) : Nat := bytes.foldl (fun n b => n * 256 + b.toNat) 0

def size? (bytes : List UInt8) : Option (Nat × Nat) :=
  if bytes.take 8 = signature ∧ 24 ≤ bytes.length then
    some (number ((bytes.drop 16).take 4), number ((bytes.drop 20).take 4))
  else none

end QueueBench.Png
