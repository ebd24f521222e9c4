/-!
# UTF-8

Decoding of a byte sequence, either strictly, where a failure is the index of the first byte that
belongs to no character, or in pieces, where bytes that form no character stay as they are.
-/
namespace QueueBench.Text

def isTail (b : UInt8) : Bool := 0x80 ≤ b && b ≤ 0xBF

def isPair (a b : UInt8) : Bool := 0xC2 ≤ a && a ≤ 0xDF && isTail b

/-- The three bytes form a character: neither an overlong form nor a surrogate. -/
def isTriple (a b c : UInt8) : Bool :=
  ((a == 0xE0 && 0xA0 ≤ b && b ≤ 0xBF) || (0xE1 ≤ a && a ≤ 0xEC && isTail b) ||
    (a == 0xED && 0x80 ≤ b && b ≤ 0x9F) || (0xEE ≤ a && a ≤ 0xEF && isTail b)) && isTail c

/-- The four bytes form a character: neither an overlong form nor beyond the last code point. -/
def isQuadruple (a b c d : UInt8) : Bool :=
  ((a == 0xF0 && 0x90 ≤ b && b ≤ 0xBF) || (0xF1 ≤ a && a ≤ 0xF3 && isTail b) ||
    (a == 0xF4 && 0x80 ≤ b && b ≤ 0x8F)) && isTail c && isTail d

/-- The character with the leading bits of `a` above `low` followed by six bits of each tail. -/
def scalar (a low : UInt8) (tails : List UInt8) : Char :=
  Char.ofNat (tails.foldl (fun n b => n * 64 + (b.toNat - 0x80)) (a.toNat - low.toNat))

def decodeAt (i : Nat) : List UInt8 → Except Nat (List Char)
  | [] => .ok []
  | a :: rest =>
    if a < 0x80 then (decodeAt (i + 1) rest).map (scalar a 0 [] :: ·)
    else match rest with
    | [] => .error i
    | b :: rest =>
      if isPair a b then (decodeAt (i + 2) rest).map (scalar a 0xC0 [b] :: ·)
      else match rest with
      | [] => .error i
      | c :: rest =>
        if isTriple a b c then (decodeAt (i + 3) rest).map (scalar a 0xE0 [b, c] :: ·)
        else match rest with
        | [] => .error i
        | d :: rest =>
          if isQuadruple a b c d then (decodeAt (i + 4) rest).map (scalar a 0xF0 [b, c, d] :: ·)
          else .error i

/-- The text of a byte sequence, or the index of the first byte that is no part of a character. -/
def decode (bytes : List UInt8) : Except Nat String := (decodeAt 0 bytes).map String.ofList

def encode (s : String) : List UInt8 := s.toUTF8.data.toList

inductive Piece where
  | char (c : Char)
  /-- Bytes that begin a character which the next byte does not continue. -/
  | broken (bytes : List UInt8)
  deriving DecidableEq, Repr

namespace Piece

def first (a : UInt8) : List Piece × List UInt8 :=
  if a < 0x80 then ([char (scalar a 0 [])], []) else ([], [a])

def cut (opened : List UInt8) (a : UInt8) : List Piece × List UInt8 :=
  (broken opened :: (first a).1, (first a).2)

/-- One byte behind those that are open: the pieces that end with it, and what stays open. -/
def next : List UInt8 → UInt8 → List Piece × List UInt8
  | [a], b =>
    if isPair a b then ([char (scalar a 0xC0 [b])], [])
    else if isTriple a b 0x80 || isQuadruple a b 0x80 0x80 then ([], [a, b])
    else cut [a] b
  | [a, b], c =>
    if isTriple a b c then ([char (scalar a 0xE0 [b, c])], [])
    else if isQuadruple a b c 0x80 then ([], [a, b, c])
    else cut [a, b] c
  | [a, b, c], d =>
    if isQuadruple a b c d then ([char (scalar a 0xF0 [b, c, d])], []) else cut [a, b, c] d
  | _, a => first a

end Piece

def piecesFrom (opened : List UInt8) : List UInt8 → List Piece
  | [] => if opened = [] then [] else [.broken opened]
  | b :: rest => (Piece.next opened b).1 ++ piecesFrom (Piece.next opened b).2 rest

def pieces (bytes : List UInt8) : List Piece := piecesFrom [] bytes

end QueueBench.Text
