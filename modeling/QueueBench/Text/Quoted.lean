import QueueBench.Text.Printable

/-!
# Quoted text

Escapes for text between double quotes, in messages to a programmer. Double quotes, backslashes
and whatever does not show are escaped, so that the text can be told from what stands around it.
-/
namespace QueueBench.Text

def hexDigits (n : Nat) : List Char := Nat.toDigits 16 n

def codePoint (c : Char) : List Char :=
  ['\\', 'u', Char.ofNat 0x7B] ++ hexDigits c.toNat ++ [Char.ofNat 0x7D]

def escapeQuoted (c : Char) : List Char :=
  match c.toNat with
  | 0 => ['\\', '0']
  | 0x09 => ['\\', 't']
  | 0x0A => ['\\', 'n']
  | 0x0D => ['\\', 'r']
  | 0x22 | 0x5C => ['\\', c]
  | _ => if isPrintable c then [c] else codePoint c

def escapeByte (b : UInt8) : List Char := ['\\', 'x'] ++ (hexDigits b.toNat).map Char.toUpper

end QueueBench.Text
