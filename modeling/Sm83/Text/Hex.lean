/-
Numbers as the listings and the messages show them: upper-case hexadecimal of a
fixed width, and signed decimal for displacements.
-/
import Sm83.Word

namespace Sm83.Hex

/-- The upper-case digit for a value below 16. -/
def digit (n : Nat) : Char := Char.ofNat (if n < 10 then 0x30 + n else 0x37 + n)

/-- The last `width` hexadecimal digits of `n`, with leading zeros. -/
def digits : Nat → Nat → List Char
  | 0, _ => []
  | width + 1, n => digits width (n / 16) ++ [digit (n % 16)]

def byte (b : Byte) : String := String.ofList (digits 2 b.toNat)

def word (w : Word) : String := String.ofList (digits 4 w.toNat)

/-- The value of a digit of either case. -/
def value? (c : Char) : Option Nat :=
  if '0' ≤ c && c ≤ '9' then some (c.toNat - 0x30)
  else if 'A' ≤ c && c ≤ 'F' then some (c.toNat - 0x37)
  else if 'a' ≤ c && c ≤ 'f' then some (c.toNat - 0x57)
  else none

/-- The decimal number that a byte denotes in two's complement. -/
def signed (b : Byte) : String :=
  if b < 0x80 then toString b.toNat else "-" ++ toString (256 - b.toNat)

end Sm83.Hex
