/-
Bytes as text.

Bytes that are not UTF-8 are shown all the same: every longest run of bytes that starts
a character without finishing it, and every byte that cannot start one, becomes one
replacement character.
-/
import Sm83.Word

namespace Sm83.Utf8

def replacement : Char := '\ufffd'

/-- Whether a byte goes on with a character. -/
def isContinuation (b : Byte) : Bool := 0x80 ≤ b && b ≤ 0xBF

/--
The bytes that may follow the first byte of a character, as a range, and the number of
bytes after that one; nothing if no longer character starts with this byte.

The ranges leave out what has a shorter form, the surrogates, and what is too large.
-/
def second? (b : Byte) : Option ((Byte × Byte) × Nat) :=
  if 0xC2 ≤ b && b ≤ 0xDF then some ((0x80, 0xBF), 0)
  else if b == 0xE0 then some ((0xA0, 0xBF), 1)
  else if b == 0xED then some ((0x80, 0x9F), 1)
  else if 0xE1 ≤ b && b ≤ 0xEF then some ((0x80, 0xBF), 1)
  else if b == 0xF0 then some ((0x90, 0xBF), 2)
  else if 0xF1 ≤ b && b ≤ 0xF3 then some ((0x80, 0xBF), 2)
  else if b == 0xF4 then some ((0x80, 0x8F), 2)
  else none

/-- The bits of a character that its first byte holds, when `more` bytes follow the second. -/
def leadBits (b : Byte) (more : Nat) : Nat := b.toNat % Nat.pow 2 (5 - more)

/-- Appends the six bits of a continuation byte. -/
def addBits (n : Nat) (b : Byte) : Nat := n * 64 + b.toNat % 64

/-- Reads `more` continuation bytes; tells what it read, and the bits if it found all of them. -/
def continuations : Nat → Nat → List Byte → Option Nat × Nat
  | 0, bits, _ => (some bits, 0)
  | _ + 1, _, [] => (none, 0)
  | more + 1, bits, b :: rest =>
    if isContinuation b then
      let (result, count) := continuations more (addBits bits b) rest
      (result, count + 1)
    else (none, 0)

/--
The character at the front of some bytes, if it is well formed, and how many bytes after
the first one belong to it or to what there is of it.
-/
def front (b : Byte) (rest : List Byte) : Option Char × Nat :=
  if b < 0x80 then (some (Char.ofNat b.toNat), 0)
  else
    match second? b, rest with
    | some ((low, high), more), s :: rest =>
      if low ≤ s && s ≤ high then
        let (bits, count) := continuations more (addBits (leadBits b more) s) rest
        (bits.map Char.ofNat, count + 1)
      else (none, 0)
    | _, _ => (none, 0)

/-- All characters of some bytes, with nothing where no character is well formed. -/
def characters : List Byte → List (Option Char)
  | [] => []
  | b :: rest =>
    let (c, count) := front b rest
    c :: characters (rest.drop count)
termination_by bytes => bytes.length
decreasing_by
  rw [List.length_drop, List.length_cons]
  omega

/-- Bytes as text, if they are well formed. -/
def decode (bytes : List Byte) : Option String :=
  ((characters bytes).mapM id).map String.ofList

/-- Bytes as text, with replacements where they are not well formed. -/
def lossy (bytes : List Byte) : String :=
  String.ofList ((characters bytes).map (·.getD replacement))

end Sm83.Utf8
