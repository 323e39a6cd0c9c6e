/-
The register file.

Eight bytes, two words, and three ways to look at the bytes: one by one, in pairs,
and, for F, flag by flag.  Only four bits of F exist, so F is kept as four truth
values; the byte is a view of them whose low nibble is zero whatever is stored.
-/
import Sm83.Word

namespace Sm83

/-! ### Flags -/

/-- Names of the four flags. -/
inductive Flag where
  | zero
  | subtract
  | halfCarry
  | carry
  deriving DecidableEq, Repr

/-- The bit of F that holds a flag. -/
def Flag.mask : Flag → Byte
  | .zero => 0x80
  | .subtract => 0x40
  | .halfCarry => 0x20
  | .carry => 0x10

/-- The contents of F: zero, subtract, half carry and carry. -/
structure Flags where
  z : Bool
  n : Bool
  h : Bool
  c : Bool
  deriving DecidableEq, Repr, Inhabited

namespace Flags

def none : Flags := ⟨false, false, false, false⟩

/-- The flags that the high nibble of a byte stands for; the low nibble is lost. -/
def ofByte (b : Byte) : Flags :=
  { z := b &&& Flag.zero.mask != 0
    n := b &&& Flag.subtract.mask != 0
    h := b &&& Flag.halfCarry.mask != 0
    c := b &&& Flag.carry.mask != 0 }

def toByte (f : Flags) : Byte :=
  (if f.z then Flag.zero.mask else 0) ||| (if f.n then Flag.subtract.mask else 0) |||
    (if f.h then Flag.halfCarry.mask else 0) ||| (if f.c then Flag.carry.mask else 0)

def get (f : Flags) : Flag → Bool
  | .zero => f.z
  | .subtract => f.n
  | .halfCarry => f.h
  | .carry => f.c

def set (f : Flags) (flag : Flag) (value : Bool) : Flags :=
  match flag with
  | .zero => { f with z := value }
  | .subtract => { f with n := value }
  | .halfCarry => { f with h := value }
  | .carry => { f with c := value }

end Flags

/-! ### The file -/

/-- All that an instruction can name, apart from memory. -/
structure Registers where
  a : Byte
  flags : Flags
  b : Byte
  c : Byte
  d : Byte
  e : Byte
  h : Byte
  l : Byte
  sp : Word
  pc : Word
  deriving DecidableEq, Repr, Inhabited

namespace Registers

def zeroed : Registers := ⟨0, Flags.none, 0, 0, 0, 0, 0, 0, 0, 0⟩

def f (r : Registers) : Byte := r.flags.toByte

/-- Stores a byte in F, which keeps its high nibble only. -/
def setF (r : Registers) (value : Byte) : Registers := { r with flags := .ofByte value }

def af (r : Registers) : Word := .ofBytes r.a r.f

def bc (r : Registers) : Word := .ofBytes r.b r.c

def de (r : Registers) : Word := .ofBytes r.d r.e

def hl (r : Registers) : Word := .ofBytes r.h r.l

/-- Stores a word in A and F. -/
def setAf (r : Registers) (w : Word) : Registers :=
  { r with a := Word.high w, flags := .ofByte (Word.low w) }

def setBc (r : Registers) (w : Word) : Registers := { r with b := Word.high w, c := Word.low w }

def setDe (r : Registers) (w : Word) : Registers := { r with d := Word.high w, e := Word.low w }

def setHl (r : Registers) (w : Word) : Registers := { r with h := Word.high w, l := Word.low w }

def flag (r : Registers) (flag : Flag) : Bool := r.flags.get flag

def setFlag (r : Registers) (flag : Flag) (value : Bool) : Registers :=
  { r with flags := r.flags.set flag value }

/-- What the registers hold when the start-up code hands over to a cartridge. -/
def powerOn : Registers :=
  let r := zeroed.setAf 0x01B0 |>.setBc 0x0013 |>.setDe 0x00D8 |>.setHl 0x014D
  { r with pc := 0x0100, sp := 0xFFFE }

end Registers

end Sm83
