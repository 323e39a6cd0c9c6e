/-
Arithmetic and flags.

Every operation is a function from its operands, and where it looks at them the old
flags, to a byte and the complete new flags.  Carry comes from the exact sum, and
borrow from the difference in twice as many bits, never from the truncated byte.
Half carry comes from the rule that bit `i` of `a ^^^ b ^^^ (a + b)` is the carry
into bit `i`: it holds of sums with a carry in, and of differences with borrows in
place of carries.
-/
import Sm83.Registers

namespace Sm83

/-- A byte and the flags that go with it. -/
structure AluResult where
  value : Byte
  flags : Flags
  deriving DecidableEq, Repr

namespace Alu

/-! ### Bytes -/

/-- The sum of two bytes and a carry. -/
def add (a b : Byte) (carry : Bool) : AluResult :=
  let value := a + b + carry.toUInt8
  { value
    flags :=
      { z := value == 0
        n := false
        h := (a ^^^ b ^^^ value) &&& 0x10 != 0
        c := a.toNat + b.toNat + carry.toNat > 0xFF } }

/-- The difference of two bytes, less a borrow.  Where it wraps around, it is no byte. -/
def sub (a b : Byte) (borrow : Bool) : AluResult :=
  let wide := a.toUInt16 - b.toUInt16 - borrow.toUInt16
  let value := wide.toUInt8
  { value
    flags :=
      { z := value == 0
        n := true
        h := (a ^^^ b ^^^ value) &&& 0x10 != 0
        c := wide > 0xFF } }

/-- Conjunction, which sets half carry. -/
def and (a b : Byte) : AluResult :=
  let value := a &&& b
  ⟨value, { z := value == 0, n := false, h := true, c := false }⟩

def or (a b : Byte) : AluResult :=
  let value := a ||| b
  ⟨value, { z := value == 0, n := false, h := false, c := false }⟩

def xor (a b : Byte) : AluResult :=
  let value := a ^^^ b
  ⟨value, { z := value == 0, n := false, h := false, c := false }⟩

/-- One more.  Carry stays. -/
def inc (value : Byte) (flags : Flags) : AluResult :=
  let result := value + 1
  ⟨result, { flags with z := result == 0, n := false, h := value &&& 0x0F == 0x0F }⟩

/-- One less.  Carry stays. -/
def dec (value : Byte) (flags : Flags) : AluResult :=
  let result := value - 1
  ⟨result, { flags with z := result == 0, n := true, h := value &&& 0x0F == 0 }⟩

def bitMask (n : Fin 8) : Byte := 1 <<< UInt8.ofNat n.val

/-- Tests a bit: zero says that it is clear.  Carry stays. -/
def bit (n : Fin 8) (value : Byte) (flags : Flags) : Flags :=
  { flags with z := value &&& bitMask n == 0, n := false, h := true }

/-- Clears a bit and touches no flag. -/
def res (n : Fin 8) (value : Byte) (flags : Flags) : AluResult := ⟨value &&& ~~~bitMask n, flags⟩

/-- Sets a bit and touches no flag. -/
def set (n : Fin 8) (value : Byte) (flags : Flags) : AluResult := ⟨value ||| bitMask n, flags⟩

/--
Turns the sum or difference of two packed decimal bytes into packed decimal.

Six is added to a digit that overflowed or exceeds nine; after a subtraction six is
taken from a digit that borrowed.  Carry can be set by this and is never cleared.
-/
def daa (a : Byte) (flags : Flags) : AluResult :=
  let lowDigit := flags.h || (!flags.n && a &&& 0x0F > 0x09)
  let highDigit := flags.c || (!flags.n && a > 0x99)
  let correction := (if lowDigit then 0x06 else 0) ||| (if highDigit then 0x60 else 0)
  let value := if flags.n then a - correction else a + correction
  ⟨value, { z := value == 0, n := flags.n, h := false, c := highDigit }⟩

/-- Complements the byte.  Zero and carry stay. -/
def cpl (a : Byte) (flags : Flags) : AluResult := ⟨~~~a, { flags with n := true, h := true }⟩

/-- Sets carry.  Zero stays. -/
def scf (flags : Flags) : Flags := { flags with n := false, h := false, c := true }

/-- Inverts carry.  Zero stays. -/
def ccf (flags : Flags) : Flags := { flags with n := false, h := false, c := !flags.c }

/-! ### Words -/

/-- The sum of two words.  Half carry is the carry out of bit 11, and zero stays. -/
def addWord (a b : Word) (flags : Flags) : Word × Flags :=
  let value := a + b
  (value,
    { flags with
      n := false
      h := (a ^^^ b ^^^ value) &&& 0x1000 != 0
      c := a.toNat + b.toNat > 0xFFFF })

/--
A stack pointer plus a signed displacement.

Half carry and carry are those of the low bytes, also when the displacement is
negative; zero is cleared.
-/
def addSigned (sp : Word) (offset : Byte) : Word × Flags :=
  let wide := Word.signExtend offset
  let value := sp + wide
  let carries := sp ^^^ wide ^^^ value
  (value, { z := false, n := false, h := carries &&& 0x10 != 0, c := carries &&& 0x100 != 0 })

end Alu

/-! ### The operations on the accumulator -/

/-- The eight operations that combine the accumulator with an operand. -/
inductive AluOp where
  | add
  | adc
  | sub
  | sbc
  | and
  | xor
  | or
  | cp
  deriving DecidableEq, Repr

namespace AluOp

/-- The operation with a given number in the opcode. -/
def ofIndex : Fin 8 → AluOp
  | 0 => .add
  | 1 => .adc
  | 2 => .sub
  | 3 => .sbc
  | 4 => .and
  | 5 => .xor
  | 6 => .or
  | 7 => .cp

def mnemonic : AluOp → String
  | .add => "ADD"
  | .adc => "ADC"
  | .sub => "SUB"
  | .sbc => "SBC"
  | .and => "AND"
  | .xor => "XOR"
  | .or => "OR"
  | .cp => "CP"

/-- The new accumulator and flags.  Comparing sets the flags of a subtraction and keeps `a`. -/
def apply (op : AluOp) (a operand : Byte) (flags : Flags) : AluResult :=
  match op with
  | .add => Alu.add a operand false
  | .adc => Alu.add a operand flags.c
  | .sub => Alu.sub a operand false
  | .sbc => Alu.sub a operand flags.c
  | .and => Alu.and a operand
  | .xor => Alu.xor a operand
  | .or => Alu.or a operand
  | .cp => ⟨a, (Alu.sub a operand false).flags⟩

end AluOp

/-! ### Rotations and shifts -/

/-- The eight ways to move the bits of a byte by one place, and the swap of its nibbles. -/
inductive ShiftOp where
  | rlc
  | rrc
  | rl
  | rr
  | sla
  | sra
  | swap
  | srl
  deriving DecidableEq, Repr

namespace ShiftOp

def ofIndex : Fin 8 → ShiftOp
  | 0 => .rlc
  | 1 => .rrc
  | 2 => .rl
  | 3 => .rr
  | 4 => .sla
  | 5 => .sra
  | 6 => .swap
  | 7 => .srl

def mnemonic : ShiftOp → String
  | .rlc => "RLC"
  | .rrc => "RRC"
  | .rl => "RL"
  | .rr => "RR"
  | .sla => "SLA"
  | .sra => "SRA"
  | .swap => "SWAP"
  | .srl => "SRL"

/-- The moved byte and the bit that fell out of it; a swap drops none. -/
def shift (op : ShiftOp) (value : Byte) (carryIn : Bool) : Byte × Bool :=
  let top := value &&& 0x80 != 0
  let bottom := value &&& 0x01 != 0
  match op with
  | .rlc => ((value <<< 1) ||| (value >>> 7), top)
  | .rrc => ((value >>> 1) ||| (value <<< 7), bottom)
  | .rl => ((value <<< 1) ||| carryIn.toUInt8, top)
  | .rr => ((value >>> 1) ||| (carryIn.toUInt8 <<< 7), bottom)
  | .sla => (value <<< 1, top)
  | .sra => ((value >>> 1) ||| (value &&& 0x80), bottom)
  | .swap => ((value <<< 4) ||| (value >>> 4), false)
  | .srl => (value >>> 1, bottom)

/-- The form with an operand: zero says whether the result is zero. -/
def apply (op : ShiftOp) (value : Byte) (flags : Flags) : AluResult :=
  let (result, carry) := op.shift value flags.c
  ⟨result, { z := result == 0, n := false, h := false, c := carry }⟩

/-- The short form on the accumulator: zero is always cleared. -/
def applyAccumulator (op : ShiftOp) (value : Byte) (flags : Flags) : AluResult :=
  let (result, carry) := op.shift value flags.c
  ⟨result, { z := false, n := false, h := false, c := carry }⟩

end ShiftOp

end Sm83
