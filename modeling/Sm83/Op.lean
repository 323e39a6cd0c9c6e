/-
The operations of the processor.

An operation is an opcode with its operand slots named: what is left open is only the
literal that follows in memory.  Length, cost and category are functions of the
operation, so that whoever runs, predicts or lists it reads the same table.
-/
import Sm83.Alu

namespace Sm83

/-! ### Operands -/

/-- An eight-bit operand: a register, or the byte that HL points to. -/
inductive Slot where
  | b
  | c
  | d
  | e
  | h
  | l
  | atHl
  | a
  deriving DecidableEq, Repr

namespace Slot

def ofIndex : Fin 8 → Slot
  | 0 => .b
  | 1 => .c
  | 2 => .d
  | 3 => .e
  | 4 => .h
  | 5 => .l
  | 6 => .atHl
  | 7 => .a

def name : Slot → String
  | .b => "B"
  | .c => "C"
  | .d => "D"
  | .e => "E"
  | .h => "H"
  | .l => "L"
  | .atHl => "(HL)"
  | .a => "A"

end Slot

/-- A sixteen-bit operand of loads and arithmetic. -/
inductive Pair where
  | bc
  | de
  | hl
  | sp
  deriving DecidableEq, Repr

namespace Pair

def ofIndex : Fin 4 → Pair
  | 0 => .bc
  | 1 => .de
  | 2 => .hl
  | 3 => .sp

def name : Pair → String
  | .bc => "BC"
  | .de => "DE"
  | .hl => "HL"
  | .sp => "SP"

end Pair

/-- A sixteen-bit operand of the stack operations. -/
inductive StackPair where
  | bc
  | de
  | hl
  | af
  deriving DecidableEq, Repr

namespace StackPair

def ofIndex : Fin 4 → StackPair
  | 0 => .bc
  | 1 => .de
  | 2 => .hl
  | 3 => .af

def name : StackPair → String
  | .bc => "BC"
  | .de => "DE"
  | .hl => "HL"
  | .af => "AF"

end StackPair

/-- A pair that points to the byte moved to or from the accumulator. -/
inductive Pointer where
  | bc
  | de
  | hlUp
  | hlDown
  deriving DecidableEq, Repr

namespace Pointer

def ofIndex : Fin 4 → Pointer
  | 0 => .bc
  | 1 => .de
  | 2 => .hlUp
  | 3 => .hlDown

def name : Pointer → String
  | .bc => "(BC)"
  | .de => "(DE)"
  | .hlUp => "(HL+)"
  | .hlDown => "(HL-)"

end Pointer

/-- What a branch can depend on. -/
inductive Cond where
  | nz
  | z
  | nc
  | c
  deriving DecidableEq, Repr

namespace Cond

def ofIndex : Fin 4 → Cond
  | 0 => .nz
  | 1 => .z
  | 2 => .nc
  | 3 => .c

def name : Cond → String
  | .nz => "NZ"
  | .z => "Z"
  | .nc => "NC"
  | .c => "C"

def holds : Cond → Flags → Bool
  | .nz, f => !f.z
  | .z, f => f.z
  | .nc, f => !f.c
  | .c, f => f.c

end Cond

/-! ### Operations -/

/-- An operation.  A branch without a condition is always taken. -/
inductive Op where
  | nop
  | stop
  | halt
  | di
  | ei
  | storeSp
  | loadPair (pair : Pair)
  | addHl (pair : Pair)
  | storeA (pointer : Pointer)
  | loadA (pointer : Pointer)
  | incPair (pair : Pair)
  | decPair (pair : Pair)
  | inc (slot : Slot)
  | dec (slot : Slot)
  | loadImm (slot : Slot)
  | rlca
  | rrca
  | rla
  | rra
  | daa
  | cpl
  | scf
  | ccf
  | jr (cond : Option Cond)
  | move (dst src : Slot)
  | alu (op : AluOp) (slot : Slot)
  | aluImm (op : AluOp)
  | ret (cond : Option Cond)
  | reti
  | pop (pair : StackPair)
  | push (pair : StackPair)
  | jp (cond : Option Cond)
  | jpHl
  | call (cond : Option Cond)
  /-- Calls one of the eight fixed addresses. -/
  | rst (n : Fin 8)
  /-- Stores A in the last page at the literal. -/
  | storeHigh
  /-- Loads A from the last page at the literal. -/
  | loadHigh
  /-- Stores A in the last page at C. -/
  | storeHighC
  /-- Loads A from the last page at C. -/
  | loadHighC
  | storeAbs
  | loadAbs
  | addSp
  /-- Loads HL with SP plus the literal. -/
  | loadHlSp
  | loadSpHl
  /-- The byte that announces an opcode of the second page. -/
  | escape
  | shift (op : ShiftOp) (slot : Slot)
  | bit (n : Fin 8) (slot : Slot)
  | res (n : Fin 8) (slot : Slot)
  | set (n : Fin 8) (slot : Slot)
  /-- A byte that means nothing. -/
  | undefined (byte : Byte)
  deriving DecidableEq, Repr

/-- The address that restart `n` calls. -/
def restartVector (n : Fin 8) : Byte := UInt8.ofNat (8 * n.val)

/-- A coarse sorting of the operations by what they do to the flow of control. -/
inductive Category where
  | normal
  | jump
  | conditionalJump
  | call
  | conditionalCall
  | restart
  | ret
  | returnFromInterrupt
  /-- Reads the byte at HL and, unless it only tests it, writes it back. -/
  | twoStage
  | escape
  | undefined
  deriving DecidableEq, Repr

/-- What an operation costs in clock cycles, and what it costs if a conditional branch is taken. -/
structure Cost where
  base : Nat
  taken : Nat
  deriving DecidableEq, Repr

def Cost.fixed (cycles : Nat) : Cost := ⟨cycles, cycles⟩

namespace Op

def category : Op → Category
  | jr none | jp none | jpHl => .jump
  | jr (some _) | jp (some _) => .conditionalJump
  | call none => .call
  | call (some _) => .conditionalCall
  | rst _ => .restart
  | ret _ => .ret
  | reti => .returnFromInterrupt
  | inc .atHl | dec .atHl | shift _ .atHl | bit _ .atHl | res _ .atHl | set _ .atHl => .twoStage
  | escape => .escape
  | undefined _ => .undefined
  | _ => .normal

/-- The number of bytes an instruction takes, the escape byte and the literal included. -/
def length : Op → Nat
  | stop | loadImm _ | jr _ | aluImm _ | storeHigh | loadHigh | addSp | loadHlSp => 2
  | shift _ _ | bit _ _ | res _ _ | set _ _ => 2
  | storeSp | loadPair _ | jp _ | call _ | storeAbs | loadAbs => 3
  | _ => 1

def cost : Op → Cost
  | storeSp => .fixed 20
  | loadPair _ => .fixed 12
  | addHl _ | incPair _ | decPair _ => .fixed 8
  | storeA _ | loadA _ => .fixed 8
  | inc .atHl | dec .atHl | loadImm .atHl => .fixed 12
  | loadImm _ => .fixed 8
  | jr none => .fixed 12
  | jr (some _) => ⟨8, 12⟩
  | move .atHl _ | move _ .atHl => .fixed 8
  | alu _ .atHl | aluImm _ => .fixed 8
  | ret none | reti => .fixed 16
  | ret (some _) => ⟨8, 20⟩
  | pop _ => .fixed 12
  | push _ => .fixed 16
  | jp none => .fixed 16
  | jp (some _) => ⟨12, 16⟩
  | call none => .fixed 24
  | call (some _) => ⟨12, 24⟩
  | rst _ => .fixed 16
  | storeHigh | loadHigh => .fixed 12
  | storeHighC | loadHighC => .fixed 8
  | storeAbs | loadAbs => .fixed 16
  | addSp => .fixed 16
  | loadHlSp => .fixed 12
  | loadSpHl => .fixed 8
  | bit _ .atHl => .fixed 12
  | shift _ .atHl | res _ .atHl | set _ .atHl => .fixed 16
  | shift _ _ | bit _ _ | res _ _ | set _ _ => .fixed 8
  | _ => .fixed 4

/-- The condition of a branch, if the operation is a conditional one. -/
def cond? : Op → Option Cond
  | jr cond | jp cond | call cond | ret cond => cond
  | _ => none

/-- Whether a branch would be taken with these flags. -/
def branches (op : Op) (flags : Flags) : Bool := op.cond?.all (·.holds flags)

end Op

end Sm83
