/-
What one operation does.

An operation turns registers into registers by a program on the bus.  It never touches
PC: it is told where control goes by default and says where it goes in the end.  What
concerns the processor as a whole (the interrupt switch, halting, stopping) it only
asks for.
-/
import Sm83.Bus
import Sm83.Op

namespace Sm83

/-- A request to the processor. -/
inductive Effect where
  | disableInterrupts
  | enableInterrupts
  | returnFromInterrupt
  | halt
  | stop
  deriving DecidableEq, Repr

/-- What an operation leaves behind. -/
structure Outcome where
  regs : Registers
  /-- Where control goes. -/
  next : Word
  /-- Whether a conditional branch was taken. -/
  taken : Bool
  effect : Option Effect
  deriving DecidableEq, Repr

namespace Outcome

/-- Control goes on to `next`. -/
def goOn (next : Word) (regs : Registers) : Outcome := ⟨regs, next, false, none⟩

/-- Control goes on to `next`, and the processor is asked for something. -/
def ask (next : Word) (regs : Registers) (effect : Effect) : Outcome :=
  ⟨regs, next, false, some effect⟩

/-- A branch is taken, which costs more if it could have been otherwise. -/
def branch (cond : Option Cond) (target : Word) (regs : Registers) : Outcome :=
  ⟨regs, target, cond.isSome, none⟩

end Outcome

namespace Registers

/-! ### Operands -/

def readSlot (r : Registers) : Slot → Bus Byte
  | .b => pure r.b
  | .c => pure r.c
  | .d => pure r.d
  | .e => pure r.e
  | .h => pure r.h
  | .l => pure r.l
  | .atHl => .readByte r.hl
  | .a => pure r.a

def writeSlot (r : Registers) (slot : Slot) (value : Byte) : Bus Registers :=
  match slot with
  | .b => pure { r with b := value }
  | .c => pure { r with c := value }
  | .d => pure { r with d := value }
  | .e => pure { r with e := value }
  | .h => pure { r with h := value }
  | .l => pure { r with l := value }
  | .atHl => do
    Bus.writeByte r.hl value
    return r
  | .a => pure { r with a := value }

/-- Reads an eight-bit operand, writes back what `f` makes of it, and keeps the flags of that. -/
def modifySlot (r : Registers) (slot : Slot) (f : Byte → Flags → AluResult) : Bus Registers := do
  let value ← r.readSlot slot
  let result := f value r.flags
  let r ← r.writeSlot slot result.value
  return { r with flags := result.flags }

def pair (r : Registers) : Pair → Word
  | .bc => r.bc
  | .de => r.de
  | .hl => r.hl
  | .sp => r.sp

def setPair (r : Registers) (pair : Pair) (w : Word) : Registers :=
  match pair with
  | .bc => r.setBc w
  | .de => r.setDe w
  | .hl => r.setHl w
  | .sp => { r with sp := w }

def stackPair (r : Registers) : StackPair → Word
  | .bc => r.bc
  | .de => r.de
  | .hl => r.hl
  | .af => r.af

def setStackPair (r : Registers) (pair : StackPair) (w : Word) : Registers :=
  match pair with
  | .bc => r.setBc w
  | .de => r.setDe w
  | .hl => r.setHl w
  | .af => r.setAf w

def pointer (r : Registers) : Pointer → Word
  | .bc => r.bc
  | .de => r.de
  | .hlUp | .hlDown => r.hl

/-- Moves a pointer that moves when it is used. -/
def advance (r : Registers) : Pointer → Registers
  | .bc | .de => r
  | .hlUp => r.setHl (r.hl + 1)
  | .hlDown => r.setHl (r.hl - 1)

/-- Stores a result in the accumulator and the flags. -/
def setAccumulator (r : Registers) (result : AluResult) : Registers :=
  { r with a := result.value, flags := result.flags }

/-! ### The stack -/

/-- Puts a word on the stack, the high byte first and above the low one. -/
def push (r : Registers) (w : Word) : Bus Registers := do
  Bus.writeByte (r.sp - 1) (Word.high w)
  Bus.writeByte (r.sp - 2) (Word.low w)
  return { r with sp := r.sp - 2 }

/-- Takes a word from the stack. -/
def pop (r : Registers) : Bus (Word × Registers) := do
  let low ← Bus.readByte r.sp
  let high ← Bus.readByte (r.sp + 1)
  return (Word.ofBytes high low, { r with sp := r.sp + 2 })

end Registers

namespace Op

/-! ### Operations -/

/-- Whether a branch with this condition is taken. -/
def taken (cond : Option Cond) (r : Registers) : Bool := cond.all (·.holds r.flags)

/--
Carries out an operation whose literal is `literal`, with control going to `next` by default.

The escape byte and the undefined bytes do nothing here: decoding yields neither.
-/
def execute (op : Op) (literal : Word) (r : Registers) (next : Word) : Bus Outcome :=
  match op with
  | nop | escape | undefined _ => return .goOn next r
  | stop => return .ask next r .stop
  | halt => return .ask next r .halt
  | di => return .ask next r .disableInterrupts
  | ei => return .ask next r .enableInterrupts
  | storeSp => do
    Bus.writeWord literal r.sp
    return .goOn next r
  | loadPair pair => return .goOn next (r.setPair pair literal)
  | addHl pair =>
    let (sum, flags) := Alu.addWord r.hl (r.pair pair) r.flags
    return .goOn next { r.setHl sum with flags }
  | storeA pointer => do
    Bus.writeByte (r.pointer pointer) r.a
    return .goOn next (r.advance pointer)
  | loadA pointer => do
    let value ← Bus.readByte (r.pointer pointer)
    return .goOn next { r.advance pointer with a := value }
  | incPair pair => return .goOn next (r.setPair pair (r.pair pair + 1))
  | decPair pair => return .goOn next (r.setPair pair (r.pair pair - 1))
  | inc slot => return .goOn next (← r.modifySlot slot Alu.inc)
  | dec slot => return .goOn next (← r.modifySlot slot Alu.dec)
  | loadImm slot => return .goOn next (← r.writeSlot slot (Word.low literal))
  | rlca => return .goOn next (r.setAccumulator (ShiftOp.rlc.applyAccumulator r.a r.flags))
  | rrca => return .goOn next (r.setAccumulator (ShiftOp.rrc.applyAccumulator r.a r.flags))
  | rla => return .goOn next (r.setAccumulator (ShiftOp.rl.applyAccumulator r.a r.flags))
  | rra => return .goOn next (r.setAccumulator (ShiftOp.rr.applyAccumulator r.a r.flags))
  | daa => return .goOn next (r.setAccumulator (Alu.daa r.a r.flags))
  | cpl => return .goOn next (r.setAccumulator (Alu.cpl r.a r.flags))
  | scf => return .goOn next { r with flags := Alu.scf r.flags }
  | ccf => return .goOn next { r with flags := Alu.ccf r.flags }
  | jr cond =>
    if taken cond r then return .branch cond (next + Word.signExtend (Word.low literal)) r
    else return .goOn next r
  | move dst src => do
    let value ← r.readSlot src
    return .goOn next (← r.writeSlot dst value)
  | alu op slot => do
    let operand ← r.readSlot slot
    return .goOn next (r.setAccumulator (op.apply r.a operand r.flags))
  | aluImm op => return .goOn next (r.setAccumulator (op.apply r.a (Word.low literal) r.flags))
  | ret cond => do
    if taken cond r then
      let (target, r) ← r.pop
      return .branch cond target r
    else return .goOn next r
  | reti => do
    let (target, r) ← r.pop
    return .ask target r .returnFromInterrupt
  | pop pair => do
    let (w, r) ← r.pop
    return .goOn next (r.setStackPair pair w)
  | push pair => return .goOn next (← r.push (r.stackPair pair))
  | jp cond => if taken cond r then return .branch cond literal r else return .goOn next r
  | jpHl => return .goOn r.hl r
  | call cond => do
    if taken cond r then return .branch cond literal (← r.push next) else return .goOn next r
  | rst n => return .goOn (restartVector n).toUInt16 (← r.push next)
  | storeHigh => do
    Bus.writeByte (Word.inHighPage (Word.low literal)) r.a
    return .goOn next r
  | loadHigh => do
    let value ← Bus.readByte (Word.inHighPage (Word.low literal))
    return .goOn next { r with a := value }
  | storeHighC => do
    Bus.writeByte (Word.inHighPage r.c) r.a
    return .goOn next r
  | loadHighC => do
    let value ← Bus.readByte (Word.inHighPage r.c)
    return .goOn next { r with a := value }
  | storeAbs => do
    Bus.writeByte literal r.a
    return .goOn next r
  | loadAbs => do
    let value ← Bus.readByte literal
    return .goOn next { r with a := value }
  | addSp =>
    let (sum, flags) := Alu.addSigned r.sp (Word.low literal)
    return .goOn next { r with sp := sum, flags }
  | loadHlSp =>
    let (sum, flags) := Alu.addSigned r.sp (Word.low literal)
    return .goOn next { r.setHl sum with flags }
  | loadSpHl => return .goOn next { r with sp := r.hl }
  | shift op slot => return .goOn next (← r.modifySlot slot op.apply)
  | bit n slot => do
    let value ← r.readSlot slot
    return .goOn next { r with flags := Alu.bit n value r.flags }
  | res n slot => return .goOn next (← r.modifySlot slot (Alu.res n))
  | set n slot => return .goOn next (← r.modifySlot slot (Alu.set n))

end Op

end Sm83
