/-
Instructions: an opcode at an address, with the literal that follows it.

Decoding looks at three bytes, which is as long as an instruction gets, and uses only
as many as the opcode asks for.  Writing an instruction back gives exactly those bytes.
-/
import Sm83.Opcode

namespace Sm83

/-- The three bytes from an address on. -/
structure Window where
  first : Byte
  second : Byte
  third : Byte
  deriving DecidableEq, Repr

/-- A decoded instruction.  The literal is zero when the opcode has none. -/
structure Instruction where
  addr : Word
  opcode : Opcode
  literal : Word
  deriving DecidableEq, Repr

namespace Instruction

def op (i : Instruction) : Op := i.opcode.op

def length (i : Instruction) : Nat := i.opcode.length

/-- The address of the byte after the instruction. -/
def next (i : Instruction) : Word := i.addr + UInt16.ofNat i.length

def literalByte (i : Instruction) : Byte := Word.low i.literal

/-! ### Decoding -/

/-- The opcode at the front of a window. -/
def opcodeOf (w : Window) : Opcode :=
  if w.first == 0xCB then .extended w.second else .base w.first

/-- The literal after the opcode at the front of a window, in an instruction of a given length. -/
def literalOf (code : Opcode) (length : Nat) (w : Window) : Word :=
  match code, length with
  | .base _, 2 => w.second.toUInt16
  | .base _, 3 => Word.ofBytes w.third w.second
  | _, _ => 0

/-- Reads the instruction at the front of a window. -/
def decode (w : Window) (addr : Word) : Except Fault Instruction :=
  let opcode := opcodeOf w
  match opcode.op with
  | .undefined byte => .error (.undefinedOpcode byte addr)
  | op => .ok { addr, opcode, literal := literalOf opcode op.length w }

def encode (i : Instruction) : List Byte :=
  match i.opcode with
  | .extended byte => [0xCB, byte]
  | .base byte => byte :: [Word.low i.literal, Word.high i.literal].take (i.length - 1)

/-! ### Flow of control -/

/-- The destination of a jump relative to the instruction after it. -/
def relativeTarget (i : Instruction) : Word := i.next + Word.signExtend i.literalByte

/-- The destination of a jump, call or restart, where the instruction itself gives it. -/
def staticTarget (i : Instruction) : Option Word :=
  match i.op with
  | .jr _ => some i.relativeTarget
  | .jp _ | .call _ => some i.literal
  | .rst n => some (restartVector n).toUInt16
  | _ => none

/-- Where control can go from an instruction, as far as the instruction tells. -/
inductive Flow where
  | next
  | jump (target : Word)
  | conditionalJump (target : Word)
  | call (target : Word)
  | conditionalCall (target : Word)
  | restart (target : Word)
  /-- Nowhere, or to an address the instruction does not hold. -/
  | stop
  deriving DecidableEq, Repr

/-- The flow of control from an instruction.  A conditional return counts as going on. -/
def flow (i : Instruction) : Flow :=
  match i.op with
  | .ret none | .reti | .jpHl | .halt | .stop | .undefined _ => .stop
  | .jr none => .jump i.relativeTarget
  | .jp none => .jump i.literal
  | .jr (some _) => .conditionalJump i.relativeTarget
  | .jp (some _) => .conditionalJump i.literal
  | .call none => .call i.literal
  | .call (some _) => .conditionalCall i.literal
  | .rst n => .restart (restartVector n).toUInt16
  | _ => .next

end Instruction

end Sm83
