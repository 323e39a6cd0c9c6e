/-
The two pages of opcodes and what each opcode means.

An opcode is a byte on the first page, or a byte on the second page, which the byte
0xCB announces.  Both pages are laid out by bit fields: two bits choose a block, and
the other six are split into operand numbers.
-/
import Sm83.Op
import Sm83.Fault

namespace Sm83

/-- One of the 512 opcodes. -/
inductive Opcode where
  | base (byte : Byte)
  | extended (byte : Byte)
  deriving DecidableEq, Repr

namespace Opcode

/-- The number of an opcode: that of its byte, and 256 more on the second page. -/
def key : Opcode → Word
  | base byte => byte.toUInt16
  | extended byte => 0x100 ||| byte.toUInt16

def ofKey (key : Word) : Except Fault Opcode :=
  if key < 0x100 then .ok (base key.toUInt8)
  else if key < 0x200 then .ok (extended key.toUInt8)
  else .error (.keyOutOfRange key)

/-- Every opcode, the first page before the second. -/
def all : List Opcode :=
  (List.range 256).map (fun n => base (UInt8.ofNat n)) ++
    (List.range 256).map (fun n => extended (UInt8.ofNat n))

/-! ### Bit fields -/

/-- The block an opcode belongs to: its top two bits. -/
def block (byte : Byte) : Fin 4 := Fin.ofNat 4 (byte.toNat / 64)

/-- The operand number in the middle three bits. -/
def middle (byte : Byte) : Fin 8 := Fin.ofNat 8 (byte.toNat / 8)

/-- The operand number in the last three bits. -/
def last (byte : Byte) : Fin 8 := Fin.ofNat 8 byte.toNat

/-- The pair number in the upper two of the middle bits. -/
def pairNumber (byte : Byte) : Fin 4 := Fin.ofNat 4 (byte.toNat / 16)

/-- The condition number in the lower two of the middle bits. -/
def condNumber (byte : Byte) : Fin 4 := Fin.ofNat 4 (byte.toNat / 8)

/-! ### Meaning -/

/-- The operations of the first block: loads, increments and odds and ends. -/
def firstBlock (byte : Byte) : Op :=
  let pair := Pair.ofIndex (pairNumber byte)
  let pointer := Pointer.ofIndex (pairNumber byte)
  let slot := Slot.ofIndex (middle byte)
  let odd := byte &&& 0x08 != 0
  match last byte with
  | 0 =>
    match middle byte with
    | 0 => .nop
    | 1 => .storeSp
    | 2 => .stop
    | 3 => .jr none
    | _ => .jr (some (.ofIndex (condNumber byte)))
  | 1 => if odd then .addHl pair else .loadPair pair
  | 2 => if odd then .loadA pointer else .storeA pointer
  | 3 => if odd then .decPair pair else .incPair pair
  | 4 => .inc slot
  | 5 => .dec slot
  | 6 => .loadImm slot
  | 7 =>
    match middle byte with
    | 0 => .rlca
    | 1 => .rrca
    | 2 => .rla
    | 3 => .rra
    | 4 => .daa
    | 5 => .cpl
    | 6 => .scf
    | 7 => .ccf

/-- The operations of the last block: branches, the stack and the undefined bytes. -/
def lastBlock (byte : Byte) : Op :=
  let pair := StackPair.ofIndex (pairNumber byte)
  let cond := some (Cond.ofIndex (condNumber byte))
  let odd := byte &&& 0x08 != 0
  match last byte with
  | 0 =>
    match middle byte with
    | 4 => .storeHigh
    | 5 => .addSp
    | 6 => .loadHigh
    | 7 => .loadHlSp
    | _ => .ret cond
  | 1 =>
    if odd then
      match pairNumber byte with
      | 0 => .ret none
      | 1 => .reti
      | 2 => .jpHl
      | 3 => .loadSpHl
    else .pop pair
  | 2 =>
    match middle byte with
    | 4 => .storeHighC
    | 5 => .storeAbs
    | 6 => .loadHighC
    | 7 => .loadAbs
    | _ => .jp cond
  | 3 =>
    match middle byte with
    | 0 => .jp none
    | 1 => .escape
    | 6 => .di
    | 7 => .ei
    | _ => .undefined byte
  | 4 => if byte &&& 0x20 == 0 then .call cond else .undefined byte
  | 5 =>
    if odd then (if pairNumber byte = 0 then .call none else .undefined byte)
    else .push pair
  | 6 => .aluImm (.ofIndex (middle byte))
  | 7 => .rst (middle byte)

/-- The operation of a byte of the first page. -/
def baseOp (byte : Byte) : Op :=
  match block byte with
  | 0 => firstBlock byte
  | 1 => if byte == 0x76 then .halt else .move (.ofIndex (middle byte)) (.ofIndex (last byte))
  | 2 => .alu (.ofIndex (middle byte)) (.ofIndex (last byte))
  | 3 => lastBlock byte

/-- The operation of a byte of the second page. -/
def extendedOp (byte : Byte) : Op :=
  let slot := Slot.ofIndex (last byte)
  match block byte with
  | 0 => .shift (.ofIndex (middle byte)) slot
  | 1 => .bit (middle byte) slot
  | 2 => .res (middle byte) slot
  | 3 => .set (middle byte) slot

def op : Opcode → Op
  | base byte => baseOp byte
  | extended byte => extendedOp byte

def length (code : Opcode) : Nat := code.op.length

def cost (code : Opcode) : Cost := code.op.cost

def category (code : Opcode) : Category := code.op.category

def isExtended : Opcode → Bool
  | base _ => false
  | extended _ => true

end Opcode

end Sm83
