/-
An operand is treated alike in every place that can hold it.

There are eight places: seven registers and the byte that HL points to.  An operation gets its
operand from one of them, computes, and stores what it has computed where the operand came from,
in the accumulator, or nowhere.  What it computes depends on the operand, the accumulator and the
flags, and on nothing else.

`execute_on` says this of every operation at once: whatever the operation, it is one and the same
program, in which only the function that computes and the place that is stored to are left open.
What that program keeps is then a matter of the eight places alone.
-/
import Sm83.Proofs.Accesses
import Sm83.Proofs.FlatMemory

namespace Sm83

/-- The byte in a slot. -/
def Slot.byte (r : Registers) (m : FlatMemory) : Slot → Byte
  | b => r.b
  | c => r.c
  | d => r.d
  | e => r.e
  | h => r.h
  | l => r.l
  | atHl => m.get r.hl
  | a => r.a

/-- An operation on an eight-bit operand, wherever the operand is. -/
inductive SlotOp where
  | inc
  | dec
  | shift (op : ShiftOp)
  | bit (n : Fin 8)
  | res (n : Fin 8)
  | set (n : Fin 8)
  | alu (op : AluOp)
  deriving DecidableEq, Repr

namespace SlotOp

/-- The operation with its operand in a slot. -/
def on : SlotOp → Slot → Op
  | inc => .inc
  | dec => .dec
  | shift op => .shift op
  | bit n => .bit n
  | res n => .res n
  | set n => .set n
  | alu op => .alu op

/-- What is computed from the accumulator, the operand and the flags. -/
def result (op : SlotOp) (a operand : Byte) (flags : Flags) : AluResult :=
  match op with
  | inc => Alu.inc operand flags
  | dec => Alu.dec operand flags
  | shift op => op.apply operand flags
  | bit n => ⟨operand, Alu.bit n operand flags⟩
  | res n => Alu.res n operand flags
  | set n => Alu.set n operand flags
  | alu op => op.apply a operand flags

/-- Where the result is stored if the operand is in `slot`.  A bit test only sets flags. -/
def destination (op : SlotOp) (slot : Slot) : Option Slot :=
  match op with
  | inc | dec | shift _ | res _ | set _ => some slot
  | bit _ => none
  | alu _ => some .a

end SlotOp

namespace Registers

/-! ### Reading and storing -/

@[simp] theorem eval_readSlot (r : Registers) (slot : Slot) (m : FlatMemory) :
    (r.readSlot slot).eval m = slot.byte r m := by
  cases slot <;> rfl

@[simp] theorem exec_readSlot (r : Registers) (slot : Slot) (m : FlatMemory) :
    (r.readSlot slot).exec m = m := by
  cases slot <;> rfl

/-- Stores a byte in a slot, if there is one to store it in. -/
def storeIn (r : Registers) (destination : Option Slot) (value : Byte) : Bus Registers :=
  match destination with
  | none => return r
  | some slot => r.writeSlot slot value

/--
What is left when a byte has been stored in a slot, or nowhere: every other register and every
other byte of memory is as it was.
-/
structure Stored (r : Registers) (m : FlatMemory) (destination : Option Slot) (value : Byte)
    (after : Registers) (m' : FlatMemory) : Prop where
  registers : ∀ slot, slot ≠ .atHl →
    slot.byte after m' = if destination = some slot then value else slot.byte r m
  /-- In memory, the slot is the byte that HL pointed to. -/
  memory : ∀ addr,
    m'.get addr = if destination = some .atHl ∧ addr = r.hl then value else m.get addr
  sp : after.sp = r.sp
  pc : after.pc = r.pc

section Store

variable (r : Registers) (m : FlatMemory) (destination : Option Slot) (value : Byte)

theorem byte_storeIn {slot : Slot} (hslot : slot ≠ .atHl) :
    slot.byte ((r.storeIn destination value).eval m) ((r.storeIn destination value).exec m) =
      if destination = some slot then value else slot.byte r m := by
  cases destination with
  | none => rfl
  | some place =>
      cases slot with
      | atHl => exact absurd rfl hslot
      | _ => cases place <;> rfl

/-- The memory after storing: one write if the slot is in memory, and none else. -/
theorem exec_storeIn : (r.storeIn destination value).exec m =
    if destination = some .atHl then m.write r.hl value else m := by
  cases destination with
  | none => rfl
  | some place => cases place <;> rfl

theorem writesOf_storeIn : writesOf ((r.storeIn destination value).trace m) =
    if destination = some .atHl then [(r.hl, value)] else [] := by
  cases destination with
  | none => rfl
  | some place => cases place <;> rfl

theorem readsOf_storeIn : readsOf ((r.storeIn destination value).trace m) = [] := by
  cases destination with
  | none => rfl
  | some place => cases place <;> rfl

variable {r m destination}

theorem storeIn_stored (hwritable : destination = some .atHl → ¬ r.hl < m.romEnd) :
    r.Stored m destination value ((r.storeIn destination value).eval m)
      ((r.storeIn destination value).exec m) where
  registers _ hslot := byte_storeIn r m destination value hslot
  memory addr := by
    rw [exec_storeIn]
    by_cases hplace : destination = some .atHl
    · rw [if_pos hplace, FlatMemory.get_write]
      simp only [hplace, true_and]
      by_cases haddr : addr = r.hl
      · rw [if_pos ⟨haddr, haddr ▸ hwritable hplace⟩, if_pos haddr]
      · rw [if_neg (fun hc => haddr hc.1), if_neg haddr]
    · rw [if_neg hplace, if_neg (fun hc => hplace hc.1)]
  sp := by
    cases destination with
    | none => rfl
    | some place => cases place <;> rfl
  pc := by
    cases destination with
    | none => rfl
    | some place => cases place <;> rfl

/-- What is stored has nothing to do with the flags. -/
theorem Stored.withFlags {after : Registers} {m' : FlatMemory}
    (h : r.Stored m destination value after m') (flags : Flags) :
    r.Stored m destination value { after with flags } m' where
  registers slot hslot := by
    rw [← h.registers slot hslot]
    cases slot <;> rfl
  memory := h.memory
  sp := h.sp
  pc := h.pc

end Store

end Registers

namespace SlotOp

/-! ### One program for all operations -/

/--
Every operation gets its operand, computes, stores the result at its destination, and keeps the
flags of it.
-/
theorem execute_on (op : SlotOp) (slot : Slot) (literal : Word) (r : Registers) (next : Word) :
    (op.on slot).execute literal r next = (do
      let operand ← r.readSlot slot
      let result := op.result r.a operand r.flags
      let r ← r.storeIn (op.destination slot) result.value
      return .goOn next { r with flags := result.flags }) := by
  cases op with
  | bit n | alu op => rfl
  | _ => cases slot <;> rfl

/-- What an operation leaves that goes on to `next` with its operand in a slot. -/
structure Applied (op : SlotOp) (slot : Slot) (r : Registers) (m : FlatMemory) (next : Word)
    (result : AluResult) (p : Bus Outcome) : Prop where
  stored : r.Stored m (op.destination slot) result.value (p.eval m).regs (p.exec m)
  flags : (p.eval m).regs.flags = result.flags
  next : (p.eval m).next = next
  quiet : (p.eval m).taken = false ∧ (p.eval m).effect = none
  /-- Only an operand in memory is read, and it is read once, where HL pointed before. -/
  reads : readsOf (p.trace m) = if slot = .atHl then [r.hl] else []
  /-- Only a result that belongs there is written, to the same address. -/
  writes : writesOf (p.trace m) =
    if op.destination slot = some .atHl then [(r.hl, result.value)] else []

/--
**All eight slots behave alike.**  What an operation computes depends on the byte in the slot, on
the accumulator and on the flags, but not on the slot.  It is stored in the slot or, by the
operations on the accumulator, in that; a bit test stores nothing.  The flags are those of the
result, and nothing else has changed: no other register, not SP, no other byte of memory.
-/
theorem slots_alike (op : SlotOp) (slot : Slot) (literal : Word) {r : Registers} {m : FlatMemory}
    (next : Word) (hwritable : op.destination slot = some .atHl → ¬ r.hl < m.romEnd) :
    op.Applied slot r m next (op.result r.a (slot.byte r m) r.flags)
      ((op.on slot).execute literal r next) := by
  have hstored := Registers.storeIn_stored (op.result r.a (slot.byte r m) r.flags).value hwritable
  rw [execute_on]
  constructor
  case stored =>
    simp only [Bus.eval_bind, Bus.exec_bind, Bus.eval_pure, Bus.exec_pure, Registers.eval_readSlot,
      Registers.exec_readSlot, Outcome.goOn]
    exact hstored.withFlags _ _
  case reads =>
    simp only [Bus.trace_bind, Bus.trace_pure, readsOf_append, Registers.readsOf_readSlot,
      Registers.readsOf_storeIn, List.append_nil]
    cases slot <;> rfl
  case writes =>
    simp only [Bus.trace_bind, Bus.trace_pure, writesOf_append,
      Registers.writesOf_readSlot, Registers.writesOf_storeIn, Registers.eval_readSlot,
      Registers.exec_readSlot, List.append_nil, List.nil_append]
  all_goals
    simp only [Bus.eval_bind, Bus.eval_pure, Registers.eval_readSlot, Outcome.goOn, and_self]

/-- Registers that point to 0xC000, with carry set. -/
def pointing : Registers :=
  { Registers.zeroed with h := 0xC0, flags := { Flags.none with c := true } }

/-- A rotation moves the carry into the byte that HL points to, and leaves HL where it was. -/
theorem slots_alike_atHl :
    let p := ((shift .rl).on .atHl).execute 0 pointing 0x102
    let m := FlatMemory.zeroed.put 0xC000 0x80
    (p.exec m).get 0xC000 = 0x01 ∧ (p.eval m).regs.flags = { Flags.none with c := true } ∧
      (p.eval m).regs.h = 0xC0 := by
  have hwritable : ¬ pointing.hl < (FlatMemory.zeroed.put 0xC000 0x80).romEnd := by
    rw [FlatMemory.romEnd_put]
    decide
  have happlied := slots_alike (shift .rl) .atHl 0 (r := pointing) 0x102 fun _ => hwritable
  have hbyte : Slot.atHl.byte pointing (FlatMemory.zeroed.put 0xC000 0x80) = 0x80 :=
    (FlatMemory.get_put _ _ _ _).trans (if_pos rfl)
  rw [hbyte] at happlied
  exact ⟨(happlied.stored.memory 0xC000).trans (if_pos ⟨rfl, rfl⟩), happlied.flags,
    (happlied.stored.registers .h nofun).trans (if_neg nofun)⟩

end SlotOp

end Sm83
