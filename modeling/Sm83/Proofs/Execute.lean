/-
What one operation asks for.

The request that an operation makes of the processor depends on the operation alone, not
on registers or memory.  So whether the interrupt switch moves, or the processor halts,
can be read off the decoded instruction.

An operation never looks at PC either.  It is told where control goes, and hands PC back as
it came.
-/
import Sm83.Execute
import Sm83.Proofs.Bus

namespace Sm83

variable {M : Type} [Memory M]

namespace Registers

/-! ### The stack -/

@[simp] theorem trace_push (r : Registers) (w : Word) (m : M) :
    (r.push w).trace m = [.write (r.sp - 1) (Word.high w), .write (r.sp - 2) (Word.low w)] := rfl

@[simp] theorem eval_push (r : Registers) (w : Word) (m : M) :
    (r.push w).eval m = { r with sp := r.sp - 2 } := rfl

@[simp] theorem trace_pop (r : Registers) (m : M) :
    r.pop.trace m = [.read r.sp, .read (r.sp + 1)] := rfl

@[simp] theorem eval_pop (r : Registers) (m : M) :
    r.pop.eval m =
      (Word.ofBytes (Memory.read m (r.sp + 1)) (Memory.read m r.sp), { r with sp := r.sp + 2 }) :=
  rfl

@[simp] theorem exec_pop (r : Registers) (m : M) : r.pop.exec m = m := rfl

end Registers

namespace Op

/-! ### Requests -/

/-- What an operation asks of the processor. -/
def effect? : Op → Option Effect
  | stop => some .stop
  | halt => some .halt
  | di => some .disableInterrupts
  | ei => some .enableInterrupts
  | reti => some .returnFromInterrupt
  | _ => none

theorem execute_effect (op : Op) (literal : Word) (r : Registers) (next : Word) (m : M) :
    ((op.execute literal r next).eval m).effect = op.effect? := by
  cases op with
  | jr cond | jp cond =>
      simp only [execute]
      split <;> rfl
  | call cond | ret cond =>
      simp only [execute]
      split <;> simp [Outcome.branch, Outcome.goOn, effect?]
  | _ => simp [execute, Outcome.goOn, Outcome.ask, effect?]

theorem effect?_eq_halt_iff {op : Op} : op.effect? = some .halt ↔ op = .halt := by
  cases op <;> simp [effect?]

end Op

/-! ### The program counter -/

/-- The registers with another program counter. -/
def Registers.withPc (r : Registers) (pc : Word) : Registers := { r with pc }

/-- The outcome with another program counter in its registers. -/
def Outcome.withPc (o : Outcome) (pc : Word) : Outcome := { o with regs := o.regs.withPc pc }

namespace Registers

theorem readSlot_withPc (r : Registers) (pc : Word) (slot : Slot) :
    (r.withPc pc).readSlot slot = r.readSlot slot := by
  cases slot <;> rfl

theorem writeSlot_withPc (r : Registers) (pc : Word) (slot : Slot) (value : Byte) :
    (r.withPc pc).writeSlot slot value = (·.withPc pc) <$> r.writeSlot slot value := by
  cases slot <;> rfl

theorem modifySlot_withPc (r : Registers) (pc : Word) (slot : Slot)
    (f : Byte → Flags → AluResult) :
    (r.withPc pc).modifySlot slot f = (·.withPc pc) <$> r.modifySlot slot f := by
  cases slot <;> rfl

end Registers

/-- An operation does the same whatever PC is, as long as it is told the same way on. -/
theorem Op.execute_withPc (op : Op) (literal : Word) (r : Registers) (pc next : Word) :
    op.execute literal (r.withPc pc) next = (·.withPc pc) <$> op.execute literal r next := by
  cases op with
  | jr cond | jp cond | ret cond | call cond =>
      have htaken : taken cond (r.withPc pc) = taken cond r := rfl
      simp only [execute, htaken]
      split <;> rfl
  | loadImm slot =>
      simp only [execute, Registers.writeSlot_withPc, bind_map_left, map_bind]
      rfl
  | inc slot | dec slot | shift _ slot | res _ slot | set _ slot =>
      simp only [execute, Registers.modifySlot_withPc, bind_map_left, map_bind]
      rfl
  | move dst src =>
      simp only [execute, Registers.readSlot_withPc, Registers.writeSlot_withPc, bind_map_left,
        map_bind]
      rfl
  | alu _ slot | bit _ slot =>
      simp only [execute, Registers.readSlot_withPc, map_bind]
      rfl
  | loadPair pair | addHl pair | incPair pair | decPair pair | push pair | pop pair =>
      cases pair <;> rfl
  | storeA pointer | loadA pointer => cases pointer <;> rfl
  | _ => rfl

end Sm83
