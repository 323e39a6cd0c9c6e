/-
A prediction comes true.

`Foretells` says what a prediction is about: the bytes that the operation reads and writes,
in order, and where control goes.  That the two case analyses, the one that predicts and
the one that executes, agree is shown operation by operation, for every address to which
control goes by default.  Only a relative jump counts from that address, where the
prediction counts from the end of the instruction; the two are the same unless the
processor does not move past the opcode.
-/
import Sm83.Breakpoint
import Sm83.Proofs.Execute
import Sm83.Proofs.Decode

namespace Sm83

variable {M : Type} [Memory M]

/-! ### Slots -/

namespace Registers

@[simp] theorem readsOf_readSlot (r : Registers) (slot : Slot) (m : M) :
    readsOf ((r.readSlot slot).trace m) = Accesses.slotAddress r slot := by
  cases slot <;> rfl

@[simp] theorem writesOf_readSlot (r : Registers) (slot : Slot) (m : M) :
    writesOf ((r.readSlot slot).trace m) = [] := by
  cases slot <;> rfl

@[simp] theorem readsOf_writeSlot (r : Registers) (slot : Slot) (value : Byte) (m : M) :
    readsOf ((r.writeSlot slot value).trace m) = [] := by
  cases slot <;> rfl

@[simp] theorem writesOf_writeSlot (r : Registers) (slot : Slot) (value : Byte) (m : M) :
    (writesOf ((r.writeSlot slot value).trace m)).map Prod.fst = Accesses.slotAddress r slot := by
  cases slot <;> rfl

@[simp] theorem readsOf_modifySlot (r : Registers) (slot : Slot)
    (f : Byte → Flags → AluResult) (m : M) :
    readsOf ((r.modifySlot slot f).trace m) = Accesses.slotAddress r slot := by
  cases slot <;> rfl

@[simp] theorem writesOf_modifySlot (r : Registers) (slot : Slot)
    (f : Byte → Flags → AluResult) (m : M) :
    (writesOf ((r.modifySlot slot f).trace m)).map Prod.fst = Accesses.slotAddress r slot := by
  cases slot <;> rfl

end Registers

/-! ### Predictions -/

namespace Op

/-- Whether control goes elsewhere than to the next instruction. -/
def transfers (op : Op) (flags : Flags) : Bool :=
  match op with
  | jr cond | jp cond | call cond | ret cond => cond.all (·.holds flags)
  | reti | jpHl | rst _ => true
  | _ => false

/-- Whether the operation is a jump relative to the next instruction. -/
def isRelative : Op → Bool
  | jr _ => true
  | _ => false

end Op

/-- What `acc` says of an instruction comes true when the instruction is executed. -/
structure Accesses.Foretells (acc : Accesses) (i : Instruction) (r : Registers) (next : Word)
    (m : M) : Prop where
  reads : readsOf ((i.op.execute i.literal r next).trace m) = acc.reads
  writes : (writesOf ((i.op.execute i.literal r next).trace m)).map Prod.fst = acc.writes
  transfers : acc.jump.isSome = i.op.transfers r.flags
  /-- Control goes on if no jump is predicted. -/
  stays : acc.jump = .none → ((i.op.execute i.literal r next).eval m).next = next
  /-- Control goes to the predicted address, less what `next` is short of the next instruction. -/
  jumps : ∀ target, acc.jump = some target → ((i.op.execute i.literal r next).eval m).next =
    if i.op.isRelative then target - (i.next - next) else target

namespace Instruction

variable {i : Instruction} {r : Registers} {next : Word} {m : M}

/-- A branch that is not taken is foretold by nothing. -/
theorem untaken_foretells {cond : Option Cond}
    (hop : i.op = .jr cond ∨ i.op = .jp cond ∨ i.op = .call cond ∨ i.op = .ret cond)
    (h : cond.all (·.holds r.flags) = false) :
    (i.accesses r 0).eval m = .ok .none ∧ Accesses.none.Foretells i r next m := by
  have hexec : i.op.execute i.literal r next = pure (.goOn next r) := by
    rcases hop with hop | hop | hop | hop <;> simp [hop, Op.execute, Op.taken, h]
  have hstay : i.op.transfers r.flags = false := by
    rcases hop with hop | hop | hop | hop <;> exact hop ▸ h
  constructor
  · rcases hop with hop | hop | hop | hop <;> simp [accesses, hop, Op.branches, Op.cond?, h]
  · constructor <;> simp [hexec, hstay, Accesses.none, Outcome.goOn]

/--
**The prediction of an instruction that can be executed is no fault and comes true.**

The operations on slots differ by whether the slot is in memory, and the branches by whether
they are taken; for every other operation there is one prediction.
-/
theorem accesses_foretells (hi : i.op.Executable) : ∃ acc,
    (i.accesses r 0).eval m = .ok acc ∧ acc.Foretells i r next m := by
  cases hop : i.op with
  | escape => exact absurd hop hi.ne_escape
  | undefined byte => exact absurd hop (hi.ne_undefined byte)
  | inc slot | dec slot | shift _ slot | res _ slot | set _ slot =>
      cases slot
      all_goals
        refine ⟨_, by simp only [accesses, hop]; rfl, ?_⟩
        constructor <;> simp [hop, Op.execute, Op.transfers, Outcome.goOn, Accesses.none,
          Accesses.modifying, Accesses.slotAddress]
  | jr cond =>
      by_cases h : cond.all (·.holds r.flags) = true
      · refine ⟨.jumping i.relativeTarget, by simp [accesses, hop, Op.branches, Op.cond?, h], ?_⟩
        -- the executed jump counts from `next`, the predicted one from the next instruction
        have hcount : next + Word.signExtend (Word.low i.literal) =
            i.relativeTarget - (i.next - next) := by
          rw [relativeTarget, literalByte]
          grind
        constructor <;> simp [hop, Op.execute, Op.taken, Op.transfers, Outcome.branch,
          Accesses.none, Accesses.jumping, Op.isRelative, h, hcount]
      · exact ⟨.none, untaken_foretells (by simp [hop]) (Bool.eq_false_iff.mpr h)⟩
  | jp cond =>
      by_cases h : cond.all (·.holds r.flags) = true
      · refine ⟨.jumping i.literal, by simp [accesses, hop, Op.branches, Op.cond?, h], ?_⟩
        constructor <;> simp [hop, Op.execute, Op.taken, Op.transfers, Outcome.branch,
          Accesses.none, Accesses.jumping, Op.isRelative, h]
      · exact ⟨.none, untaken_foretells (by simp [hop]) (Bool.eq_false_iff.mpr h)⟩
  | call cond =>
      by_cases h : cond.all (·.holds r.flags) = true
      · refine ⟨.calling r.sp i.literal, by simp [accesses, hop, Op.branches, Op.cond?, h], ?_⟩
        constructor <;> simp [hop, Op.execute, Op.taken, Op.transfers, Outcome.branch,
          Accesses.calling, Op.isRelative, h]
      · exact ⟨.none, untaken_foretells (by simp [hop]) (Bool.eq_false_iff.mpr h)⟩
  | ret cond =>
      by_cases h : cond.all (·.holds r.flags) = true
      · refine ⟨(returnAccesses r).eval m, by simp [accesses, hop, Op.branches, Op.cond?, h], ?_⟩
        constructor <;> simp [hop, Op.execute, Op.taken, Op.transfers, Outcome.branch,
          returnAccesses, Op.isRelative, h]
      · exact ⟨.none, untaken_foretells (by simp [hop]) (Bool.eq_false_iff.mpr h)⟩
  | reti =>
      refine ⟨(returnAccesses r).eval m, by simp [accesses, hop, Op.branches, Op.cond?], ?_⟩
      constructor <;> simp [hop, Op.execute, Op.transfers, Outcome.ask, returnAccesses,
        Op.isRelative]
  | _ =>
      refine ⟨_, by simp only [accesses, hop]; rfl, ?_⟩
      constructor <;> simp [hop, Op.execute, Op.transfers, Op.isRelative, Outcome.goOn,
        Outcome.ask, Accesses.none, Accesses.reading, Accesses.writing, Accesses.jumping,
        Accesses.calling, literalByte]

end Instruction

end Sm83
