/-
Which flags an instruction can change.

`Op.affects` is a table of the flags that each operation can change.  Most of its rows are empty:
loads, jumps and the stack leave the flags alone, and so do the operations on single bits that
store their result, although they run through the same read and write of an operand as those that
set flags.  What is shown is that the table is right, and in which way the few operations change a
flag that do not compute it from their result.

An interrupt that is let in at the end of a step stores registers away but not the flags.  So all
this holds of steps as well as of operations.
-/
import Sm83.Proofs.Dispatch
import Sm83.Proofs.Registers

namespace Sm83

variable {M : Type} [Memory M]

/-- The four flags. -/
def Flag.all : List Flag := [.zero, .subtract, .halfCarry, .carry]

theorem Flag.mem_all (flag : Flag) : flag ∈ all := by cases flag <;> decide

namespace Op

/-! ### The table -/

/-- The flags that an operation can change. -/
def affects : Op → List Flag
  | alu _ _ | aluImm _ | shift _ _ | rlca | rrca | rla | rra => Flag.all
  | addSp | loadHlSp | pop .af => Flag.all
  | inc _ | dec _ | bit _ _ => [.zero, .subtract, .halfCarry]
  | addHl _ | scf | ccf => [.subtract, .halfCarry, .carry]
  | cpl => [.subtract, .halfCarry]
  | daa => [.zero, .halfCarry, .carry]
  | _ => []

/-- The operations after which zero is clear whatever they have computed. -/
def clearing : List Op := [.rlca, .rrca, .rla, .rra, .addSp, .loadHlSp]

/--
What an operation may have made of the flags.

`top` is the byte at the top of the stack before the operation.
-/
structure FlagRules (op : Op) (top : Byte) (before after : Flags) : Prop where
  /-- Most operations keep all flags. -/
  kept : op.affects = [] → after = before
  /-- The others keep those that are not in their row. -/
  frame : ∀ flag, flag ∉ op.affects → after.get flag = before.get flag
  cleared : op ∈ clearing → after.z = false
  /-- Decimal adjustment sets carry but does not clear it. -/
  adjusted : op = .daa → before.c = true → after.c = true
  /-- What is popped into F loses its low nibble. -/
  popped : op = .pop .af → after.toByte = top &&& 0xF0

/-- An operation with an empty row obeys the rules if it keeps the flags. -/
theorem FlagRules.of_kept {op : Op} {top : Byte} {before : Flags} (h : op.affects = []) :
    op.FlagRules top before before where
  kept _ := rfl
  frame _ _ := rfl
  cleared hop := by
    have hrows : ∀ op ∈ clearing, op.affects ≠ [] := by decide
    exact absurd h (hrows op hop)
  adjusted hop := by
    rw [hop] at h
    exact absurd h (List.cons_ne_nil _ _)
  popped hop := by
    rw [hop] at h
    exact absurd h (List.cons_ne_nil _ _)

end Op

/-! ### What the pieces of an operation do to the flags -/

namespace Registers

variable (r : Registers) (m : M)

@[simp] theorem flags_writeSlot (slot : Slot) (value : Byte) :
    ((r.writeSlot slot value).eval m).flags = r.flags := by
  cases slot <;> rfl

@[simp] theorem flags_modifySlot (slot : Slot) (f : Byte → Flags → AluResult) :
    ((r.modifySlot slot f).eval m).flags = (f ((r.readSlot slot).eval m) r.flags).flags := by
  cases slot <;> rfl

@[simp] theorem flags_setPair (pair : Pair) (w : Word) : (r.setPair pair w).flags = r.flags := by
  cases pair <;> rfl

@[simp] theorem flags_advance (pointer : Pointer) : (r.advance pointer).flags = r.flags := by
  cases pointer <;> rfl

end Registers

namespace Op

/-! ### The table is right -/

/-- An operation with an empty row keeps the flags. -/
theorem flags_of_affects_nil {op : Op} (h : op.affects = []) (literal : Word) (r : Registers)
    (next : Word) (m : M) : ((op.execute literal r next).eval m).regs.flags = r.flags := by
  cases op with
  | jr cond | jp cond | call cond | ret cond =>
      simp only [execute]
      split <;> simp [Outcome.branch, Outcome.goOn]
  | pop pair =>
      cases pair with
      | af => exact absurd h (List.cons_ne_nil _ _)
      | _ => rfl
  | alu _ _ | aluImm _ | shift _ _ | rlca | rrca | rla | rra | addSp | loadHlSp | inc _ | dec _
  | bit _ _ | addHl _ | scf | ccf | cpl | daa =>
      exact absurd h (List.cons_ne_nil _ _)
  | _ => simp [execute, Outcome.goOn, Outcome.ask, Alu.res, Alu.set]

/-- An operation keeps the flags that are not in its row. -/
theorem flag_of_notMem_affects {op : Op} {flag : Flag} (hrow : op.affects ≠ [])
    (h : flag ∉ op.affects) (literal : Word) (r : Registers) (next : Word) (m : M) :
    ((op.execute literal r next).eval m).regs.flags.get flag = r.flags.get flag := by
  cases op with
  | alu _ _ | aluImm _ | shift _ _ | rlca | rrca | rla | rra | addSp | loadHlSp =>
      exact absurd flag.mem_all h
  | pop pair =>
      cases pair with
      | af => exact absurd flag.mem_all h
      | _ => exact absurd rfl hrow
  | inc slot | dec slot | bit n slot =>
      obtain rfl : flag = .carry := by cases flag <;> simp [affects] at h ⊢
      simp [execute, Outcome.goOn, Alu.inc, Alu.dec, Alu.bit, Flags.get]
  | addHl pair | scf | ccf =>
      obtain rfl : flag = .zero := by cases flag <;> simp [affects] at h ⊢
      rfl
  | daa =>
      obtain rfl : flag = .subtract := by cases flag <;> simp [affects] at h ⊢
      rfl
  | cpl =>
      obtain rfl | rfl : flag = .zero ∨ flag = .carry := by cases flag <;> simp [affects] at h ⊢
      · rfl
      · rfl
  | _ => exact absurd rfl hrow

/-- The table is right, and where a flag is not computed from the result the rules say how. -/
theorem flagRules_execute (op : Op) (literal : Word) (r : Registers) (next : Word) (m : M) :
    op.FlagRules (Memory.read m r.sp) r.flags ((op.execute literal r next).eval m).regs.flags := by
  by_cases hrow : op.affects = []
  · rw [flags_of_affects_nil hrow]
    exact .of_kept hrow
  · refine ⟨fun h => absurd h hrow, fun flag h => flag_of_notMem_affects hrow h _ _ _ _,
      fun hop => ?_, ?_, ?_⟩
    · simp only [clearing, List.mem_cons, List.not_mem_nil, or_false] at hop
      rcases hop with rfl | rfl | rfl | rfl | rfl | rfl <;> rfl
    · rintro rfl hcarry
      simp [execute, Alu.daa, Registers.setAccumulator, Outcome.goOn, hcarry]
    · rintro rfl
      show (Flags.ofByte (Word.low (Word.ofBytes _ (Memory.read m r.sp)))).toByte = _
      rw [Word.low_ofBytes, Flags.toByte_ofByte]

end Op

namespace Cpu

variable {cpu q : Cpu} {m : M} {i : Instruction}

/-! ### Steps -/

/-- Letting an interrupt in changes no flag. -/
theorem flags_poll (q : Cpu) (m : M) : (q.poll.eval m).regs.flags = q.regs.flags := by
  by_cases hpass : q.halted = true ∨ q.master.on = false ∨ Interrupt.pending.eval m = 0
  · rw [(poll_passes hpass).1]
  · obtain ⟨hrun, hon, hp⟩ : q.halted = false ∧ q.master.on = true ∧
        Interrupt.pending.eval m ≠ 0 := by simpa using hpass
    obtain ⟨irq, henters⟩ := poll_enters hrun hon hp
    rw [henters.cpu]

/--
**A step changes no flag but those of its instruction.**  A running processor whose instruction
decodes takes a step, and then the flags obey the rules for that instruction, also if the step
has let an interrupt in.
-/
theorem flags_of_step (hh : cpu.halted = false) (hs : cpu.stopped = false)
    (hi : cpu.current.eval m = .ok i) : ∃ after, cpu.step.eval m = .ok after ∧
      i.op.FlagRules (Memory.read m cpu.regs.sp) cpu.regs.flags after.regs.flags := by
  refine ⟨_, eval_step hs (eval_advance hh hi), ?_⟩
  rw [flags_poll, perform_regs]
  exact Op.flagRules_execute i.op i.literal cpu.regs _ m

/-- A byte with all its bits set is on the stack, and the program takes it into F. -/
def popping : FlatMemory := (FlatMemory.programmed [0xF1]).put 0xC000 0xFF

/-- The low nibble of the byte is lost. -/
theorem flags_of_step_popping :
    ∃ after, atEntry.step.eval popping = .ok after ∧ after.regs.f = 0xF0 := by
  have hi : atEntry.current.eval popping = .ok ⟨0x100, .base 0xF1, 0⟩ := by
    simp only [eval_current, window, FlatMemory.memory_read, popping, FlatMemory.get_put]
    rw [FlatMemory.get_programmed (by decide), FlatMemory.get_programmed (by decide),
      FlatMemory.get_programmed (by decide)]
    rfl
  obtain ⟨after, hstep, hrules⟩ := flags_of_step rfl rfl hi
  have htop : Memory.read popping atEntry.regs.sp = 0xFF :=
    (FlatMemory.get_put _ _ _ _).trans (if_pos rfl)
  rw [htop] at hrules
  exact ⟨after, hstep, hrules.popped rfl⟩

end Cpu

end Sm83
