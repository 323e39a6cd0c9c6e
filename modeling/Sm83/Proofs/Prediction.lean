/-
A step does what was predicted of it.

The prediction looks at the instruction at PC, the registers and the stack.  The step then
reads three bytes to fetch that instruction, reads and writes the predicted addresses in
the predicted order, and goes where the prediction says.  All other reads of the step are
of the two interrupt registers, and all other writes are those of an interrupt that is let
in at the end.
-/
import Sm83.Proofs.Accesses
import Sm83.Proofs.Dispatch
import Sm83.Proofs.FlatMemory

namespace Sm83

namespace Cpu

variable {cpu : Cpu} {i : Instruction}

section Advance

variable {M : Type} [Memory M] {m : M} {acc : Accesses}

/-- Of the instruction that is executed next, the prediction is no fault and comes true. -/
theorem current_foretold (hi : cpu.current.eval m = .ok i) :
    ∃ acc, (i.accesses cpu.regs 0).eval m = .ok acc ∧
      acc.Foretells i cpu.regs (cpu.fallThrough i.op) m :=
  Instruction.accesses_foretells (executable_of_current hi)

/-- A predicted jump is where the instruction leaves PC, less what a relative one falls short. -/
theorem pc_of_jump (hacc : acc.Foretells i cpu.regs (cpu.fallThrough i.op) m) {target : Word}
    (hjump : acc.jump = some target) : ((cpu.perform i.op i.literal).eval m).regs.pc =
      if i.op.isRelative then target - (i.next - cpu.fallThrough i.op) else target := by
  have hop : i.op ≠ .halt := by
    intro hop
    have htransfers := hacc.transfers
    rw [hjump, hop] at htransfers
    exact absurd htransfers (by simp [Op.transfers])
  rw [perform_regs, ← hacc.jumps target hjump]
  simp only [hop, false_and, if_false]
  rfl

/-- Without a predicted jump PC moves on, unless a HALT is left for an interrupt. -/
theorem pc_of_stay (hacc : acc.Foretells i cpu.regs (cpu.fallThrough i.op) m)
    (hjump : acc.jump = none) : ((cpu.perform i.op i.literal).eval m).regs.pc =
      if i.op = .halt ∧ cpu.master.on = false ∧ cpu.master.isPending = true ∧
          Interrupt.pending.eval m ≠ 0 then
        cpu.fallThrough i.op - 1
      else cpu.fallThrough i.op := by
  have hnext : (cpu.outcome i.op i.literal m).next = cpu.fallThrough i.op := hacc.stays hjump
  rw [perform_regs, hnext]

end Advance

/--
**A step moves the predicted bytes and goes where it was predicted to go.**

Its log is the fetch, the data of the instruction, the two interrupt registers if it is a
HALT, and what follows when the processor has advanced.  The data are the predicted reads
and writes, in order; no other byte of memory has changed when the processor has advanced;
and PC is then at the predicted jump or, without one, after the instruction.  Only a HALT
after EI that finds an interrupt pending stays at its own address.
-/
theorem step_as_predicted {m : FlatMemory} (hh : cpu.halted = false) (hs : cpu.stopped = false)
    (hbug : cpu.haltBug = false) (hi : cpu.current.eval m = .ok i) :
    ∃ acc q data, (i.accesses cpu.regs 0).eval m = .ok acc ∧
      cpu.advance.eval m = .ok q ∧
      cpu.step.eval m = .ok (q.poll.eval (cpu.advance.exec m)) ∧
      cpu.step.trace m =
        [.read cpu.regs.pc, .read (cpu.regs.pc + 1), .read (cpu.regs.pc + 2)] ++ data ++
          (if i.op = .halt then [.read Interrupt.enableAddr, .read Interrupt.requestAddr]
            else []) ++
          q.poll.trace (cpu.advance.exec m) ∧
      (∀ addr ∈ readsOf (q.poll.trace (cpu.advance.exec m)),
        addr = Interrupt.enableAddr ∨ addr = Interrupt.requestAddr) ∧
      readsOf data = acc.reads ∧
      (writesOf data).map Prod.fst = acc.writes ∧
      cpu.advance.exec m = (writesOf data).foldl (fun m w => m.write w.1 w.2) m ∧
      (∀ addr, addr ∉ acc.writes → (cpu.advance.exec m).get addr = m.get addr) ∧
      q.regs.pc = acc.jump.getD
        (if i.op = .halt ∧ cpu.master.on = false ∧ cpu.master.isPending = true ∧
            Interrupt.pending.eval m ≠ 0 then
          i.addr
        else i.next) := by
  obtain ⟨acc, hacc, hforetells⟩ := current_foretold hi
  have hq := eval_advance hh hi
  have hnext : cpu.fallThrough i.op = i.next := by simp [fallThrough_eq hi, hbug]
  -- of the log of the advance, only the data are writes
  have hwrites : writesOf (cpu.advance.trace m) =
      writesOf ((i.op.execute i.literal cpu.regs (cpu.fallThrough i.op)).trace m) := by
    rw [trace_advance hh hi, trace_perform]
    split <;> simp
  refine ⟨acc, _, (i.op.execute i.literal cpu.regs (cpu.fallThrough i.op)).trace m, hacc, hq,
    eval_step hs hq, ?_, readsOf_poll _ _, hforetells.reads, hforetells.writes, ?_, ?_, ?_⟩
  · rw [trace_step hs hq, trace_advance hh hi, trace_perform]
    simp [secondAddr, hbug, UInt16.add_assoc]
  · rw [Bus.exec_eq_foldl, hwrites]
    rfl
  · intro addr haddr
    rw [← hforetells.writes, ← hwrites] at haddr
    exact FlatMemory.get_exec _ m haddr
  · cases hjump : acc.jump with
    | some target =>
        rw [pc_of_jump hforetells hjump, hnext]
        simp
    | none =>
        have hback : i.op = .halt → i.next - 1 = i.addr := by
          intro hop
          have hlength : i.length = 1 := congrArg Op.length hop
          rw [Instruction.next, hlength]
          exact UInt16.add_sub_cancel i.addr 1
        rw [pc_of_stay hforetells hjump, hnext, Option.getD_none]
        split
        · rename_i hleft
          exact hback hleft.1
        · rfl

/-- A return whose address lies across the end of memory reads IE, and then the first byte. -/
theorem ret_as_predicted : ∃ q data,
    (ofRegisters { Registers.zeroed with pc := 0x100, sp := 0xFFFF }).advance.eval
        ((FlatMemory.programmed [0xC9]).put 0xFFFF 0x34) = .ok q ∧
      readsOf data = [0xFFFF, 0x0000] ∧ writesOf data = [] ∧ q.regs.pc = 0x0034 := by
  have hi : (ofRegisters { Registers.zeroed with pc := 0x100, sp := 0xFFFF }).current.eval
      ((FlatMemory.programmed [0xC9]).put 0xFFFF 0x34) = .ok ⟨0x100, .base 0xC9, 0⟩ := by
    simp only [eval_current, window, FlatMemory.memory_read, FlatMemory.get_put]
    rw [FlatMemory.get_programmed (by decide), FlatMemory.get_programmed (by decide),
      FlatMemory.get_programmed (by decide)]
    rfl
  obtain ⟨acc, q, data, hacc, hq, -, -, -, hreads, hwrites, -, -, hpc⟩ :=
    step_as_predicted rfl rfl rfl hi
  have hfound : acc = ⟨[0xFFFF, 0x0000], [], some 0x0034⟩ := by
    refine Except.ok.inj (hacc.symm.trans ?_)
    show Except.ok (Accesses.mk _ _ (some (.ofBytes (FlatMemory.get _ _) (FlatMemory.get _ _)))) = _
    rw [FlatMemory.get_put, FlatMemory.get_put, FlatMemory.get_programmed (by decide)]
    rfl
  rw [hfound] at hreads hwrites hpc
  exact ⟨q, data, hq, hreads, List.map_eq_nil_iff.mp hwrites, hpc⟩

end Cpu

end Sm83
