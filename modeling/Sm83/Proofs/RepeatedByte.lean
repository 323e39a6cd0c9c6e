/-
A halt bug reads one byte twice.

What that comes to can be said without any halt bug.  Put a copy of the byte at PC one
address before it and let PC start there: a processor that moves past its opcodes as usual
then does just what the processor in the halt bug does.  It fetches the same three bytes, and
the next instruction begins at the same address, so that all that depends on where control
goes on, the offset of a relative jump and the return address of a call, comes out the same.

What is left to see is that no operation looks at PC, and that nothing looks at the copy.  The
latter has to be assumed: the instruction does not read the copy as its data, and the copy is
not in one of the two interrupt registers.
-/
import Sm83.Proofs.Dependence
import Sm83.Proofs.HaltBug

namespace Sm83

namespace Cpu

variable {cpu : Cpu}

/-- The processor without its halt bug, one byte back. -/
def oneBack (cpu : Cpu) : Cpu :=
  { cpu with regs := { cpu.regs with pc := cpu.regs.pc - 1 }, haltBug := false }

/-- The memory with the byte at PC copied to the address before it. -/
def copied (cpu : Cpu) (m : FlatMemory) : FlatMemory :=
  m.put (cpu.regs.pc - 1) (m.get cpu.regs.pc)

/-- Away from the copy nothing has changed. -/
theorem agreeOn_copied (cpu : Cpu) (m : FlatMemory) :
    FlatMemory.AgreeOn (· ≠ cpu.regs.pc - 1) m (cpu.copied m) where
  get addr haddr := by rw [copied, FlatMemory.get_put, if_neg haddr]
  writable addr _ := Iff.rfl

/-- The two processors fetch the same three bytes. -/
theorem window_oneBack (hbug : cpu.haltBug = true) (m : FlatMemory) :
    cpu.oneBack.window (cpu.copied m) = cpu.window m := by
  have hfirst : (cpu.copied m).get (cpu.regs.pc - 1) = m.get cpu.regs.pc := by
    rw [copied, FlatMemory.get_put, if_pos rfl]
  have hsecond : cpu.oneBack.secondAddr = cpu.regs.pc := UInt16.sub_add_cancel cpu.regs.pc 1
  have hpc : cpu.regs.pc ≠ cpu.regs.pc - 1 := by grind
  have hafter : cpu.regs.pc + 1 ≠ cpu.regs.pc - 1 := by grind
  have hagree := (agreeOn_copied cpu m).get
  simp only [window, FlatMemory.memory_read, hsecond, hagree _ hpc, hagree _ hafter]
  simp only [secondAddr, hbug, if_true]
  exact congrArg (Window.mk · _ _) hfirst

/-- For the two processors control goes on at the same address. -/
theorem fallThrough_oneBack (hbug : cpu.haltBug = true) (op : Op) :
    cpu.oneBack.fallThrough op = cpu.fallThrough op := by
  simp only [fallThrough, oneBack, hbug, if_true]
  grind

/-- The two processors carry out an operation in the same way. -/
theorem perform_oneBack (hbug : cpu.haltBug = true) (op : Op) (literal : Word) :
    cpu.oneBack.perform op literal = cpu.perform op literal := by
  have hexecute : op.execute literal cpu.oneBack.regs (cpu.oneBack.fallThrough op) =
      (·.withPc (cpu.regs.pc - 1)) <$> op.execute literal cpu.regs (cpu.fallThrough op) := by
    rw [fallThrough_oneBack hbug]
    exact Op.execute_withPc op literal cpu.regs (cpu.regs.pc - 1) (cpu.fallThrough op)
  simp only [perform, hexecute, bind_map_left]
  rfl

/--
**A step in a halt bug is the step of a processor that finds the byte at PC twice.**

The two steps leave the same processor and make the same writes, and the memories they leave
agree but for the copy.  The halt bug is there again exactly if the instruction is a HALT that
finds an interrupt pending with the switch off.
-/
theorem step_of_haltBug {m : FlatMemory} {i : Instruction} (hr : cpu.Reachable)
    (hbug : cpu.haltBug = true) (hrequest : cpu.regs.pc - 1 ≠ Interrupt.requestAddr)
    (henable : cpu.regs.pc - 1 ≠ Interrupt.enableAddr) (hi : cpu.current.eval m = .ok i)
    (hdata : cpu.regs.pc - 1 ∉ readsOf (cpu.data i m)) :
    ∃ after, cpu.step.eval m = .ok after ∧ cpu.oneBack.step.eval (cpu.copied m) = .ok after ∧
      writesOf (cpu.oneBack.step.trace (cpu.copied m)) = writesOf (cpu.step.trace m) ∧
      (∀ addr, addr ≠ cpu.regs.pc - 1 →
        (cpu.oneBack.step.exec (cpu.copied m)).get addr = (cpu.step.exec m).get addr) ∧
      (after.haltBug = true ↔
        i.op = .halt ∧ cpu.master.on = false ∧ Interrupt.pending.eval m ≠ 0) := by
  obtain ⟨hh, hs, hidle⟩ := hr.coherent.of_haltBug hbug
  have hh' : cpu.oneBack.halted = false := hh
  have hs' : cpu.oneBack.stopped = false := hs
  have hback : cpu.oneBack.current.eval (cpu.copied m) =
      .ok { i with addr := cpu.oneBack.regs.pc } := by
    rw [eval_current, window_oneBack hbug]
    exact Instruction.decode_at hi _
  -- the address of an instruction does not matter any more once it is fetched
  have hsame : cpu.oneBack.afterFetch { i with addr := cpu.oneBack.regs.pc } =
      cpu.afterFetch i := by
    exact congrArg (· >>= poll) (perform_oneBack hbug i.op i.literal)
  obtain ⟨htrace, heval, hexec⟩ := afterFetch_agree (agreeOn_copied cpu m) henable.symm
    hrequest.symm fun addr haddr hcopy => hdata (hcopy ▸ haddr)
  refine ⟨_, eval_step_of_current hh hs hi, ?_, ?_, ?_, ?_⟩
  · rw [eval_step_of_current hh' hs' hback, hsame, heval]
  · rw [trace_step_of_current hh' hs' hback, trace_step_of_current hh hs hi, hsame, htrace]
    simp
  · intro addr haddr
    rw [exec_step_of_current hh' hs' hback, exec_step_of_current hh hs hi, hsame]
    exact hexec.get addr haddr
  · rw [haltBug_afterFetch, hidle]
    simp [and_assoc, and_comm]

/-- A call in a halt bug is a call to its own opcode, and it returns into its literal. -/
theorem step_of_haltBug_call : ∃ after,
    pastHalt.haltBug = true ∧
      pastHalt.current.eval (haltBefore 0xCD) = .ok ⟨0x100, .base 0xCD, 0xCD⟩ ∧
      pastHalt.step.eval (haltBefore 0xCD) = .ok after ∧
      pastHalt.oneBack.step.eval (pastHalt.copied (haltBefore 0xCD)) = .ok after ∧
      writesOf (pastHalt.oneBack.step.trace (pastHalt.copied (haltBefore 0xCD))) =
        [(0xBFFF, 0x01), (0xBFFE, 0x02)] ∧
      after.regs.pc = 0xCD ∧ after.haltBug = false := by
  have hi : pastHalt.current.eval (haltBefore 0xCD) = .ok ⟨0x100, .base 0xCD, 0xCD⟩ :=
    current_pastHalt 0xCD
  have hdata : pastHalt.regs.pc - 1 ∉
      readsOf (pastHalt.data ⟨0x100, .base 0xCD, 0xCD⟩ (haltBefore 0xCD)) := List.not_mem_nil
  obtain ⟨after, hstep, hback, hwrites, -, hagain⟩ :=
    step_of_haltBug reachable_pastHalt rfl (by decide) (by decide) hi hdata
  have hafter := Except.ok.inj (hstep.symm.trans (eval_step_of_current rfl rfl hi))
  refine ⟨after, rfl, hi, hstep, hback, ?_, ?_, ?_⟩
  · rw [hwrites, trace_step_of_current rfl rfl hi]
    rfl
  · rw [hafter]
    rfl
  · refine Bool.eq_false_iff.mpr fun h => ?_
    exact absurd (hagain.mp h).1 (by decide)

end Cpu

end Sm83
