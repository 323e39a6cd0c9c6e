/-
The delay of EI.

EI does not turn the master switch on at once: it arms the switch, and the switch turns on
as the next instruction retires.  This is so for every next instruction but two.  DI takes
the request back, which is its purpose.  And a second EI arms the switch anew, so that a row
of EIs puts the interrupts off until something else is executed.
-/
import Sm83.Proofs.FlatMemory
import Sm83.Proofs.Reachable

namespace Sm83

variable {M : Type} [Memory M]

theorem MasterEnable.eq_off {switch : MasterEnable} (hoff : switch.on = false)
    (hidle : switch.isPending = false) : switch = .off := by
  obtain ⟨on, delay⟩ := switch
  have hdelay : delay = 0 := by simpa [isPending] using hidle
  rw [show on = false from hoff, hdelay]
  rfl

/-- An armed switch turns on with every instruction but DI and EI. -/
theorem Op.steer_armed_iff (op : Op) :
    (op.steer .armed).retire.on = true ↔ op ≠ .di ∧ op ≠ .ei := by
  cases op <;> simp [Op.steer, MasterEnable.armed, MasterEnable.retire, MasterEnable.arm,
    MasterEnable.off, MasterEnable.set]

namespace Cpu

variable {cpu : Cpu} {m : M} {i : Instruction}

/--
**EI turns the switch on one instruction later.**  The step of EI lets nothing in and leaves
the switch off.  Whatever memory holds then, the switch turns on as the next instruction
retires, exactly if that instruction is neither DI nor EI, so that the step leaves it on or
lets something in.  With DI and EI it does neither, and after EI the switch is armed again.
-/
theorem switch_after_ei (hh : cpu.halted = false) (hs : cpu.stopped = false)
    (hoff : cpu.master.on = false) (hidle : cpu.master.isPending = false)
    (hi : cpu.current.eval m = .ok i) (hop : i.op = .ei) :
    ∃ armed, cpu.step.eval m = .ok armed ∧ armed.master.on = false ∧
      (∀ irq, ¬ cpu.LetsIn m irq) ∧
      ∀ (m' : M) (j : Instruction), armed.current.eval m' = .ok j →
        ∃ q after, armed.advance.eval m' = .ok q ∧ armed.step.eval m' = .ok after ∧
          (q.master.on = true ↔ j.op ≠ .di ∧ j.op ≠ .ei) ∧
          ((after.master.on = true ∨ ∃ irq, armed.LetsIn m' irq) ↔ j.op ≠ .di ∧ j.op ≠ .ei) ∧
          (j.op = .ei → after.master = armed.master) := by
  have hmaster : cpu.master = .off := MasterEnable.eq_off hoff hidle
  have hsteer : (i.op.steer cpu.master).retire = .armed := by
    rw [hop, hmaster]
    rfl
  obtain ⟨hstep, hno⟩ := step_of_off hh hs hi (by rw [hsteer]; rfl)
  have harmed : ((cpu.perform i.op i.literal).eval m).master = .armed := by
    rw [perform_master, hsteer]
  refine ⟨_, hstep, by rw [harmed]; rfl, hno, ?_⟩
  have hh' : ((cpu.perform i.op i.literal).eval m).halted = false := by
    rw [perform_halted, hop, hh]
    rfl
  have hs' : ((cpu.perform i.op i.literal).eval m).stopped = false := by
    rw [perform_stopped, hop, hs]
    rfl
  generalize (cpu.perform i.op i.literal).eval m = armed at harmed hh' hs'
  intro m' j hj
  have hiff := Op.steer_armed_iff j.op
  rw [← harmed] at hiff
  have hswitch : ((armed.perform j.op j.literal).eval m').master.on = true ↔
      j.op ≠ .di ∧ j.op ≠ .ei := by
    rw [perform_master]
    exact hiff
  by_cases hnext : j.op ≠ .di ∧ j.op ≠ .ei
  · obtain ⟨after, hafter, hend⟩ := step_of_on hh' hs' hj (hiff.mpr hnext)
    exact ⟨_, after, eval_advance hh' hj, hafter, hswitch, iff_of_true hend hnext,
      fun hei => absurd hei hnext.2⟩
  · have hstay : (j.op.steer armed.master).retire.on = false :=
      Bool.eq_false_iff.mpr fun hon => hnext (hiff.mp hon)
    obtain ⟨hafter, hnone⟩ := step_of_off hh' hs' hj hstay
    refine ⟨_, _, eval_advance hh' hj, hafter, hswitch, iff_of_false ?_ hnext, ?_⟩
    · rintro (hon | ⟨irq, hin⟩)
      · exact hnext (hswitch.mp hon)
      · exact hnone irq hin
    · intro hei
      rw [perform_master, hei, harmed]
      rfl

/-! ### After an EI at the address where cartridges start -/

/-- The processor after that EI. -/
def pastEi : Cpu :=
  { atEntry with regs := { atEntry.regs with pc := 0x101 }, cycles := 4, master := .armed }

/-- An EI and the instruction `b`, in a memory without any interrupt. -/
def eiThen (b : Byte) : FlatMemory := FlatMemory.programmed [0xFB, b]

theorem get_eiThen (b : Byte) (addr : Word) :
    (eiThen b).get addr = [0xFB, b][(addr - 0x100).toNat]?.getD 0 := by
  have hlen : [0xFB, b].length ≤ addressSpace := show 2 ≤ 65536 by decide
  exact FlatMemory.get_programmed hlen addr

theorem current_atEntry (b : Byte) :
    atEntry.current.eval (eiThen b) = .ok ⟨0x100, .base 0xFB, 0⟩ := by
  have hop : (Opcode.base 0xFB).op = .ei := by decide
  simp only [eval_current, window, FlatMemory.memory_read, get_eiThen]
  exact Instruction.decode_of_length_one (by decide) hop rfl (by simp) b 0 0x100

theorem current_pastEi (b : Byte) :
    pastEi.current.eval (eiThen b) = Instruction.decode ⟨b, 0, 0⟩ 0x101 := by
  simp only [eval_current, window, FlatMemory.memory_read, get_eiThen]
  rfl

theorem step_atEntry (b : Byte) : atEntry.step.eval (eiThen b) = .ok pastEi :=
  (step_of_off rfl rfl (current_atEntry b) rfl).1

/-- After EI, a HALT that finds nothing pending halts with the switch on. -/
theorem switch_after_ei_halt : ∃ q after,
    pastEi.advance.eval (eiThen 0x76) = .ok q ∧ pastEi.step.eval (eiThen 0x76) = .ok after ∧
      q.master.on = true ∧
      (after.master.on = true ∨ ∃ irq, pastEi.LetsIn (eiThen 0x76) irq) := by
  have hsecond : pastEi.current.eval (eiThen 0x76) = .ok ⟨0x101, .base 0x76, 0⟩ :=
    current_pastEi 0x76
  obtain ⟨armed, hstep, -, -, hnext⟩ := switch_after_ei rfl rfl rfl rfl (current_atEntry 0x76) rfl
  have harmed : armed = pastEi := Except.ok.inj (hstep.symm.trans (step_atEntry 0x76))
  rw [harmed] at hnext
  obtain ⟨q, after, hq, hafter, hon, hend, -⟩ := hnext _ _ hsecond
  have hhalt : (Opcode.base 0x76).op ≠ .di ∧ (Opcode.base 0x76).op ≠ .ei := by decide
  exact ⟨q, after, hq, hafter, hon.mpr hhalt, hend.mpr hhalt⟩

/-- Two EIs in a row leave the switch off, and nothing is let in. -/
theorem second_ei_puts_off :
    atEntry.Reachable ∧ atEntry.halted = false ∧ atEntry.stopped = false ∧
      atEntry.haltBug = false ∧ atEntry.master = .off ∧
      atEntry.current.eval (eiThen 0xFB) = .ok ⟨0x100, .base 0xFB, 0⟩ ∧
      atEntry.step.eval (eiThen 0xFB) = .ok pastEi ∧
      pastEi.current.eval (eiThen 0xFB) = .ok ⟨0x101, .base 0xFB, 0⟩ ∧
      (Opcode.base 0xFB).op = .ei ∧
      ∃ after, pastEi.step.eval (eiThen 0xFB) = .ok after ∧
        after.master.on = false ∧ ∀ irq, ¬ pastEi.LetsIn (eiThen 0xFB) irq := by
  have hsecond : pastEi.current.eval (eiThen 0xFB) = .ok ⟨0x101, .base 0xFB, 0⟩ :=
    current_pastEi 0xFB
  obtain ⟨hstep, hnone⟩ := step_of_off rfl rfl hsecond rfl
  exact ⟨.ofRegisters _, rfl, rfl, rfl, rfl, current_atEntry 0xFB, step_atEntry 0xFB, hsecond,
    by decide, _, hstep, rfl, hnone⟩

end Cpu

end Sm83
