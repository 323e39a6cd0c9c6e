/-
The states a processor can be in.

A processor is made with some registers and is then driven from outside: it takes steps, on
a memory that can be another one each time, its registers are assigned, its switch is
turned, it is taken out of stop mode.  Whatever the order of these, it never is in two of the
modes halted, stopped and halt bug at once, and it is in none of them while an EI waits for
the instruction after it.  The step is the only one of these that has to be looked at, and
of the step only the instruction, because an interrupt that is let in turns the switch off.
-/
import Sm83.Proofs.Dispatch
import Sm83.Proofs.Hits

namespace Sm83

/-! ### The switch between steps -/

/-- Between two steps the switch is off, armed by the EI just executed, or on. -/
def MasterEnable.Settled (switch : MasterEnable) : Prop :=
  switch = .off ∨ switch = .armed ∨ switch = .set true

/-- It is so after every instruction, and armed by nothing but an EI that finds it off. -/
theorem MasterEnable.Settled.retire {switch : MasterEnable} (h : switch.Settled) (op : Op) :
    (op.steer switch).retire.Settled ∧
      ((op.steer switch).retire = .armed → op = .ei ∧ switch.on = false) := by
  unfold Op.steer Settled
  split <;> rcases h with rfl | rfl | rfl <;> simp [off, armed, set, arm, MasterEnable.retire]

theorem MasterEnable.Settled.isPending_iff {switch : MasterEnable} (h : switch.Settled) :
    switch.isPending = true ↔ switch = .armed := by
  rcases h with rfl | rfl | rfl <;> simp [isPending, off, armed, set]

namespace Cpu

/-- What whoever holds a processor can bring it into. -/
inductive Reachable : Cpu → Prop
  | ofRegisters (regs : Registers) : Reachable (.ofRegisters regs)
  | step {M : Type} [Memory M] {m : M} {cpu after : Cpu} (h : Reachable cpu)
      (hstep : cpu.step.eval m = .ok after) : Reachable after
  | stepUnlessHit {M : Type} [Memory M] {m : M} {cpu after : Cpu} {sets : Breakpoints}
      {ignored : Bool} (h : Reachable cpu)
      (hstep : (cpu.stepUnlessHit sets ignored).eval m = .ok (.stepped after)) : Reachable after
  | assign {cpu : Cpu} (h : Reachable cpu) (regs : Registers) : Reachable { cpu with regs }
  | setIme {cpu : Cpu} (h : Reachable cpu) (value : Bool) : Reachable (cpu.setIme value)
  | resume {cpu : Cpu} (h : Reachable cpu) : Reachable cpu.resume

/-- The processor is in one mode at most, and in none while an EI is in flight. -/
structure Coherent (cpu : Cpu) : Prop where
  master : cpu.master.Settled
  armed : cpu.master = .armed → cpu.halted = false ∧ cpu.stopped = false ∧ cpu.haltBug = false
  halted : cpu.halted = true → cpu.stopped = false ∧ cpu.haltBug = false
  stopped : cpu.stopped = true → cpu.haltBug = false

namespace Coherent

variable {M : Type} [Memory M] {cpu q after : Cpu} {m : M}

/-- In a halt bug, no EI is in flight and the processor runs. -/
theorem of_haltBug (h : cpu.Coherent) (hbug : cpu.haltBug = true) :
    cpu.halted = false ∧ cpu.stopped = false ∧ cpu.master.isPending = false := by
  have hhalted : cpu.halted = false :=
    Bool.eq_false_iff.mpr fun hh => absurd (h.halted hh).2 (by simp [hbug])
  have hstopped : cpu.stopped = false :=
    Bool.eq_false_iff.mpr fun hs => absurd (h.stopped hs) (by simp [hbug])
  refine ⟨hhalted, hstopped, Bool.eq_false_iff.mpr fun hp => ?_⟩
  exact absurd (h.armed (h.master.isPending_iff.mp hp)).2.2 (by simp [hbug])

theorem ofRegisters (regs : Registers) : (ofRegisters regs).Coherent where
  master := Or.inl rfl
  armed := fun _ => ⟨rfl, rfl, rfl⟩
  halted := fun _ => ⟨rfl, rfl⟩
  stopped := fun _ => rfl

theorem assign (h : cpu.Coherent) (regs : Registers) : { cpu with regs }.Coherent :=
  ⟨h.master, h.armed, h.halted, h.stopped⟩

theorem setIme (h : cpu.Coherent) (value : Bool) : (cpu.setIme value).Coherent where
  master := by cases value <;> simp [Cpu.setIme, MasterEnable.Settled, MasterEnable.off,
    MasterEnable.set]
  armed := fun ha => absurd ha (by simp [Cpu.setIme, MasterEnable.set, MasterEnable.armed])
  halted := h.halted
  stopped := h.stopped

theorem resume (h : cpu.Coherent) : cpu.resume.Coherent where
  master := h.master
  armed := fun ha => ⟨(h.armed ha).1, rfl, (h.armed ha).2.2⟩
  halted := fun hh => ⟨rfl, (h.halted hh).2⟩
  stopped := fun hs => absurd hs (by simp [Cpu.resume])

/-- An instruction puts the processor in the mode it asks for and ends the halt bug. -/
theorem perform (h : cpu.Coherent) (hh : cpu.halted = false) (hs : cpu.stopped = false)
    (op : Op) (literal : Word) : ((cpu.perform op literal).eval m).Coherent := by
  obtain ⟨hsettled, harmed⟩ := h.master.retire op
  constructor
  · rw [perform_master]
    exact hsettled
  · intro ha
    rw [perform_master] at ha
    obtain ⟨rfl, -⟩ := harmed ha
    rw [perform_halted, perform_stopped, perform_haltBug, hh, hs]
    exact ⟨rfl, rfl, rfl⟩
  · intro hhalted
    rw [perform_halted, hh, Bool.false_or, Bool.and_eq_true] at hhalted
    obtain ⟨hop, hp⟩ := hhalted
    rw [perform_stopped, perform_haltBug, hs, eq_of_beq hop, eq_of_beq hp]
    exact ⟨rfl, rfl⟩
  · intro hstopped
    rw [perform_stopped, hs, Bool.false_or] at hstopped
    rw [perform_haltBug, eq_of_beq hstopped]
    rfl

theorem advance (h : cpu.Coherent) (hs : cpu.stopped = false)
    (hq : cpu.advance.eval m = .ok q) : q.Coherent := by
  by_cases hh : cpu.halted = true
  · rw [eval_advance_halted hh, Except.ok.injEq] at hq
    subst hq
    -- a halted processor has no EI in flight, and it has stopped at most being halted
    exact ⟨h.master, fun ha => absurd (h.armed ha).1 (by simp [hh]), fun _ => h.halted hh,
      fun _ => (h.halted hh).2⟩
  · obtain ⟨i, -, rfl⟩ := current_of_advance (by simpa using hh) hq
    exact h.perform (by simpa using hh) hs i.op i.literal

theorem poll (h : q.Coherent) (hq : cpu.advance.eval m = .ok q) :
    (q.poll.eval (cpu.advance.exec m)).Coherent := by
  rcases poll_cases hq with ⟨-, -, irq, henters⟩ | ⟨-, heval, -⟩
  · rw [henters.cpu]
    exact ⟨Or.inl rfl, fun ha => absurd ha (by simp [MasterEnable.off, MasterEnable.armed]),
      h.halted, h.stopped⟩
  · rw [heval]
    exact h

theorem step (h : cpu.Coherent) (hstep : cpu.step.eval m = .ok after) : after.Coherent := by
  by_cases hs : cpu.stopped = true
  · simp only [Cpu.step, hs, if_true, Bus.eval_pure, Except.ok.injEq] at hstep
    exact hstep ▸ h
  · have hrun : cpu.stopped = false := by simpa using hs
    obtain ⟨q, hq, rfl⟩ := advance_of_step hrun hstep
    exact (h.advance hrun hq).poll hq

end Coherent

/-- Every processor that can be brought about is coherent. -/
theorem Reachable.coherent {cpu : Cpu} (h : cpu.Reachable) : cpu.Coherent := by
  induction h with
  | ofRegisters regs => exact .ofRegisters regs
  | step _ hstep ih => exact ih.step hstep
  | stepUnlessHit _ hstep ih => exact ih.step (step_of_stepped hstep).2
  | assign _ regs ih => exact ih.assign regs
  | setIme _ value ih => exact ih.setIme value
  | resume _ ih => exact ih.resume

end Cpu

end Sm83
