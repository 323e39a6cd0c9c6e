/-
The modes exclude one another.

Whoever holds a processor and a memory can make a handful of calls and can change memory in
between.  A processor driven so, by any calls in any order, is one of those that `Reachable` is
about: a step that fails leaves the processor as it was, a hit leaves it as it was, to request an
interrupt touches memory only, and a reset is a start from the beginning.

So what is coherent about the processors that can be brought about holds after any calls: of the
modes halted, stopped and halt bug there is one at most, and none while an EI is in flight.
-/
import Sm83.Proofs.InPlace
import Sm83.Proofs.Reachable

namespace Sm83

/-! ### Calls -/

/-- A call on a processor that sits on a memory, or a change of that memory. -/
inductive Call (M : Type) where
  | step
  | stepUnlessHit (sets : Breakpoints) (ignored : Bool)
  | setIme (value : Bool)
  | request (irq : Interrupt)
  | resume
  | reset
  | assign (regs : Registers)
  | replace (memory : M)

/-- A processor and the memory it sits on. -/
structure Machine (M : Type) where
  cpu : Cpu
  memory : M

namespace Machine

variable {M : Type} [Memory M]

/-- Works in place on the processor and memory, whatever comes of it. -/
def work {α : Type} (s : Machine M) (p : InPlace α) : Machine M :=
  let ((_, cpu), memory) := (InPlace.on p s.cpu).run s.memory
  ⟨cpu, memory⟩

def call (s : Machine M) : Call M → Machine M
  | .step => s.work InPlace.step
  | .stepUnlessHit sets ignored => s.work (InPlace.stepUnlessHit sets ignored)
  | .setIme value => { s with cpu := s.cpu.setIme value }
  | .request irq => { s with memory := irq.request.exec s.memory }
  | .resume => { s with cpu := s.cpu.resume }
  | .reset => { s with cpu := .powerOn }
  | .assign regs => { s with cpu := { s.cpu with regs } }
  | .replace memory => { s with memory }

/-- A processor with some registers on a memory, after some calls. -/
def after (regs : Registers) (memory : M) (calls : List (Call M)) : Machine M :=
  calls.foldl call ⟨.ofRegisters regs, memory⟩

/-! ### What calls can bring about -/

theorem work_step (s : Machine M) : (s.work InPlace.step).cpu =
    match s.cpu.step.eval s.memory with
    | .ok after => after
    | .error _ => s.cpu := by
  show ((InPlace.on InPlace.step s.cpu).eval s.memory).2 = _
  rw [InPlace.on_step, Bus.eval_map]
  cases s.cpu.step.eval s.memory <;> rfl

theorem work_stepUnlessHit (s : Machine M) (sets : Breakpoints) (ignored : Bool) :
    (s.work (InPlace.stepUnlessHit sets ignored)).cpu =
      match (s.cpu.stepUnlessHit sets ignored).eval s.memory with
      | .ok (.stepped after) => after
      | _ => s.cpu := by
  show ((InPlace.on (InPlace.stepUnlessHit sets ignored) s.cpu).eval s.memory).2 = _
  rw [InPlace.on_stepUnlessHit, Bus.eval_map]
  match (s.cpu.stepUnlessHit sets ignored).eval s.memory with
  | .ok (.stepped after) => rfl
  | .ok (.stoppedAt hit) => rfl
  | .error fault => rfl

theorem reachable_call {s : Machine M} (h : s.cpu.Reachable) (c : Call M) :
    (s.call c).cpu.Reachable := by
  cases c with
  | step =>
      show (s.work InPlace.step).cpu.Reachable
      rw [work_step]
      split
      · rename_i hstep
        exact h.step hstep
      · exact h
  | stepUnlessHit sets ignored =>
      show (s.work (InPlace.stepUnlessHit sets ignored)).cpu.Reachable
      rw [work_stepUnlessHit]
      split
      · rename_i hstep
        exact h.stepUnlessHit hstep
      · exact h
  | setIme value => exact h.setIme value
  | request irq => exact h
  | resume => exact h.resume
  | reset => exact .ofRegisters .powerOn
  | assign regs => exact h.assign regs
  | replace memory => exact h

theorem reachable_foldl (calls : List (Call M)) : ∀ s : Machine M, s.cpu.Reachable →
    (calls.foldl call s).cpu.Reachable := by
  induction calls with
  | nil => exact fun _ h => h
  | cons c rest ih => exact fun s h => ih (s.call c) (reachable_call h c)

/-- Calls bring about reachable processors only. -/
theorem reachable_after (regs : Registers) (memory : M) (calls : List (Call M)) :
    (after regs memory calls).cpu.Reachable :=
  reachable_foldl calls _ (.ofRegisters regs)

end Machine

/-! ### What is said of them -/

/-- Four bits of F exist. -/
theorem Flags.low_toByte (f : Flags) : f.toByte &&& 0x0F = 0 := by
  obtain ⟨z, n, h, c⟩ := f
  cases z <;> cases n <;> cases h <;> cases c <;> rfl

/-- Between steps the countdown of EI is at one, with the switch off, or is not running. -/
theorem MasterEnable.Settled.delay {switch : MasterEnable} (h : switch.Settled) :
    switch.delay = 0 ∨ switch.delay = 1 ∧ switch = .armed := by
  rcases h with rfl | rfl | rfl
  · exact Or.inl rfl
  · exact Or.inr ⟨rfl, rfl⟩
  · exact Or.inl rfl

namespace Cpu

theorem Coherent.modes {cpu : Cpu} (h : cpu.Coherent) :
    [cpu.halted, cpu.stopped, cpu.haltBug].count true ≤ 1 := by
  by_cases hh : cpu.halted = true
  · obtain ⟨hs, hb⟩ := h.halted hh
    simp [hh, hs, hb]
  by_cases hs : cpu.stopped = true
  · simp [hh, hs, h.stopped hs]
  · cases hb : cpu.haltBug <;> simp [hh, hs]

/--
**Whatever is called in whatever order, a processor is in one mode at most**, of halted, stopped
and halt bug.  The countdown of EI is not running or at one, and then the switch is off and
the processor is in none of the modes.  The low nibble of F is zero.
-/
theorem modes_after_calls {M : Type} [Memory M] (regs : Registers) (memory : M)
    (calls : List (Call M)) :
    let cpu := (Machine.after regs memory calls).cpu
    [cpu.halted, cpu.stopped, cpu.haltBug].count true ≤ 1 ∧
      (cpu.master.delay = 0 ∨ cpu.master.delay = 1) ∧
      (cpu.master.delay = 1 → cpu.master.on = false ∧
        cpu.halted = false ∧ cpu.stopped = false ∧ cpu.haltBug = false) ∧
      cpu.regs.f &&& 0x0F = 0 := by
  intro cpu
  have h : cpu.Coherent := (Machine.reachable_after regs memory calls).coherent
  refine ⟨h.modes, h.master.delay.imp_right And.left, fun hone => ?_, Flags.low_toByte _⟩
  have harmed : cpu.master = .armed :=
    (h.master.delay.resolve_left (by simp [hone])).2
  exact ⟨by rw [harmed]; rfl, h.armed harmed⟩

end Cpu

end Sm83
