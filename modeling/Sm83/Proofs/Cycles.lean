/-
What a step costs.

An instruction costs what its operation says: the longer time if it is a conditional branch that is
taken, and the shorter one else.  That a branch is taken is noticed deep inside the operation, but
it can be read off the flags from before.  An interrupt that is let in costs the same whatever
was interrupted.  Asleep, time passes at a fixed rate; stopped it does not pass, and a step that
faults takes no time.

All these costs are multiples of four and none is large.  So the count of cycles stays a multiple
of four whatever is done with a processor, it never runs backwards but for a reset, and it
advances by no more than forty-four at a time.
-/
import Sm83.Proofs.Faults
import Sm83.Proofs.Modes

namespace Sm83

variable {M : Type} [Memory M]

namespace Op

/-! ### The cost of an operation -/

/-- The cycles of an operation with some flags: the longer time for a condition that holds. -/
def cycles (op : Op) (flags : Flags) : Nat :=
  if op.cond?.any (·.holds flags) then op.cost.taken else op.cost.base

/-- What an operation notes of a branch is what the flags from before say of its condition. -/
theorem execute_taken (op : Op) (literal : Word) (r : Registers) (next : Word) (m : M) :
    ((op.execute literal r next).eval m).taken = op.cond?.any (·.holds r.flags) := by
  cases op with
  | jr cond | jp cond | call cond | ret cond =>
      cases cond with
      | none => simp [execute, taken, cond?, Outcome.branch]
      | some cond =>
          by_cases h : cond.holds r.flags = true
          · simp [execute, taken, cond?, h, Outcome.branch]
          · simp [execute, taken, cond?, h, Outcome.goOn]
  | _ => simp [execute, cond?, Outcome.goOn, Outcome.ask]

/-- The costs are multiples of four, and the dearest operation is a call. -/
theorem cost_bounds (op : Op) :
    4 ∣ op.cost.base ∧ 4 ∣ op.cost.taken ∧ op.cost.base ≤ 24 ∧ op.cost.taken ≤ 24 := by
  unfold cost
  split <;> decide

theorem cycles_bounds (op : Op) (flags : Flags) : 4 ∣ op.cycles flags ∧ op.cycles flags ≤ 24 := by
  obtain ⟨hbase, htaken, hbaseLe, htakenLe⟩ := op.cost_bounds
  unfold cycles
  split
  · exact ⟨htaken, htakenLe⟩
  · exact ⟨hbase, hbaseLe⟩

end Op

namespace Cpu

variable {cpu q after : Cpu} {m : M} {i : Instruction}

theorem perform_cycles (cpu : Cpu) (op : Op) (literal : Word) (m : M) :
    ((cpu.perform op literal).eval m).cycles = cpu.cycles + op.cycles cpu.regs.flags := by
  have htaken : (cpu.outcome op literal m).taken = op.cond?.any (·.holds cpu.regs.flags) :=
    op.execute_taken literal cpu.regs _ m
  by_cases hop : op = .halt
  · subst hop
    simp only [eval_perform_halt, respond]
    repeat' split
    all_goals rfl
  · rw [eval_perform_of_ne_halt _ _ _ hop]
    show cpu.cycles + (if (cpu.outcome op literal m).taken then _ else _) = _
    rw [htaken, Op.cycles]

/-! ### The cost of a step -/

/-- The cycles that a step takes, but for those of an interrupt. -/
def ownCycles (cpu : Cpu) (m : M) : Nat :=
  if cpu.stopped then 0
  else if cpu.halted then 4
  else
    match cpu.current.eval m with
    | .error _ => 0
    | .ok i => i.op.cycles cpu.regs.flags

theorem ownCycles_bounds (cpu : Cpu) (m : M) : 4 ∣ cpu.ownCycles m ∧ cpu.ownCycles m ≤ 24 := by
  unfold ownCycles
  split
  · decide
  split
  · decide
  split
  · decide
  · exact Op.cycles_bounds _ _

theorem advance_cycles (hs : cpu.stopped = false) (hq : cpu.advance.eval m = .ok q) :
    q.cycles = cpu.cycles + cpu.ownCycles m := by
  unfold ownCycles
  by_cases hh : cpu.halted = true
  · rw [eval_advance_halted hh, Except.ok.injEq] at hq
    simp [← hq, hs, hh, idleCycles]
  · obtain ⟨i, hi, rfl⟩ := current_of_advance (by simpa using hh) hq
    simp [perform_cycles, hs, hh, hi]

/-- A processor that is stopped lets nothing in: its step touches nothing. -/
theorem not_letsIn_of_stopped (hs : cpu.stopped = true) (irq : Interrupt) :
    ¬ cpu.LetsIn m irq := by
  rintro ⟨q, after, log, -, -, hlog, henters⟩
  have hempty : log = [] := by
    have hnothing : cpu.step.trace m = [] := by simp [step, hs]
    rw [hnothing] at hlog
    exact (List.append_eq_nil_iff.mp hlog.symm).2
  have hwrites := henters.writes
  rw [hempty] at hwrites
  exact absurd hwrites (by simp)

/-- A step takes its own cycles, and twenty more exactly if it lets an interrupt in. -/
theorem step_cycles (h : cpu.step.eval m = .ok after) :
    ((∃ irq, cpu.LetsIn m irq) ∧ after.cycles = cpu.cycles + cpu.ownCycles m + 20) ∨
      ((¬ ∃ irq, cpu.LetsIn m irq) ∧ after.cycles = cpu.cycles + cpu.ownCycles m) := by
  by_cases hs : cpu.stopped = true
  · have hsame : cpu = after := by simpa [step, hs] using h
    refine Or.inr ⟨not_exists.mpr (not_letsIn_of_stopped hs), ?_⟩
    simp [← hsame, ownCycles, hs]
  · have hrun : cpu.stopped = false := by simpa using hs
    obtain ⟨q, hq, rfl⟩ := advance_of_step hrun h
    have hcycles := advance_cycles hrun hq
    rcases poll_cases hq with ⟨-, -, irq, henters⟩ | ⟨-, heval, hwrites⟩
    · refine Or.inl ⟨⟨irq, (letsIn_iff hrun hq).mpr henters⟩, ?_⟩
      rw [henters.cpu, ← hcycles]
      rfl
    · refine Or.inr ⟨not_exists.mpr fun irq hin => ?_, by rw [heval, hcycles]⟩
      have henters := (letsIn_iff hrun hq).mp hin
      exact absurd (hwrites.symm.trans henters.writes) (by simp)

/-- A step that faults lets nothing in. -/
theorem not_letsIn_of_fault {fault : Fault} (h : cpu.step.eval m = .error fault)
    (irq : Interrupt) : ¬ cpu.LetsIn m irq := by
  rintro ⟨q, after, log, -, hstep, -⟩
  rw [h] at hstep
  exact absurd hstep (by simp)

/-- A step that faults takes no time. -/
theorem ownCycles_of_fault {fault : Fault} (h : cpu.step.eval m = .error fault) :
    cpu.ownCycles m = 0 := by
  obtain ⟨hfaults, rfl⟩ := eval_step_eq_error_iff.mp h
  have hi : cpu.current.eval m = .error (cpu.faultAtPc m) :=
    eval_current_eq_error_iff.mpr ⟨hfaults.undefined, rfl⟩
  simp [ownCycles, hfaults.stopped, hfaults.halted, hi]

/-- The clock has moved by a multiple of four, forward and not far. -/
structure Ticked (cpu after : Cpu) : Prop where
  forward : cpu.cycles ≤ after.cycles
  whole : 4 ∣ after.cycles - cpu.cycles
  bound : after.cycles ≤ cpu.cycles + 44

theorem Ticked.of_same (h : after.cycles = cpu.cycles) : cpu.Ticked after := by
  constructor <;> simp [h]

theorem ticked_step (h : cpu.step.eval m = .ok after) : cpu.Ticked after := by
  obtain ⟨hfour, hle⟩ := cpu.ownCycles_bounds m
  rcases step_cycles h with ⟨-, hcycles⟩ | ⟨-, hcycles⟩
  · constructor <;> omega
  · constructor <;> omega

end Cpu

namespace Machine

open Cpu (Ticked)

/-! ### The clock under calls -/

/-- Worked in place, a step that faults leaves the clock alone; else it is as long as said. -/
theorem call_step_cycles (s : Machine M) :
    ((∃ irq, s.cpu.LetsIn s.memory irq) ∧
        (s.call .step).cpu.cycles = s.cpu.cycles + s.cpu.ownCycles s.memory + 20) ∨
      ((¬ ∃ irq, s.cpu.LetsIn s.memory irq) ∧
        (s.call .step).cpu.cycles = s.cpu.cycles + s.cpu.ownCycles s.memory) := by
  show (_ ∧ (s.work InPlace.step).cpu.cycles = _) ∨ (_ ∧ (s.work InPlace.step).cpu.cycles = _)
  rw [work_step]
  cases hstep : s.cpu.step.eval s.memory with
  | ok after => exact Cpu.step_cycles hstep
  | error fault =>
      refine Or.inr ⟨not_exists.mpr (Cpu.not_letsIn_of_fault hstep), ?_⟩
      simp [Cpu.ownCycles_of_fault hstep]

/-- No call but a reset turns the clock back. -/
theorem ticked_call (s : Machine M) {c : Call M} (hc : c ≠ .reset) :
    s.cpu.Ticked (s.call c).cpu := by
  cases c with
  | reset => exact absurd rfl hc
  | step =>
      show s.cpu.Ticked (s.work InPlace.step).cpu
      rw [work_step]
      split
      · rename_i hstep
        exact Cpu.ticked_step hstep
      · exact .of_same rfl
  | stepUnlessHit sets ignored =>
      show s.cpu.Ticked (s.work (InPlace.stepUnlessHit sets ignored)).cpu
      rw [work_stepUnlessHit]
      split
      · rename_i hstep
        exact Cpu.ticked_step (Cpu.step_of_stepped hstep).2
      · exact .of_same rfl
  | setIme value | request irq | resume | assign regs | replace memory => exact .of_same rfl

/-- Calls keep the count of cycles a multiple of four, a reset too. -/
theorem four_dvd_cycles_foldl (calls : List (Call M)) : ∀ s : Machine M, 4 ∣ s.cpu.cycles →
    4 ∣ (calls.foldl call s).cpu.cycles := by
  induction calls with
  | nil => exact fun _ h => h
  | cons c rest ih =>
      intro s h
      refine ih (s.call c) ?_
      by_cases hc : c = .reset
      · subst hc
        exact Nat.dvd_zero 4
      · obtain ⟨hforward, hwhole, -⟩ := ticked_call s hc
        omega

/-- Without a reset, calls never turn the clock back. -/
theorem cycles_le_foldl (calls : List (Call M)) : ∀ s : Machine M, .reset ∉ calls →
    s.cpu.cycles ≤ (calls.foldl call s).cpu.cycles := by
  induction calls with
  | nil => exact fun s _ => Nat.le_refl s.cpu.cycles
  | cons c rest ih =>
      intro s hreset
      rw [List.mem_cons, not_or] at hreset
      have hfirst := (ticked_call s (Ne.symm hreset.1)).forward
      exact Nat.le_trans hfirst (ih (s.call c) hreset.2)

end Machine

end Sm83
