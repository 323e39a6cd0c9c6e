/-
What can go wrong.

Eleven bytes of the first page mean nothing, and to come upon one of them where an instruction
should begin is all that can go wrong.  Whoever looks at the instruction at PC gets the fault,
in whatever mode the processor is; a step gets it unless the processor is halted or stopped, and
breakpoints make no difference.

The fault comes with the fetch, before anything has happened.  So it leaves the processor and
memory as they were, and the next step comes upon it again.  No operation is ever reached
that cannot be carried out.
-/
import Sm83.Proofs.GuardedStep

namespace Sm83

/-! ### The undefined bytes -/

namespace Opcode

/-- The bytes of the first page that mean nothing. -/
def undefinedBytes : List Byte :=
  [0xD3, 0xDB, 0xDD, 0xE3, 0xE4, 0xEB, 0xEC, 0xED, 0xF4, 0xFC, 0xFD]

theorem baseOp_of_mem : ∀ byte : Byte, byte ∈ undefinedBytes → baseOp byte = .undefined byte :=
  forall_byte (by decide +kernel)

theorem mem_of_category : ∀ byte : Byte,
    (baseOp byte).category = .undefined → byte ∈ undefinedBytes :=
  forall_byte (by decide +kernel)

theorem baseOp_eq_undefined_iff {byte b : Byte} :
    baseOp byte = .undefined b ↔ byte ∈ undefinedBytes ∧ b = byte := by
  constructor
  · intro h
    have hmem : byte ∈ undefinedBytes := mem_of_category byte (by rw [h]; rfl)
    rw [baseOp_of_mem byte hmem] at h
    exact ⟨hmem, (Op.undefined.inj h).symm⟩
  · rintro ⟨hmem, rfl⟩
    exact baseOp_of_mem b hmem

end Opcode

/-- Decoding fails on an undefined byte only, and says which it is and where. -/
theorem Instruction.decode_eq_error_iff {w : Window} {addr : Word} {fault : Fault} :
    decode w addr = .error fault ↔
      w.first ∈ Opcode.undefinedBytes ∧ fault = .undefinedOpcode w.first addr := by
  have hundefined : ∀ b, (opcodeOf w).op = .undefined b ↔
      w.first ∈ Opcode.undefinedBytes ∧ b = w.first := by
    intro b
    by_cases hfirst : w.first = 0xCB
    · rw [opcodeOf_escape hfirst, hfirst]
      have hpage := (Opcode.extendedOp_executable w.second).ne_undefined b
      exact iff_of_false hpage fun h => absurd h.1 (by decide)
    · rw [opcodeOf_of_ne hfirst]
      exact Opcode.baseOp_eq_undefined_iff
  constructor
  · intro h
    simp only [decode] at h
    split at h
    · rename_i b hop
      obtain ⟨hmem, rfl⟩ := (hundefined b).mp hop
      exact ⟨hmem, (Except.error.inj h).symm⟩
    · exact absurd h (by simp)
  · rintro ⟨hmem, rfl⟩
    simp only [decode, (hundefined w.first).mpr ⟨hmem, rfl⟩]

namespace Cpu

variable {M : Type} [Memory M] {m : M} {cpu : Cpu}

/-! ### The fault of a step -/

/-- The byte at PC is undefined. -/
def AtUndefined (cpu : Cpu) (m : M) : Prop :=
  Memory.read m cpu.regs.pc ∈ Opcode.undefinedBytes

/-- The fault that names the byte at PC and its address. -/
def faultAtPc (cpu : Cpu) (m : M) : Fault :=
  .undefinedOpcode (Memory.read m cpu.regs.pc) cpu.regs.pc

/-- An instruction is to be executed, and the byte at PC is undefined. -/
structure Faults (cpu : Cpu) (m : M) : Prop where
  halted : cpu.halted = false
  stopped : cpu.stopped = false
  undefined : cpu.AtUndefined m

theorem eval_current_eq_error_iff {fault : Fault} :
    cpu.current.eval m = .error fault ↔ cpu.AtUndefined m ∧ fault = cpu.faultAtPc m := by
  rw [eval_current]
  exact Instruction.decode_eq_error_iff

/-- Checking for breakpoints fails if there is no instruction, and for no other reason. -/
theorem eval_check_eq_error_iff {sets : Breakpoints} {ignored : Bool} {fault : Fault} :
    (cpu.check sets ignored).eval m = .error fault ↔ cpu.current.eval m = .error fault := by
  cases hi : cpu.current.eval m with
  | error other =>
      simp [check, withCurrent_eq, hi]
  | ok i =>
      obtain ⟨acc, hacc, -⟩ := current_foretold hi
      simp [eval_check hi hacc]

/-- A step fails if there is an instruction to be executed and none at PC. -/
theorem eval_step_eq_error_iff {fault : Fault} :
    cpu.step.eval m = .error fault ↔ cpu.Faults m ∧ fault = cpu.faultAtPc m := by
  by_cases hs : cpu.stopped = true
  · have hgoes : cpu.step.eval m = .ok cpu := by simp [step, hs]
    rw [hgoes]
    exact iff_of_false (by simp) fun h => by simpa [hs] using h.1.stopped
  have hrun : cpu.stopped = false := by simpa using hs
  by_cases hh : cpu.halted = true
  · rw [eval_step hrun (eval_advance_halted hh)]
    exact iff_of_false (by simp) fun h => by simpa [hh] using h.1.halted
  have hawake : cpu.halted = false := by simpa using hh
  have hfaults : cpu.Faults m ↔ cpu.AtUndefined m :=
    ⟨fun h => h.undefined, fun h => ⟨hawake, hrun, h⟩⟩
  rw [hfaults, ← eval_current_eq_error_iff]
  cases hi : cpu.current.eval m with
  | error other => simp [step_eq hrun, advance, hawake, hi]
  | ok i => simp [eval_step hrun (eval_advance hawake hi)]

/-- A step that fails has written nothing. -/
theorem writesOf_of_faults (h : cpu.Faults m) : writesOf (cpu.step.trace m) = [] := by
  have hi : cpu.current.eval m = .error (cpu.faultAtPc m) :=
    eval_current_eq_error_iff.mpr ⟨h.undefined, rfl⟩
  simp [step_eq h.stopped, advance, h.halted, hi]

/-- Breakpoints neither add a fault to a step nor take one away. -/
theorem eval_stepUnlessHit_eq_error_iff {sets : Breakpoints} {ignored : Bool} {fault : Fault} :
    (cpu.stepUnlessHit sets ignored).eval m = .error fault ↔
      cpu.Faults m ∧ fault = cpu.faultAtPc m := by
  rw [← eval_step_eq_error_iff]
  obtain ⟨hit, hrun, hcaught⟩ | ⟨hrun, -⟩ := run_cases cpu sets ignored m
  · have heval : (cpu.stepUnlessHit sets ignored).eval m = .ok (.stoppedAt hit) :=
      congrArg Prod.fst hrun
    -- what was caught is an instruction, so that the step would not have failed
    obtain ⟨i, acc, hwatched, -⟩ := hcaught.addr
    have hstep := eval_step hwatched.stopped (eval_advance hwatched.halted hwatched.current)
    simp [heval, hstep]
  · have heval : (cpu.stepUnlessHit sets ignored).eval m = (cpu.step.eval m).map .stepped :=
      congrArg Prod.fst hrun
    rw [heval]
    cases cpu.step.eval m <;> simp [Except.map]

theorem exec_stepUnlessHit_of_faults (h : cpu.Faults m) (sets : Breakpoints) (ignored : Bool) :
    (cpu.stepUnlessHit sets ignored).exec m = m := by
  obtain ⟨hit, hrun, -⟩ | ⟨hrun, -⟩ := run_cases cpu sets ignored m
  · exact congrArg Prod.snd hrun
  · rw [show (cpu.stepUnlessHit sets ignored).exec m = cpu.step.exec m from congrArg Prod.snd hrun]
    exact Bus.exec_eq_self (writesOf_of_faults h)

end Cpu

/-! ### Going on after a fault -/

namespace InPlace

variable {M : Type} [Memory M] {m : M} {cpu : Cpu}

/-- Takes steps in place, whether they fail or not, and tells what came of each. -/
def steps : Nat → Cpu → Bus (List (Except Abort Unit) × Cpu)
  | 0, cpu => return ([], cpu)
  | n + 1, cpu => do
    let (result, cpu) ← on step cpu
    let (results, cpu) ← steps n cpu
    return (result :: results, cpu)

/-- What fails with the fault at PC, and then writes nothing, changes nothing in place. -/
theorem run_settle_eq_error_iff {α β : Type} {p : Bus (Except Fault α)} {read : α → β × Cpu}
    (hfails : ∀ fault, p.eval m = .error fault ↔ cpu.Faults m ∧ fault = cpu.faultAtPc m)
    (hwrites : cpu.Faults m → p.exec m = m) {abort : Abort} {after : Cpu} {left : M} :
    (settle cpu read <$> p).run m = ((.error abort, after), left) ↔
      cpu.Faults m ∧ abort = .fault (cpu.faultAtPc m) ∧ after = cpu ∧ left = m := by
  rw [Bus.run_eq, Bus.eval_map, Bus.exec_map, Prod.mk.injEq, settle_eq_error_iff]
  constructor
  · rintro ⟨⟨fault, hfault, rfl, rfl⟩, rfl⟩
    obtain ⟨h, rfl⟩ := (hfails fault).mp hfault
    exact ⟨h, rfl, rfl, hwrites h⟩
  · rintro ⟨h, rfl, rfl, rfl⟩
    exact ⟨⟨_, (hfails _).mpr ⟨h, rfl⟩, rfl, rfl⟩, hwrites h⟩

theorem run_step_eq_error_iff {abort : Abort} {after : Cpu} {left : M} :
    (on step cpu).run m = ((.error abort, after), left) ↔
      cpu.Faults m ∧ abort = .fault (cpu.faultAtPc m) ∧ after = cpu ∧ left = m := by
  rw [on_step]
  exact run_settle_eq_error_iff (fun fault => Cpu.eval_step_eq_error_iff)
    fun h => Bus.exec_eq_self (Cpu.writesOf_of_faults h)

theorem run_stepUnlessHit_eq_error_iff {sets : Breakpoints} {ignored : Bool} {abort : Abort}
    {after : Cpu} {left : M} :
    (on (stepUnlessHit sets ignored) cpu).run m = ((.error abort, after), left) ↔
      cpu.Faults m ∧ abort = .fault (cpu.faultAtPc m) ∧ after = cpu ∧ left = m := by
  rw [on_stepUnlessHit]
  exact run_settle_eq_error_iff (fun fault => Cpu.eval_stepUnlessHit_eq_error_iff)
    fun h => Cpu.exec_stepUnlessHit_of_faults h sets ignored

/-- However often it is tried again, such a step fails in the same way. -/
theorem steps_of_faults (h : cpu.Faults m) : ∀ n : Nat,
    (steps n cpu).run m =
        ((List.replicate n (.error (.fault (cpu.faultAtPc m))), cpu), m) ∧
      writesOf ((steps n cpu).trace m) = [] := by
  intro n
  induction n with
  | zero => exact ⟨rfl, rfl⟩
  | succ n ih =>
      obtain ⟨hrun, hwrites⟩ := ih
      have hfirst := run_step_eq_error_iff.mpr ⟨h, rfl, rfl, rfl⟩
      have heval : (on step cpu).eval m = (.error (.fault (cpu.faultAtPc m)), cpu) :=
        congrArg Prod.fst hfirst
      have hexec : (on step cpu).exec m = m := congrArg Prod.snd hfirst
      have htrace : writesOf ((on step cpu).trace m) = [] := by
        rw [on_step, Bus.trace_map]
        exact Cpu.writesOf_of_faults h
      have hrest : (steps n cpu).eval m = (List.replicate n _, cpu) := congrArg Prod.fst hrun
      have hleft : (steps n cpu).exec m = m := congrArg Prod.snd hrun
      constructor
      · rw [Bus.run_eq]
        simp [steps, heval, hexec, hrest, hleft, List.replicate_succ]
      · simp [steps, heval, hexec, htrace, hwrites]

end InPlace

namespace Cpu

variable {M : Type} [Memory M]

open InPlace (on)

/--
**The only thing that goes wrong is an undefined byte where an instruction should begin.**

A step, taken in place, fails exactly if the processor is neither halted nor stopped and the byte
at PC is undefined, whether PC moves past its opcodes or not.  It names the byte and its address,
it leaves the processor and memory as they were, and it fails again as often as it is tried.
Breakpoints make no difference.  To look at the instruction at PC, or to check it for
breakpoints, fails in all modes alike.  No operation is reached that cannot be carried out, since
that would be another way to fail.
-/
theorem fails_iff_undefined (cpu : Cpu) (m : M) :
    (∀ fault, cpu.step.eval m = .error fault ↔ cpu.Faults m ∧ fault = cpu.faultAtPc m) ∧
    (∀ abort after left, (on InPlace.step cpu).run m = ((.error abort, after), left) ↔
      cpu.Faults m ∧ abort = .fault (cpu.faultAtPc m) ∧ after = cpu ∧ left = m) ∧
    (cpu.Faults m → ∀ n, (InPlace.steps n cpu).run m =
        ((List.replicate n (.error (.fault (cpu.faultAtPc m))), cpu), m) ∧
      writesOf ((InPlace.steps n cpu).trace m) = []) ∧
    (∀ sets ignored abort after left,
      (on (InPlace.stepUnlessHit sets ignored) cpu).run m = ((.error abort, after), left) ↔
        cpu.Faults m ∧ abort = .fault (cpu.faultAtPc m) ∧ after = cpu ∧ left = m) ∧
    (∀ fault, cpu.current.eval m = .error fault ↔
      cpu.AtUndefined m ∧ fault = cpu.faultAtPc m) ∧
    (∀ sets ignored fault, (cpu.check sets ignored).eval m = .error fault ↔
      cpu.AtUndefined m ∧ fault = cpu.faultAtPc m) := by
  refine ⟨fun fault => eval_step_eq_error_iff,
    fun abort after left => InPlace.run_step_eq_error_iff, fun h => InPlace.steps_of_faults h,
    fun sets ignored abort after left => InPlace.run_stepUnlessHit_eq_error_iff,
    fun fault => eval_current_eq_error_iff, fun sets ignored fault => ?_⟩
  rw [eval_check_eq_error_iff, eval_current_eq_error_iff]

end Cpu

end Sm83
