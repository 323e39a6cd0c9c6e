/-
Operations on a processor and its memory.

Whoever holds both takes steps, requests interrupts and writes bytes and words.  A list of such
operations is one program on the bus, whose result tells what came of each operation and what the
processor was after it.  An operation that fails does not keep the next one from being carried out.

The first operations of a list move the first of its bytes.  So what holds of all the writes of a
list of operations holds of the writes up to any point in it.
-/
import Sm83.Proofs.InPlace

namespace Sm83

/-- What is done with a processor and the memory it sits on. -/
inductive Operation where
  | step
  | stepUnlessHit (sets : Breakpoints) (ignored : Bool)
  | request (irq : Interrupt)
  | writeByte (addr : Word) (value : Byte)
  | writeWord (addr value : Word)

namespace Operation

/-- Carries out an operation; the result is the hit, if a breakpoint was in its way. -/
def perform : Operation → InPlace (Option Hit)
  | step => do
    InPlace.step
    return none
  | stepUnlessHit sets ignored => InPlace.stepUnlessHit sets ignored
  | request irq => do
    (irq.request : Bus Unit)
    return none
  | writeByte addr value => do
    (Bus.writeByte addr value : Bus Unit)
    return none
  | writeWord addr value => do
    (Bus.writeWord addr value : Bus Unit)
    return none

/-! ### What an operation is on the bus -/

@[simp] theorem on_step (cpu : Cpu) : InPlace.on step.perform cpu =
    InPlace.settle cpu (fun after => (none, after)) <$> cpu.step := by
  simp only [perform, InPlace.on_bind, InPlace.on_step, InPlace.on_pure, bind_map_left]
  rw [map_eq_pure_bind]
  refine congrArg _ (funext fun result => ?_)
  cases result <;> rfl

@[simp] theorem on_stepUnlessHit (sets : Breakpoints) (ignored : Bool) (cpu : Cpu) :
    InPlace.on (stepUnlessHit sets ignored).perform cpu =
      InPlace.settle cpu (InPlace.readProgress cpu) <$> cpu.stepUnlessHit sets ignored :=
  InPlace.on_stepUnlessHit sets ignored cpu

@[simp] theorem on_request (irq : Interrupt) (cpu : Cpu) :
    InPlace.on (request irq).perform cpu = (fun _ => (.ok none, cpu)) <$> irq.request := by
  simp [perform, Except.map]

@[simp] theorem on_writeByte (addr : Word) (value : Byte) (cpu : Cpu) :
    InPlace.on (writeByte addr value).perform cpu =
      (fun _ => (.ok none, cpu)) <$> Bus.writeByte addr value := by
  simp [perform, Except.map]

@[simp] theorem on_writeWord (addr value : Word) (cpu : Cpu) :
    InPlace.on (writeWord addr value).perform cpu =
      (fun _ => (.ok none, cpu)) <$> Bus.writeWord addr value := by
  simp [perform, Except.map]

/-! ### Operations in order -/

/-- Carries out operations in order; tells what came of each, and the processor after it. -/
def history : List Operation → Cpu → Bus (List (Except Abort (Option Hit) × Cpu))
  | [], _ => return []
  | op :: rest, cpu => do
    let result ← InPlace.on op.perform cpu
    let results ← history rest result.2
    return result :: results

variable {M : Type} [Memory M]

/-- An operation moves its bytes, and those after it move theirs on what it leaves. -/
theorem trace_history_cons (op : Operation) (rest : List Operation) (cpu : Cpu) (m : M) :
    (history (op :: rest) cpu).trace m =
      (InPlace.on op.perform cpu).trace m ++
        (history rest ((InPlace.on op.perform cpu).eval m).2).trace
          ((InPlace.on op.perform cpu).exec m) := by
  simp only [history, Bus.trace_bind, Bus.trace_pure, List.append_nil]

/-- The first operations move the first bytes. -/
theorem trace_take (ops : List Operation) (n : Nat) :
    ∀ (cpu : Cpu) (m : M), (history (ops.take n) cpu).trace m <+: (history ops cpu).trace m := by
  induction ops generalizing n with
  | nil =>
      intro cpu m
      simp only [List.take_nil, List.prefix_rfl]
  | cons op rest ih =>
      intro cpu m
      cases n with
      | zero => exact List.nil_prefix
      | succ n =>
          rw [List.take_succ_cons, trace_history_cons, trace_history_cons]
          exact (List.prefix_append_right_inj _).mpr (ih n _ _)

/-- What is written up to some point of a list of operations is written in the whole of it. -/
theorem mem_writes_of_take {ops : List Operation} {n : Nat} {cpu : Cpu} {m : M}
    {w : Word × Byte} (h : w ∈ writesOf ((history (ops.take n) cpu).trace m)) :
    w ∈ writesOf ((history ops cpu).trace m) :=
  ((trace_take ops n cpu m).filterMap _).subset h

end Operation

end Sm83
