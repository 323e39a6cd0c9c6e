/-
What a step depends on.

Once the instruction is fetched, a running processor reads the data of the instruction and,
besides those, nothing but the two interrupt registers.  So two memories that agree on these
addresses cannot be told apart by what follows the fetch: it moves the same bytes on both,
has the same result, and leaves memories that agree there again.
-/
import Sm83.Proofs.Dispatch

namespace Sm83

namespace Cpu

section AnyMemory

variable {M : Type} [Memory M] {cpu : Cpu} {m : M} {i : Instruction}

/-- The bytes that an instruction of this processor moves as its data. -/
def data (cpu : Cpu) (i : Instruction) (m : M) : List Transfer :=
  (i.op.execute i.literal cpu.regs (cpu.fallThrough i.op)).trace m

/-- What is left of a step when the instruction is fetched. -/
def afterFetch (cpu : Cpu) (i : Instruction) : Bus Cpu := do
  let q ← cpu.perform i.op i.literal
  q.poll

theorem eval_step_of_current (hh : cpu.halted = false) (hs : cpu.stopped = false)
    (hi : cpu.current.eval m = .ok i) : cpu.step.eval m = .ok ((cpu.afterFetch i).eval m) := by
  rw [eval_step hs (eval_advance hh hi), exec_advance hh hi, afterFetch, Bus.eval_bind]

theorem trace_step_of_current (hh : cpu.halted = false) (hs : cpu.stopped = false)
    (hi : cpu.current.eval m = .ok i) :
    cpu.step.trace m = cpu.current.trace m ++ (cpu.afterFetch i).trace m := by
  rw [trace_step hs (eval_advance hh hi), trace_advance hh hi, exec_advance hh hi, afterFetch,
    Bus.trace_bind, List.append_assoc]

theorem exec_step_of_current (hh : cpu.halted = false) (hs : cpu.stopped = false)
    (hi : cpu.current.eval m = .ok i) : cpu.step.exec m = (cpu.afterFetch i).exec m := by
  rw [exec_step hs (eval_advance hh hi), exec_advance hh hi, afterFetch, Bus.exec_bind]

/-- After the fetch, data and the interrupt registers are read and nothing else. -/
theorem readsOf_afterFetch (cpu : Cpu) (i : Instruction) (m : M) :
    ∀ addr ∈ readsOf ((cpu.afterFetch i).trace m), addr ∈ readsOf (cpu.data i m) ∨
      addr = Interrupt.enableAddr ∨ addr = Interrupt.requestAddr := by
  intro addr haddr
  rw [afterFetch, Bus.trace_bind, readsOf_append, List.mem_append] at haddr
  rcases haddr with hperform | hpoll
  · rw [trace_perform, readsOf_append, List.mem_append] at hperform
    rcases hperform with hdata | hhalt
    · exact Or.inl hdata
    · refine Or.inr ?_
      split at hhalt
      · simpa using hhalt
      · simp at hhalt
  · exact Or.inr (readsOf_poll _ _ addr hpoll)

/-- What follows the fetch ends in a halt bug only if the instruction does. -/
theorem haltBug_afterFetch (cpu : Cpu) (i : Instruction) (m : M) :
    ((cpu.afterFetch i).eval m).haltBug = (i.op == .halt && Interrupt.pending.eval m != 0 &&
      !cpu.master.on && !cpu.master.isPending) := by
  rw [afterFetch, Bus.eval_bind, haltBug_poll, perform_haltBug]

end AnyMemory

/-- Memories that agree on the data and the interrupt registers are alike after the fetch. -/
theorem afterFetch_agree {s : Word → Prop} {m m' : FlatMemory} (h : FlatMemory.AgreeOn s m m')
    (henable : s Interrupt.enableAddr) (hrequest : s Interrupt.requestAddr) {cpu : Cpu}
    {i : Instruction} (hdata : ∀ addr ∈ readsOf (cpu.data i m), s addr) :
    (cpu.afterFetch i).trace m' = (cpu.afterFetch i).trace m ∧
      (cpu.afterFetch i).eval m' = (cpu.afterFetch i).eval m ∧
      FlatMemory.AgreeOn s ((cpu.afterFetch i).exec m) ((cpu.afterFetch i).exec m') := by
  refine h.run fun addr haddr => ?_
  rcases readsOf_afterFetch cpu i m addr haddr with hmem | rfl | rfl
  · exact hdata addr hmem
  · exact henable
  · exact hrequest

end Cpu

end Sm83
