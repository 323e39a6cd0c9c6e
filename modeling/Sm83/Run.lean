/-
Running the processor for many steps.
-/
import Sm83.Cpu

namespace Sm83

/-- What a run leaves behind. -/
structure RunResult (M : Type) where
  cpu : Cpu
  memory : M
  steps : Nat
  /-- What ended the run, if it was a fault. -/
  fault : Option Fault

namespace Cpu

variable {M : Type} [Memory M]

/-- Takes steps after `steps` earlier ones; see `run`. -/
@[specialize] def runFrom (steps : Nat) : Nat → Cpu → M → RunResult M
  | 0, cpu, memory => { cpu, memory, steps, fault := none }
  | limit + 1, cpu, memory =>
    if cpu.stopped then { cpu, memory, steps, fault := none }
    else
      match cpu.step.run memory with
      | (.ok cpu, memory) => runFrom (steps + 1) limit cpu memory
      | (.error fault, memory) => { cpu, memory, steps, fault := some fault }

/-- Takes up to `limit` steps, and fewer if the processor stops or faults. -/
@[specialize] def run (cpu : Cpu) (memory : M) (limit : Nat) : RunResult M :=
  runFrom 0 limit cpu memory

end Cpu

end Sm83
