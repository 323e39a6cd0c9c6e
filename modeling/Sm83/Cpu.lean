/-
The processor.

One step executes one instruction, or idles while the processor is halted, and then
lets an interrupt in if the master switch allows it.  A step is a program on the bus
with the new processor as its result; it fails only on an undefined opcode, before it
has changed anything.

Halting with interrupts pending and the master switch off does not halt: the processor
then reads the next opcode without moving past it, so that one byte is read twice.
-/
import Sm83.Execute
import Sm83.Instruction
import Sm83.Interrupt

namespace Sm83

structure Cpu where
  regs : Registers
  /-- Clock cycles since the processor was made; counts are meant to stay below 2^64. -/
  cycles : Nat
  master : MasterEnable
  halted : Bool
  stopped : Bool
  /-- The next opcode is read without moving past it. -/
  haltBug : Bool
  deriving DecidableEq, Repr

namespace Cpu

/-- Clock cycles that pass in a step of a halted processor. -/
def idleCycles : Nat := 4

/-- Clock cycles that entering an interrupt handler takes. -/
def dispatchCycles : Nat := 20

/-- A running processor with interrupts off. -/
def ofRegisters (regs : Registers) : Cpu :=
  { regs, cycles := 0, master := .off, halted := false, stopped := false, haltBug := false }

/-- The processor as the start-up code leaves it. -/
def powerOn : Cpu := ofRegisters .powerOn

def setIme (cpu : Cpu) (value : Bool) : Cpu := { cpu with master := .set value }

def resume (cpu : Cpu) : Cpu := { cpu with stopped := false }

/-- The low sixteen bits of the cycle count. -/
def clock (cpu : Cpu) : Word := UInt16.ofNat cpu.cycles

/-- Registers and cycle count in one line. -/
def describe (cpu : Cpu) : String :=
  let r := cpu.regs
  "AF:" ++ Hex.word r.af ++ " BC:" ++ Hex.word r.bc ++ " DE:" ++ Hex.word r.de ++
    " HL:" ++ Hex.word r.hl ++ " PC:" ++ Hex.word r.pc ++ " SP:" ++ Hex.word r.sp ++
    " CY:" ++ toString cpu.cycles

/-! ### Fetching -/

/-- Reads the bytes at three addresses and goes on with them. -/
def withWindow {α : Type} (first second third : Word) (rest : Window → Bus α) : Bus α :=
  .read first fun a => .read second fun b => .read third fun c => rest ⟨a, b, c⟩

/-- Reads and decodes the instruction at an address. -/
def fetch (addr : Word) : Bus (Except Fault Instruction) :=
  withWindow addr (addr + 1) (addr + 2) fun w => .done (Instruction.decode w addr)

/--
Reads and decodes the instruction that the next step would execute, and goes on with it.

When PC does not move past the opcode, the byte there is read once as the opcode and once
more as what follows it.
-/
def withCurrent {α : Type} (cpu : Cpu) (rest : Except Fault Instruction → Bus α) : Bus α :=
  let pc := cpu.regs.pc
  let second := if cpu.haltBug then pc else pc + 1
  withWindow pc second (second + 1) fun w => rest (Instruction.decode w pc)

/-- Reads and decodes the instruction that the next step would execute. -/
def current (cpu : Cpu) : Bus (Except Fault Instruction) := cpu.withCurrent .done

/-! ### Interrupts -/

/-- Enters the handler of a source, with PC as the return address. -/
def enter (cpu : Cpu) (irq : Interrupt) : Bus Cpu := do
  irq.acknowledge
  let regs ← cpu.regs.push cpu.regs.pc
  return { cpu with
    regs := { regs with pc := irq.vector }
    cycles := cpu.cycles + dispatchCycles
    master := .off }

/-- Enters the handler of the most urgent pending source, if the master switch is on. -/
def service (cpu : Cpu) : Bus Cpu := do
  if cpu.master.on then
    match Interrupt.highest (← Interrupt.pending) with
    | some irq => cpu.enter irq
    | none => return cpu
  else return cpu

/-! ### One step -/

/-- Does what an instruction asked for. -/
def apply (cpu : Cpu) : Effect → Bus Cpu
  | .disableInterrupts => return { cpu with master := .off }
  | .enableInterrupts => return { cpu with master := cpu.master.arm }
  | .returnFromInterrupt => return { cpu with master := .set true }
  | .stop => return { cpu with stopped := true }
  | .halt => do
    let pending := (← Interrupt.pending) != 0
    if !pending then return { cpu with halted := true }
    else if cpu.master.on then return cpu
    else if cpu.master.isPending then
      -- The switch turns on as this instruction retires, and the handler returns to it.
      return { cpu with regs := { cpu.regs with pc := cpu.regs.pc - 1 } }
    else return { cpu with haltBug := true }

/-- The processor with an outcome stored in it and its cost paid. -/
def commit (cpu : Cpu) (cost : Cost) (outcome : Outcome) : Cpu :=
  { cpu with
    regs := { outcome.regs with pc := outcome.next }
    cycles := cpu.cycles + (if outcome.taken then cost.taken else cost.base)
    haltBug := false }

/-- Where control goes after an operation at PC by default: PC moves one byte less in a halt bug. -/
def fallThrough (cpu : Cpu) (op : Op) : Word :=
  let next := cpu.regs.pc + UInt16.ofNat op.length
  if cpu.haltBug then next - 1 else next

/-- Executes an operation with its literal, without the interrupt that may follow it. -/
def perform (cpu : Cpu) (op : Op) (literal : Word) : Bus Cpu := do
  let outcome ← op.execute literal cpu.regs (cpu.fallThrough op)
  let cpu := cpu.commit op.cost outcome
  let cpu ← match outcome.effect with
    | some effect => cpu.apply effect
    | none => pure cpu
  return { cpu with master := cpu.master.retire }

/-- Lets time pass for a halted processor, which wakes up when an interrupt is pending. -/
def idle (cpu : Cpu) : Bus Cpu := do
  let cpu := { cpu with cycles := cpu.cycles + idleCycles }
  if (← Interrupt.pending) != 0 then Cpu.service { cpu with halted := false } else return cpu

/-- Executes one instruction, or idles. -/
def step (cpu : Cpu) : Bus (Except Fault Cpu) := do
  if cpu.stopped then return .ok cpu
  else if cpu.halted then return .ok (← cpu.idle)
  else
    cpu.withCurrent fun
      | .error fault => return .error fault
      | .ok i => do
        let cpu ← cpu.perform i.op i.literal
        if cpu.halted then return .ok cpu else return .ok (← cpu.service)

end Cpu

end Sm83
