/-
A step in two phases.

First the processor advances: it executes the instruction at PC, or idles if it is halted.
Then it looks whether an interrupt is to be let in, unless it is halted still.  `step_eq`
says that a step is nothing but these two phases, one after the other, so that what comes
before an interrupt and what the interrupt does can be told apart.

Advancing is then described field by field.  What an instruction asks of the processor is
answered by `respond`, a function of the processor and of whether an interrupt is pending;
everything else the instruction does is its outcome.
-/
import Sm83.Cpu
import Sm83.Proofs.Decode
import Sm83.Proofs.Execute

namespace Sm83

variable {M : Type} [Memory M]

namespace Interrupt

/-! ### The interrupt registers -/

@[simp] theorem trace_pending (m : M) :
    pending.trace m = [.read enableAddr, .read requestAddr] := rfl

theorem eval_pending (m : M) : pending.eval m =
    Memory.read m enableAddr &&& Memory.read m requestAddr &&& sourceMask := rfl

@[simp] theorem exec_pending (m : M) : pending.exec m = m := rfl

end Interrupt

/-- The switch while the instruction after EI is executed. -/
def MasterEnable.armed : MasterEnable := ⟨false, 1⟩

/-- What an operation does to the interrupt switch, before it counts as retired. -/
def Op.steer (op : Op) (master : MasterEnable) : MasterEnable :=
  match op with
  | .di => .off
  | .ei => master.arm
  | .reti => .set true
  | _ => master

namespace Cpu

variable {cpu q after : Cpu} {m : M} {i : Instruction} {fault : Fault}

/-! ### Fetching -/

/-- The address of the byte after the one at PC, as the next fetch takes it. -/
def secondAddr (cpu : Cpu) : Word := if cpu.haltBug then cpu.regs.pc else cpu.regs.pc + 1

/-- The three bytes that the next fetch reads. -/
def window (cpu : Cpu) (m : M) : Window :=
  ⟨Memory.read m cpu.regs.pc, Memory.read m cpu.secondAddr, Memory.read m (cpu.secondAddr + 1)⟩

theorem withCurrent_eq {α : Type} (cpu : Cpu) (rest : Except Fault Instruction → Bus α) :
    cpu.withCurrent rest = cpu.current >>= rest := rfl

@[simp] theorem trace_current (cpu : Cpu) (m : M) : cpu.current.trace m =
    [.read cpu.regs.pc, .read cpu.secondAddr, .read (cpu.secondAddr + 1)] := rfl

theorem eval_current (cpu : Cpu) (m : M) :
    cpu.current.eval m = Instruction.decode (cpu.window m) cpu.regs.pc := rfl

@[simp] theorem exec_current (cpu : Cpu) (m : M) : cpu.current.exec m = m := rfl

theorem addr_of_current (hi : cpu.current.eval m = .ok i) : i.addr = cpu.regs.pc :=
  Instruction.addr_of_decode hi

theorem executable_of_current (hi : cpu.current.eval m = .ok i) : i.op.Executable :=
  Instruction.executable_of_decode hi

/-- Control goes on to the next instruction, less the byte that is read again in a halt bug. -/
theorem fallThrough_eq (hi : cpu.current.eval m = .ok i) :
    cpu.fallThrough i.op = if cpu.haltBug then i.next - 1 else i.next := by
  rw [Instruction.next, addr_of_current hi]
  rfl

/-- A processor at the address where cartridges start, with its stack away from it. -/
def atEntry : Cpu := ofRegisters { Registers.zeroed with pc := 0x100, sp := 0xC000 }

/-! ### The two phases -/

/-- All that a step does before an interrupt can be let in. -/
def advance (cpu : Cpu) : Bus (Except Fault Cpu) :=
  if cpu.halted then do
    let pending := (← Interrupt.pending) != 0
    return .ok { cpu with cycles := cpu.cycles + idleCycles, halted := !pending }
  else do
    match ← cpu.current with
    | .error fault => return .error fault
    | .ok i => return .ok (← cpu.perform i.op i.literal)

/-- Lets an interrupt in, unless the processor is halted. -/
def poll (cpu : Cpu) : Bus Cpu := if cpu.halted then return cpu else cpu.service

/-- A step advances and then lets an interrupt in. -/
theorem step_eq (hs : cpu.stopped = false) : cpu.step = cpu.advance >>= fun
    | .error fault => pure (.error fault)
    | .ok q => do return .ok (← q.poll) := by
  unfold step advance
  rw [if_neg (by simp [hs])]
  by_cases hh : cpu.halted = true
  · rw [if_pos hh, if_pos hh]
    simp only [idle, poll, bind_assoc, pure_bind]
    refine congrArg _ (funext fun pending => ?_)
    by_cases hp : (pending != 0) = true
    · simp [hp]
    · simp [hp, hh]
  · rw [if_neg hh, if_neg hh, withCurrent_eq, bind_assoc]
    refine congrArg _ (funext fun decoded => ?_)
    cases decoded with
    | error fault => rfl
    | ok i =>
        simp only [poll, bind_assoc, pure_bind]
        refine congrArg _ (funext fun q => ?_)
        by_cases hq : q.halted = true <;> simp [hq]

theorem eval_step (hs : cpu.stopped = false) (hq : cpu.advance.eval m = .ok q) :
    cpu.step.eval m = .ok (q.poll.eval (cpu.advance.exec m)) := by
  simp [step_eq hs, hq]

theorem trace_step (hs : cpu.stopped = false) (hq : cpu.advance.eval m = .ok q) :
    cpu.step.trace m = cpu.advance.trace m ++ q.poll.trace (cpu.advance.exec m) := by
  simp [step_eq hs, hq]

theorem exec_step (hs : cpu.stopped = false) (hq : cpu.advance.eval m = .ok q) :
    cpu.step.exec m = q.poll.exec (cpu.advance.exec m) := by
  simp [step_eq hs, hq]

/-- A step that does not fault has advanced. -/
theorem advance_of_step (hs : cpu.stopped = false) (h : cpu.step.eval m = .ok after) :
    ∃ q, cpu.advance.eval m = .ok q ∧ after = q.poll.eval (cpu.advance.exec m) := by
  cases hq : cpu.advance.eval m with
  | error fault => simp [step_eq hs, hq] at h
  | ok q =>
      rw [eval_step hs hq] at h
      exact ⟨q, rfl, (Except.ok.inj h).symm⟩

/-! ### Advancing while halted -/

theorem eval_advance_halted (hh : cpu.halted = true) : cpu.advance.eval m =
    .ok { cpu with
      cycles := cpu.cycles + idleCycles
      halted := !(Interrupt.pending.eval m != 0) } := by
  simp [advance, hh]

theorem trace_advance_halted (hh : cpu.halted = true) :
    cpu.advance.trace m = [.read Interrupt.enableAddr, .read Interrupt.requestAddr] := by
  simp [advance, hh]

/-! ### Advancing by an instruction -/

theorem eval_advance (hh : cpu.halted = false) (hi : cpu.current.eval m = .ok i) :
    cpu.advance.eval m = .ok ((cpu.perform i.op i.literal).eval m) := by
  simp [advance, hh, hi]

theorem trace_advance (hh : cpu.halted = false) (hi : cpu.current.eval m = .ok i) :
    cpu.advance.trace m = cpu.current.trace m ++ (cpu.perform i.op i.literal).trace m := by
  simp [advance, hh, hi]

theorem exec_advance (hh : cpu.halted = false) (hi : cpu.current.eval m = .ok i) :
    cpu.advance.exec m = (cpu.perform i.op i.literal).exec m := by
  simp [advance, hh, hi]

/-- A running processor advances only by an instruction that decodes. -/
theorem current_of_advance (hh : cpu.halted = false) (hq : cpu.advance.eval m = .ok q) :
    ∃ i, cpu.current.eval m = .ok i ∧ q = (cpu.perform i.op i.literal).eval m := by
  cases hi : cpu.current.eval m with
  | error fault => simp [advance, hh, hi] at hq
  | ok i =>
      rw [eval_advance hh hi] at hq
      exact ⟨i, rfl, (Except.ok.inj hq).symm⟩

/-! ### What an instruction asks for -/

/-- The processor after it has done what an instruction asked for. -/
def respond (cpu : Cpu) (pending : Bool) : Effect → Cpu
  | .disableInterrupts => { cpu with master := .off }
  | .enableInterrupts => { cpu with master := cpu.master.arm }
  | .returnFromInterrupt => { cpu with master := .set true }
  | .stop => { cpu with stopped := true }
  | .halt =>
    if !pending then { cpu with halted := true }
    else if cpu.master.on then cpu
    else if cpu.master.isPending then { cpu with regs := { cpu.regs with pc := cpu.regs.pc - 1 } }
    else { cpu with haltBug := true }

theorem eval_apply (cpu : Cpu) (effect : Effect) (m : M) :
    (cpu.apply effect).eval m = cpu.respond (Interrupt.pending.eval m != 0) effect := by
  cases effect with
  | halt =>
      simp only [apply, respond, Bus.eval_bind, Interrupt.exec_pending]
      split
      · rfl
      · split
        · rfl
        · split <;> rfl
  | _ => rfl

theorem trace_apply (cpu : Cpu) (effect : Effect) (m : M) : (cpu.apply effect).trace m =
    if effect = .halt then [.read Interrupt.enableAddr, .read Interrupt.requestAddr] else [] := by
  cases effect with
  | halt =>
      simp only [apply, Bus.trace_bind, Interrupt.trace_pending, Interrupt.exec_pending]
      split
      · rfl
      · split
        · rfl
        · split <;> rfl
  | _ => rfl

@[simp] theorem exec_apply (cpu : Cpu) (effect : Effect) (m : M) :
    (cpu.apply effect).exec m = m := by
  refine Bus.exec_eq_self ?_
  rw [trace_apply]
  split <;> rfl

/-- The outcome of an operation of this processor, with its literal. -/
def outcome (cpu : Cpu) (op : Op) (literal : Word) (m : M) : Outcome :=
  (op.execute literal cpu.regs (cpu.fallThrough op)).eval m

theorem trace_perform (cpu : Cpu) (op : Op) (literal : Word) (m : M) :
    (cpu.perform op literal).trace m =
      (op.execute literal cpu.regs (cpu.fallThrough op)).trace m ++
        if op = .halt then [.read Interrupt.enableAddr, .read Interrupt.requestAddr] else [] := by
  simp only [perform, Bus.trace_bind, Op.execute_effect, ← Op.effect?_eq_halt_iff]
  congr 1
  cases heffect : op.effect? with
  | none => simp
  | some effect => simp [trace_apply]

theorem exec_perform (cpu : Cpu) (op : Op) (literal : Word) (m : M) :
    (cpu.perform op literal).exec m =
      (op.execute literal cpu.regs (cpu.fallThrough op)).exec m := by
  simp only [perform, Bus.exec_bind, Op.execute_effect]
  cases op.effect? <;> simp

/-! ### What an instruction leaves

Only HALT looks at memory and at the switch to decide what becomes of the processor, so it
is set apart from the other operations.
-/

section Fields

variable (cpu : Cpu) {op : Op} (literal : Word) (m : M)

/-- What an instruction other than HALT leaves. -/
theorem eval_perform_of_ne_halt (hop : op ≠ .halt) : (cpu.perform op literal).eval m =
    { cpu.commit op.cost (cpu.outcome op literal m) with
      master := (op.steer cpu.master).retire
      stopped := cpu.stopped || op == .stop } := by
  simp only [perform, outcome, Bus.eval_bind, Op.execute_effect]
  cases op with
  | halt => exact absurd rfl hop
  | stop => simp [Op.effect?, eval_apply, respond, Op.steer, commit]
  | _ => simp [Op.effect?, eval_apply, respond, Op.steer, commit]

/-- What HALT leaves. -/
theorem eval_perform_halt : (cpu.perform .halt literal).eval m =
    let q := (cpu.commit (Op.cost .halt) (.ask (cpu.fallThrough .halt) cpu.regs .halt)).respond
      (Interrupt.pending.eval m != 0) .halt
    { q with master := q.master.retire } := by
  show (do
    let q ← (cpu.commit (Op.cost .halt) (.ask (cpu.fallThrough .halt) cpu.regs .halt)).apply .halt
    pure { q with master := q.master.retire } : Bus Cpu).eval m = _
  rw [Bus.eval_bind, eval_apply, Bus.eval_pure]

theorem perform_master :
    ((cpu.perform op literal).eval m).master = (op.steer cpu.master).retire := by
  by_cases hop : op = .halt
  · subst hop
    simp only [eval_perform_halt, respond]
    repeat' split
    all_goals rfl
  · rw [eval_perform_of_ne_halt _ _ _ hop]

theorem perform_stopped :
    ((cpu.perform op literal).eval m).stopped = (cpu.stopped || op == .stop) := by
  by_cases hop : op = .halt
  · subst hop
    simp only [eval_perform_halt, respond]
    repeat' split
    all_goals simp [commit]
  · rw [eval_perform_of_ne_halt _ _ _ hop]

theorem perform_halted : ((cpu.perform op literal).eval m).halted =
    (cpu.halted || (op == .halt && Interrupt.pending.eval m == 0)) := by
  by_cases hop : op = .halt
  · subst hop
    simp only [eval_perform_halt, respond]
    repeat' split
    all_goals simp_all [commit]
  · simp [eval_perform_of_ne_halt _ _ _ hop, hop, commit]

theorem perform_haltBug : ((cpu.perform op literal).eval m).haltBug =
    (op == .halt && Interrupt.pending.eval m != 0 && !cpu.master.on && !cpu.master.isPending) := by
  by_cases hop : op = .halt
  · subst hop
    simp only [eval_perform_halt, respond]
    repeat' split
    all_goals simp_all [commit]
  · simp [eval_perform_of_ne_halt _ _ _ hop, hop, commit]

/-- Control goes where the outcome says, but back to a HALT that is left for an interrupt. -/
theorem perform_regs : ((cpu.perform op literal).eval m).regs =
    { (cpu.outcome op literal m).regs with
      pc :=
        if op = .halt ∧ cpu.master.on = false ∧ cpu.master.isPending = true ∧
            Interrupt.pending.eval m ≠ 0 then
          (cpu.outcome op literal m).next - 1
        else (cpu.outcome op literal m).next } := by
  by_cases hop : op = .halt
  · subst hop
    have houtcome : cpu.outcome .halt literal m = .ask (cpu.fallThrough .halt) cpu.regs .halt := rfl
    simp only [eval_perform_halt, respond, houtcome]
    repeat' split
    all_goals simp_all [commit, Outcome.ask]
  · simp [eval_perform_of_ne_halt _ _ _ hop, hop, commit]

end Fields

end Cpu

end Sm83
