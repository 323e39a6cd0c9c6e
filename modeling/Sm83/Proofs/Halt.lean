/-
HALT.

A HALT that finds nothing pending puts the processor to sleep.  Asleep it lets time pass, for as
long as nothing is pending, whatever else happens to memory; the first step that finds something
pending wakes it.  If the switch has turned on by then the handler is entered, with the address
after the HALT to return to; else the processor goes on there.

A HALT that finds something pending does not put the processor to sleep.  With the switch on, the
handler is entered at once.  With an EI in flight it is entered at once too, but returns to the HALT
itself.  With the switch off and no EI in flight nothing is entered: the halt bug reads one
byte twice, in the next instruction and in no other.
-/
import Sm83.Proofs.EnableDelay
import Sm83.Proofs.RepeatedByte
import Sm83.Proofs.StaticFlow

namespace Sm83

/-- Once an instruction that leaves the switch alone retires, a switch about to turn on is on. -/
theorem MasterEnable.Settled.retire_on {switch : MasterEnable} (h : switch.Settled) :
    switch.retire.on = (switch.on || switch.isPending) := by
  rcases h with rfl | rfl | rfl <;> rfl

namespace Cpu

variable {M : Type} [Memory M] {cpu q : Cpu} {m : M} {i : Instruction}

/-! ### Steps that do nothing but enter a handler -/

/-- The step does nothing but enter the handler of `irq`, which is to return to `home`. -/
structure Interrupted (cpu : Cpu) (m : M) (irq : Interrupt) (home : Word) (after : Cpu) :
    Prop where
  step : cpu.step.eval m = .ok after
  pending : Interrupt.pending.eval m &&& irq.bit ≠ 0
  urgent : ∀ other : Interrupt, Interrupt.pending.eval m &&& other.bit ≠ 0 → irq.bit ≤ other.bit
  writes : writesOf (cpu.step.trace m) =
    [(Interrupt.requestAddr, Memory.read m Interrupt.requestAddr &&& ~~~irq.bit),
      (cpu.regs.sp - 1, Word.high home), (cpu.regs.sp - 2, Word.low home)]
  regs : after.regs = { cpu.regs with sp := cpu.regs.sp - 2, pc := irq.vector }
  cycles : after.cycles = cpu.cycles + idleCycles + dispatchCycles
  master : after.master = .off
  running : after.Running

/-- A processor that advances without a write, with the switch on, enters the handler. -/
theorem interrupted_of_advance {home : Word} (hs : cpu.stopped = false)
    (hq : cpu.advance.eval m = .ok q) (hwrites : writesOf (cpu.advance.trace m) = [])
    (hregs : q.regs = { cpu.regs with pc := home }) (hcycles : q.cycles = cpu.cycles + idleCycles)
    (hrun : q.Running) (hon : q.master.on = true) (hp : Interrupt.pending.eval m ≠ 0) :
    ∃ irq after, cpu.Interrupted m irq home after := by
  have hexec : cpu.advance.exec m = m := Bus.exec_eq_self hwrites
  obtain ⟨irq, henters⟩ := poll_enters hrun.halted hon hp
  refine ⟨irq, q.poll.eval m, ?_, henters.pending, henters.urgent, ?_, ?_, ?_, ?_, ?_⟩
  · rw [eval_step hs hq, hexec]
  · rw [trace_step hs hq, writesOf_append, hwrites, hexec, henters.writes, hregs]
    rfl
  · rw [henters.cpu, hregs]
  · rw [henters.cpu, hcycles]
  · rw [henters.cpu]
  · exact ⟨henters.running, by rw [henters.cpu]; exact hrun.stopped,
      by rw [henters.cpu]; exact hrun.haltBug⟩

/-- What a step leaves is what letting an interrupt in leaves, if nothing was written before. -/
theorem run_step {after : Cpu} {left : M} (hs : cpu.stopped = false)
    (hq : cpu.advance.eval m = .ok q) (hwrites : writesOf (cpu.advance.trace m) = [])
    (hpoll : q.poll.run m = (after, left)) : cpu.step.run m = (.ok after, left) := by
  rw [Bus.run_eq, Prod.mk.injEq] at hpoll
  rw [Bus.run_eq, eval_step hs hq, exec_step hs hq, Bus.exec_eq_self hwrites, hpoll.1, hpoll.2]

theorem run_poll_of_passes
    (hpass : q.halted = true ∨ q.master.on = false ∨ Interrupt.pending.eval m = 0) :
    q.poll.run m = (q, m) := by
  obtain ⟨heval, hwrites⟩ := poll_passes hpass
  rw [Bus.run_eq, heval, Bus.exec_eq_self hwrites]

/-! ### The step of HALT -/

/-- The processor past a HALT, which has been paid for and counted. -/
def pastHalting (cpu : Cpu) : Cpu :=
  { cpu with
    regs := { cpu.regs with pc := cpu.regs.pc + 1 }
    cycles := cpu.cycles + idleCycles
    master := cpu.master.retire }

/-- What becomes of a HALT, by what is pending and what the switch is like. -/
theorem eval_advance_halt (hrun : cpu.Running) (hi : cpu.current.eval m = .ok i)
    (hop : i.op = .halt) : cpu.advance.eval m = .ok (
      if Interrupt.pending.eval m = 0 then { cpu.pastHalting with halted := true }
      else if cpu.master.on then cpu.pastHalting
      else if cpu.master.isPending then { cpu.pastHalting with regs := cpu.regs }
      else { cpu.pastHalting with haltBug := true }) := by
  have hbug : cpu.haltBug = false := hrun.haltBug
  have hnext : cpu.fallThrough .halt = cpu.regs.pc + 1 := if_neg (by simp [hbug])
  have hback : cpu.regs.pc + 1 - 1 = cpu.regs.pc := UInt16.add_sub_cancel cpu.regs.pc 1
  rw [eval_advance hrun.halted hi, hop, eval_perform_halt, hnext]
  simp only [respond, commit, Outcome.ask, pastHalting, hback, Op.cost, Cost.fixed, idleCycles]
  by_cases hp : Interrupt.pending.eval m = 0
  · simp [hp, hbug]
  by_cases hon : cpu.master.on = true
  · simp [hp, hon, hbug]
  by_cases hei : cpu.master.isPending = true
  · simp [hp, hon, hei, hbug]
  · simp [hp, hon, hei]

theorem writesOf_advance_halt (hh : cpu.halted = false) (hi : cpu.current.eval m = .ok i)
    (hop : i.op = .halt) : writesOf (cpu.advance.trace m) = [] := by
  rw [trace_advance hh hi, trace_perform, hop]
  rfl

/-! ### Asleep -/

theorem writesOf_advance_halted (hh : cpu.halted = true) : writesOf (cpu.advance.trace m) = [] := by
  rw [trace_advance_halted hh]
  rfl

/-- The processor asleep after a HALT, when it has idled for `n` steps. -/
def asleep (cpu : Cpu) (n : Nat) : Cpu :=
  { cpu.pastHalting with cycles := cpu.cycles + idleCycles + n * idleCycles, halted := true }

theorem eval_advance_asleep (cpu : Cpu) (n : Nat) (m : M) : (cpu.asleep n).advance.eval m =
    .ok { cpu.asleep (n + 1) with halted := !(Interrupt.pending.eval m != 0) } := by
  have hcycles : (cpu.asleep n).cycles + idleCycles = (cpu.asleep (n + 1)).cycles := by
    simp only [asleep, Nat.succ_mul]
    omega
  rw [eval_advance_halted rfl, hcycles]
  rfl

/-- With nothing pending, a step of a processor asleep lets time pass and touches nothing. -/
theorem step_asleep (hs : cpu.stopped = false) (n : Nat) (hp : Interrupt.pending.eval m = 0) :
    (cpu.asleep n).step.run m = (.ok (cpu.asleep (n + 1)), m) := by
  have hs' : (cpu.asleep n).stopped = false := hs
  have hq : (cpu.asleep n).advance.eval m = .ok (cpu.asleep (n + 1)) := by
    rw [eval_advance_asleep, hp]
    rfl
  exact run_step hs' hq (writesOf_advance_halted rfl) (run_poll_of_passes (Or.inl rfl))

/-- A step on each of some memories, as the outside has left them, and what it makes of each. -/
def stepOnEach (cpu : Cpu) : List M → Except Fault (Cpu × List M)
  | [] => .ok (cpu, [])
  | m :: rest =>
    match cpu.step.run m with
    | (.error fault, _) => .error fault
    | (.ok after, m') => (after.stepOnEach rest).map fun (final, left) => (final, m' :: left)

/-- As long as nothing is pending, all that changes is the count of cycles. -/
theorem stepOnEach_asleep (hs : cpu.stopped = false) (quiet : List M) :
    (∀ m ∈ quiet, Interrupt.pending.eval m = 0) → ∀ n,
      (cpu.asleep n).stepOnEach quiet = .ok (cpu.asleep (n + quiet.length), quiet) := by
  induction quiet with
  | nil => intro _ n; rfl
  | cons m rest ih =>
      intro hquiet n
      have hrest := ih (fun m' hm' => hquiet m' (List.mem_cons_of_mem m hm')) (n + 1)
      have hlength : n + 1 + rest.length = n + (m :: rest).length := by
        simp only [List.length_cons]
        omega
      simp only [stepOnEach, step_asleep hs n (hquiet m List.mem_cons_self), hrest, hlength]
      rfl

/-- The processor as it wakes in its `n`th idle step. -/
def awake (cpu : Cpu) (n : Nat) : Cpu := { cpu.asleep n with halted := false }

/-- The first step that finds something pending wakes the processor. -/
theorem advance_waking (n : Nat) (hp : Interrupt.pending.eval m ≠ 0) :
    (cpu.asleep n).advance.eval m = .ok (cpu.awake (n + 1)) := by
  rw [eval_advance_asleep]
  simp [awake, hp]

theorem Running.awake (h : cpu.Running) (n : Nat) : (cpu.awake n).Running :=
  ⟨rfl, h.stopped, h.haltBug⟩

/--
The step at a HALT puts the processor to sleep, and it sleeps until something is pending.

Then it goes on after the HALT, by way of a handler if the HALT found the switch on or an EI in
flight.
-/
structure Sleeps (cpu : Cpu) (m : M) : Prop where
  step : cpu.step.run m = (.ok (cpu.asleep 0), m)
  waits : ∀ quiet : List M, (∀ m' ∈ quiet, Interrupt.pending.eval m' = 0) →
    (cpu.asleep 0).stepOnEach quiet = .ok (cpu.asleep quiet.length, quiet)
  wakesOn : cpu.master.on = true ∨ cpu.master.isPending = true →
    ∀ (n : Nat) (m' : M), Interrupt.pending.eval m' ≠ 0 →
      ∃ irq after, (cpu.asleep n).Interrupted m' irq (cpu.regs.pc + 1) after
  wakesOff : cpu.master.on = false → cpu.master.isPending = false →
    ∀ (n : Nat) (m' : M), Interrupt.pending.eval m' ≠ 0 →
      (cpu.asleep n).step.run m' = (.ok (cpu.awake (n + 1)), m') ∧ (cpu.awake (n + 1)).Running

theorem sleeps (hsettled : cpu.master.Settled) (hrun : cpu.Running)
    (hi : cpu.current.eval m = .ok i) (hop : i.op = .halt) (hp : Interrupt.pending.eval m = 0) :
    cpu.Sleeps m where
  step := by
    have hq := eval_advance_halt hrun hi hop
    rw [if_pos hp] at hq
    rw [run_step hrun.stopped hq (writesOf_advance_halt hrun.halted hi hop)
      (run_poll_of_passes (Or.inl rfl))]
    simp [asleep, pastHalting]
  waits quiet hquiet := by
    have h := stepOnEach_asleep hrun.stopped quiet hquiet 0
    rwa [Nat.zero_add] at h
  wakesOn hon n m' hp' := by
    have hswitch : (cpu.awake (n + 1)).master.on = true := by
      show cpu.master.retire.on = true
      rw [hsettled.retire_on]
      simpa using hon
    have hcycles : (cpu.awake (n + 1)).cycles = (cpu.asleep n).cycles + idleCycles := by
      simp only [awake, asleep, Nat.succ_mul]
      omega
    exact interrupted_of_advance hrun.stopped (advance_waking n hp')
      (writesOf_advance_halted rfl) rfl hcycles (hrun.awake (n + 1)) hswitch hp'
  wakesOff hoff hidle n m' hp' := by
    have hswitch : (cpu.awake (n + 1)).master.on = false := by
      show cpu.master.retire.on = false
      rw [hsettled.retire_on, hoff, hidle]
      rfl
    exact ⟨run_step hrun.stopped (advance_waking n hp') (writesOf_advance_halted rfl)
      (run_poll_of_passes (Or.inr (Or.inl hswitch))), hrun.awake (n + 1)⟩

/-! ### The halt bug -/

/-- The processor past a HALT, about to take one byte twice. -/
def repeating (cpu : Cpu) : Cpu := { cpu.pastHalting with haltBug := true }

/--
The next instruction that is executed, and no other, takes the byte at PC twice.

It is made of the byte at PC, of the same byte once more and of the byte after it; and it goes
on as though it had begun one byte before PC.  Then the halt bug is over, unless the instruction
is a HALT that brings it about anew.
-/
structure RepeatsOnce (M : Type) [Memory M] (cpu : Cpu) : Prop where
  fetch : ∀ m : M, cpu.current.eval m =
    Instruction.decode ⟨Memory.read m cpu.regs.pc, Memory.read m cpu.regs.pc,
      Memory.read m (cpu.regs.pc + 1)⟩ cpu.regs.pc
  step : ∀ (m : M) (i : Instruction), cpu.current.eval m = .ok i → ∃ after,
    cpu.step.eval m = .ok after ∧ (cpu.oneBack.afterFetch i).eval m = after ∧
      cpu.step.exec m = (cpu.oneBack.afterFetch i).exec m ∧
      (after.haltBug = true ↔ i.op = .halt ∧ Interrupt.pending.eval m ≠ 0)

theorem repeatsOnce (hbug : cpu.haltBug = true) (hh : cpu.halted = false)
    (hs : cpu.stopped = false) (hmaster : cpu.master = .off) : RepeatsOnce M cpu where
  fetch m := by simp only [eval_current, window, secondAddr, hbug, if_true]
  step m i hi := by
    have hsame : cpu.oneBack.afterFetch i = cpu.afterFetch i :=
      congrArg (· >>= poll) (perform_oneBack hbug i.op i.literal)
    rw [hsame]
    refine ⟨_, eval_step_of_current hh hs hi, rfl, exec_step_of_current hh hs hi, ?_⟩
    rw [haltBug_afterFetch, hmaster]
    simp [MasterEnable.off, MasterEnable.isPending]

/-! ### All that can become of a HALT -/

/--
**A HALT sleeps, is interrupted, or brings about the halt bug.**

With nothing pending the processor sleeps.  With something pending and the switch on, the step
enters the handler, which is to return to the next instruction; with an EI in flight it enters
the handler too, which is to return to the HALT.  Else nothing is entered, PC has moved past the
HALT, and one byte is taken twice.
-/
theorem halt_cases (hr : cpu.Reachable) (hrun : cpu.Running) (hi : cpu.current.eval m = .ok i)
    (hop : i.op = .halt) :
    (Interrupt.pending.eval m = 0 → cpu.Sleeps m) ∧
      (Interrupt.pending.eval m ≠ 0 →
        (cpu.master.on = true →
          ∃ irq after, cpu.Interrupted m irq (cpu.regs.pc + 1) after) ∧
        (cpu.master.on = false → cpu.master.isPending = true →
          ∃ irq after, cpu.Interrupted m irq cpu.regs.pc after) ∧
        (cpu.master.on = false → cpu.master.isPending = false →
          cpu.step.run m = (.ok cpu.repeating, m) ∧ RepeatsOnce M cpu.repeating)) := by
  have hsettled := hr.coherent.master
  have hq := eval_advance_halt hrun hi hop
  have hwrites := writesOf_advance_halt hrun.halted hi hop
  refine ⟨sleeps hsettled hrun hi hop, fun hp => ⟨fun hon => ?_, fun hoff hei => ?_,
    fun hoff hidle => ?_⟩⟩
  · rw [if_neg hp, if_pos hon] at hq
    have hswitch : cpu.pastHalting.master.on = true := by
      show cpu.master.retire.on = true
      rw [hsettled.retire_on, hon]
      rfl
    exact interrupted_of_advance hrun.stopped hq hwrites rfl rfl
      ⟨hrun.halted, hrun.stopped, hrun.haltBug⟩ hswitch hp
  · rw [if_neg hp, if_neg (by simp [hoff]), if_pos hei] at hq
    have hswitch : cpu.pastHalting.master.on = true := by
      show cpu.master.retire.on = true
      rw [hsettled.retire_on, hei, Bool.or_true]
    exact interrupted_of_advance hrun.stopped hq hwrites rfl rfl
      ⟨hrun.halted, hrun.stopped, hrun.haltBug⟩ hswitch hp
  · rw [if_neg hp, if_neg (by simp [hoff]), if_neg (by simp [hidle])] at hq
    have hmaster : cpu.repeating.master = .off := by
      show cpu.master.retire = .off
      rw [MasterEnable.eq_off hoff hidle]
      rfl
    have hswitch : cpu.repeating.master.on = false := by
      rw [hmaster]
      rfl
    exact ⟨run_step hrun.stopped hq hwrites (run_poll_of_passes (Or.inr (Or.inl hswitch))),
      repeatsOnce rfl hrun.halted hrun.stopped hmaster⟩

/-- After EI, a HALT sleeps for a step and is then taken to the handler of the vertical blank. -/
theorem halt_cases_after_ei : ∃ irq after,
    pastEi.step.run (eiThen 0x76) = (.ok (pastEi.asleep 0), eiThen 0x76) ∧
      (pastEi.asleep 0).stepOnEach [eiThen 0x76] = .ok (pastEi.asleep 1, [eiThen 0x76]) ∧
      (pastEi.asleep 1).Interrupted blanking irq 0x102 after := by
  have hquiet : Interrupt.pending.eval (eiThen 0x76) = 0 := by
    simp only [Interrupt.eval_pending, FlatMemory.memory_read, get_eiThen]
    decide
  have hpending : Interrupt.pending.eval blanking ≠ 0 := by
    simp only [Interrupt.eval_pending, FlatMemory.memory_read, blanking, FlatMemory.get_put]
    decide
  have hhalt : pastEi.current.eval (eiThen 0x76) = .ok ⟨0x101, .base 0x76, 0⟩ :=
    current_pastEi 0x76
  have hsleeps := (halt_cases (.step (.ofRegisters _) (step_atEntry 0x76)) ⟨rfl, rfl, rfl⟩ hhalt
    (by decide)).1 hquiet
  obtain ⟨irq, after, hwoken⟩ := hsleeps.wakesOn (Or.inr rfl) 1 blanking hpending
  exact ⟨irq, after, hsleeps.step, hsleeps.waits [eiThen 0x76] (by simpa using hquiet), hwoken⟩

end Cpu

end Sm83
