/-
When an interrupt is let in, and what that does.

After a processor has advanced, an interrupt is let in exactly if the master switch is on
and some source is pending.  What has to be seen for this is that the one case in which a
step does not look, a processor that is halted, is a case without a pending source: it is
the same two registers that decide whether the processor stays halted.

So no step ends with the switch on and a source pending.  Either the step has let the
source in, which turns the switch off, or the switch was off, or nothing was pending; and
looking changes no memory.
-/
import Sm83.Proofs.FlatMemory
import Sm83.Proofs.Step

namespace Sm83

variable {M : Type} [Memory M]

namespace Interrupt

/-! ### The most urgent source -/

/-- The five sources are all the bits there are. -/
theorem highest_eq_none_iff : ∀ mask : Byte,
    highest (mask &&& sourceMask) = none ↔ mask &&& sourceMask = 0 :=
  forall_byte (by decide +kernel)

theorem mem_all (irq : Interrupt) : irq ∈ all := by cases irq <;> decide

/-- The sources are looked at from the lowest bit up. -/
theorem sorted_all : all.Pairwise fun irq other => irq.bit ≤ other.bit := by decide

/-- The chosen source is pending, and no pending one has a lower bit. -/
theorem highest_least {mask : Byte} {irq : Interrupt} (h : highest mask = some irq) :
    mask &&& irq.bit ≠ 0 ∧ ∀ other : Interrupt, mask &&& other.bit ≠ 0 → irq.bit ≤ other.bit := by
  obtain ⟨hbit, before, after, hsplit, hclear⟩ := List.find?_eq_some_iff_append.mp h
  refine ⟨by simpa using hbit, fun other hother => ?_⟩
  have hmem : other ∈ before ++ irq :: after := hsplit ▸ mem_all other
  have hsorted := hsplit ▸ sorted_all
  rcases List.mem_append.mp hmem with hbefore | hrest
  · exact absurd hother (by simpa using hclear other hbefore)
  · rcases List.mem_cons.mp hrest with rfl | hafter
    · exact UInt8.le_refl _
    · exact (List.pairwise_cons.mp (List.pairwise_append.mp hsorted).2.1).1 other hafter

end Interrupt

namespace Cpu

variable {cpu q after : Cpu} {m : M} {i : Instruction}

/-! ### Entering a handler -/

/--
The processor `after` stands at the handler of `irq`, and `log` is how it got there.

The source is the one with the lowest bit that is pending.  Three bytes are written: the
requests without this one, and the return address, the high byte first and above the low
one.
-/
structure Enters (q : Cpu) (m : M) (log : List Transfer) (after : Cpu) (irq : Interrupt) :
    Prop where
  pending : Interrupt.pending.eval m &&& irq.bit ≠ 0
  urgent : ∀ other : Interrupt, Interrupt.pending.eval m &&& other.bit ≠ 0 → irq.bit ≤ other.bit
  writes : writesOf log =
    [(Interrupt.requestAddr, Memory.read m Interrupt.requestAddr &&& ~~~irq.bit),
      (q.regs.sp - 1, Word.high q.regs.pc), (q.regs.sp - 2, Word.low q.regs.pc)]
  cpu : after =
    { q with
      regs := { q.regs with sp := q.regs.sp - 2, pc := irq.vector }
      cycles := q.cycles + dispatchCycles
      master := .off }
  running : after.halted = false

@[simp] theorem eval_enter (q : Cpu) (irq : Interrupt) (m : M) : (q.enter irq).eval m =
    { q with
      regs := { q.regs with sp := q.regs.sp - 2, pc := irq.vector }
      cycles := q.cycles + dispatchCycles
      master := .off } := rfl

@[simp] theorem trace_enter (q : Cpu) (irq : Interrupt) (m : M) : (q.enter irq).trace m =
    [.read Interrupt.requestAddr,
      .write Interrupt.requestAddr (Memory.read m Interrupt.requestAddr &&& ~~~irq.bit),
      .write (q.regs.sp - 1) (Word.high q.regs.pc), .write (q.regs.sp - 2) (Word.low q.regs.pc)] :=
  rfl

theorem service_of_off (h : q.master.on = false) : q.service = pure q := by
  simp [service, h]

/-- With the switch on and a source pending, the handler of the most urgent one is entered. -/
theorem service_of_pending (hon : q.master.on = true) (hp : Interrupt.pending.eval m ≠ 0) :
    ∃ irq, Interrupt.highest (Interrupt.pending.eval m) = some irq ∧
      q.service.eval m = (q.enter irq).eval m ∧
      q.service.trace m = Interrupt.pending.trace m ++ (q.enter irq).trace m := by
  cases hirq : Interrupt.highest (Interrupt.pending.eval m) with
  | none =>
      rw [Interrupt.eval_pending, Interrupt.highest_eq_none_iff] at hirq
      exact absurd hirq hp
  | some irq =>
      refine ⟨irq, rfl, ?_, ?_⟩
      · simp only [service, hon, if_true, Bus.eval_bind, hirq, Interrupt.exec_pending]
      · simp only [service, hon, if_true, Bus.trace_bind, hirq, Interrupt.exec_pending]

/-- Without a pending source, the two registers are read and nothing happens. -/
theorem service_of_clear (hon : q.master.on = true) (hp : Interrupt.pending.eval m = 0) :
    q.service.eval m = q ∧ q.service.trace m = Interrupt.pending.trace m := by
  have hirq : Interrupt.highest (Interrupt.pending.eval m) = none := by
    rw [Interrupt.eval_pending, Interrupt.highest_eq_none_iff]
    exact hp
  constructor
  · simp only [service, hon, if_true, Bus.eval_bind, hirq, Bus.eval_pure]
  · simp only [service, hon, if_true, Bus.trace_bind, hirq, Bus.trace_pure, List.append_nil]

theorem poll_enters (hq : q.halted = false) (hon : q.master.on = true)
    (hp : Interrupt.pending.eval m ≠ 0) :
    ∃ irq, q.Enters m (q.poll.trace m) (q.poll.eval m) irq := by
  obtain ⟨irq, hirq, heval, htrace⟩ := service_of_pending hon hp
  obtain ⟨hbit, hleast⟩ := Interrupt.highest_least hirq
  have hpoll : q.poll = q.service := by simp [poll, hq]
  rw [hpoll, heval, htrace]
  exact ⟨irq, hbit, hleast, rfl, rfl, hq⟩

theorem poll_passes
    (h : q.halted = true ∨ q.master.on = false ∨ Interrupt.pending.eval m = 0) :
    q.poll.eval m = q ∧ writesOf (q.poll.trace m) = [] := by
  unfold poll
  by_cases hq : q.halted = true
  · simp [hq]
  · rw [if_neg hq]
    by_cases hon : q.master.on = true
    · have hp : Interrupt.pending.eval m = 0 := by simpa [hq, hon] using h
      obtain ⟨heval, htrace⟩ := service_of_clear hon hp
      rw [heval, htrace]
      exact ⟨rfl, rfl⟩
    · rw [service_of_off (by simpa using hon)]
      exact ⟨rfl, rfl⟩

/-- Letting an interrupt in neither begins nor ends a halt bug. -/
theorem haltBug_poll (q : Cpu) (m : M) : (q.poll.eval m).haltBug = q.haltBug := by
  by_cases hpass : q.halted = true ∨ q.master.on = false ∨ Interrupt.pending.eval m = 0
  · rw [(poll_passes hpass).1]
  · obtain ⟨hrun, hon, hp⟩ : q.halted = false ∧ q.master.on = true ∧
        Interrupt.pending.eval m ≠ 0 := by simpa using hpass
    obtain ⟨irq, henters⟩ := poll_enters hrun hon hp
    rw [henters.cpu]

/-- What is read to look for an interrupt, and to let it in, are its two registers. -/
theorem readsOf_poll (q : Cpu) (m : M) : ∀ addr ∈ readsOf (q.poll.trace m),
    addr = Interrupt.enableAddr ∨ addr = Interrupt.requestAddr := by
  unfold poll
  by_cases hq : q.halted = true
  · simp [hq]
  rw [if_neg hq]
  by_cases hon : q.master.on = true
  · by_cases hp : Interrupt.pending.eval m = 0
    · rw [(service_of_clear hon hp).2]
      simp
    · obtain ⟨irq, -, -, htrace⟩ := service_of_pending hon hp
      rw [htrace]
      simp
  · rw [service_of_off (by simpa using hon)]
    simp

/-! ### After a processor has advanced -/

/-- A processor that is halted when it has advanced found nothing pending. -/
theorem pending_of_halted (hq : cpu.advance.eval m = .ok q) (hhalted : q.halted = true) :
    Interrupt.pending.eval (cpu.advance.exec m) = 0 := by
  by_cases hh : cpu.halted = true
  · have hexec : cpu.advance.exec m = m := Bus.exec_eq_self (by rw [trace_advance_halted hh]; rfl)
    rw [eval_advance_halted hh, Except.ok.injEq] at hq
    rw [← hq] at hhalted
    rw [hexec]
    simpa using hhalted
  · have hrun : cpu.halted = false := by simpa using hh
    obtain ⟨i, hi, rfl⟩ := current_of_advance hrun hq
    rw [perform_halted, hrun, Bool.false_or, Bool.and_eq_true] at hhalted
    obtain ⟨hop, hp⟩ := hhalted
    -- HALT writes nothing, so the registers it has read are those that are read again
    rw [exec_advance hrun hi, exec_perform, eq_of_beq hop]
    exact eq_of_beq hp

theorem master_of_advance (hq : cpu.advance.eval m = .ok q) :
    (cpu.halted = true → q.master = cpu.master) ∧
      (cpu.halted = false → ∃ i, cpu.current.eval m = .ok i ∧
        q.master = (i.op.steer cpu.master).retire) := by
  constructor
  · intro hh
    rw [eval_advance_halted hh, Except.ok.injEq] at hq
    rw [← hq]
  · intro hh
    obtain ⟨i, hi, rfl⟩ := current_of_advance hh hq
    exact ⟨i, hi, perform_master cpu i.literal m⟩

/-- What can follow when a processor has advanced: a handler is entered, or nothing happens. -/
theorem poll_cases (hq : cpu.advance.eval m = .ok q) :
    (q.master.on = true ∧ Interrupt.pending.eval (cpu.advance.exec m) ≠ 0 ∧
      ∃ irq, q.Enters (cpu.advance.exec m) (q.poll.trace (cpu.advance.exec m))
        (q.poll.eval (cpu.advance.exec m)) irq) ∨
    (¬ (q.master.on = true ∧ Interrupt.pending.eval (cpu.advance.exec m) ≠ 0) ∧
      q.poll.eval (cpu.advance.exec m) = q ∧
      writesOf (q.poll.trace (cpu.advance.exec m)) = []) := by
  by_cases hgo : q.master.on = true ∧ Interrupt.pending.eval (cpu.advance.exec m) ≠ 0
  · have hrun : q.halted = false :=
      Bool.eq_false_iff.mpr fun hhalted => hgo.2 (pending_of_halted hq hhalted)
    exact Or.inl ⟨hgo.1, hgo.2, poll_enters hrun hgo.1 hgo.2⟩
  · have hpass : q.halted = true ∨ q.master.on = false ∨
        Interrupt.pending.eval (cpu.advance.exec m) = 0 := by
      by_cases hon : q.master.on = true
      · exact Or.inr (Or.inr (by simpa [hon] using hgo))
      · exact Or.inr (Or.inl (by simpa using hon))
    exact Or.inr ⟨hgo, poll_passes hpass⟩

/-- A step lets in the interrupt `irq`: what follows when it has advanced enters the handler. -/
def LetsIn (cpu : Cpu) (m : M) (irq : Interrupt) : Prop :=
  ∃ q after log, cpu.advance.eval m = .ok q ∧ cpu.step.eval m = .ok after ∧
    cpu.step.trace m = cpu.advance.trace m ++ log ∧ q.Enters (cpu.advance.exec m) log after irq

/-- The log of what follows is what the step adds to the log of the advance. -/
theorem letsIn_iff (hs : cpu.stopped = false) (hq : cpu.advance.eval m = .ok q)
    {irq : Interrupt} : cpu.LetsIn m irq ↔
      q.Enters (cpu.advance.exec m) (q.poll.trace (cpu.advance.exec m))
        (q.poll.eval (cpu.advance.exec m)) irq := by
  constructor
  · rintro ⟨q', after, log, hq', hstep, hlog, henters⟩
    rw [hq, Except.ok.injEq] at hq'
    subst hq'
    rw [eval_step hs hq, Except.ok.injEq] at hstep
    rw [trace_step hs hq, List.append_cancel_left_eq] at hlog
    rwa [hstep, hlog]
  · intro henters
    exact ⟨q, _, _, hq, eval_step hs hq, trace_step hs hq, henters⟩

/-- A step with the switch off after its instruction lets nothing in and ends there. -/
theorem step_of_off (hh : cpu.halted = false) (hs : cpu.stopped = false)
    (hi : cpu.current.eval m = .ok i) (hoff : (i.op.steer cpu.master).retire.on = false) :
    cpu.step.eval m = .ok ((cpu.perform i.op i.literal).eval m) ∧
      ∀ irq, ¬ cpu.LetsIn m irq := by
  have hq := eval_advance hh hi
  have hswitch : ((cpu.perform i.op i.literal).eval m).master.on = false := by
    rw [perform_master]
    exact hoff
  rcases poll_cases hq with ⟨hon, -⟩ | ⟨-, heval, hwrites⟩
  · rw [hswitch] at hon
    exact absurd hon (by simp)
  · refine ⟨by rw [eval_step hs hq, heval], fun irq hin => ?_⟩
    have henters := (letsIn_iff hs hq).mp hin
    exact absurd (hwrites.symm.trans henters.writes) (by simp)

/-- A step of a running processor that lets nothing in is its instruction. -/
theorem step_of_quiet (hh : cpu.halted = false) (hs : cpu.stopped = false)
    (hi : cpu.current.eval m = .ok i) (hquiet : ∀ irq, ¬ cpu.LetsIn m irq) :
    cpu.step.eval m = .ok ((cpu.perform i.op i.literal).eval m) := by
  have hq := eval_advance hh hi
  rcases poll_cases hq with ⟨-, -, irq, henters⟩ | ⟨-, heval, -⟩
  · exact absurd ((letsIn_iff hs hq).mpr henters) (hquiet irq)
  · rw [eval_step hs hq, heval]

/-- A step with the switch on after its instruction leaves it on or lets something in. -/
theorem step_of_on (hh : cpu.halted = false) (hs : cpu.stopped = false)
    (hi : cpu.current.eval m = .ok i) (hon : (i.op.steer cpu.master).retire.on = true) :
    ∃ after, cpu.step.eval m = .ok after ∧
      (after.master.on = true ∨ ∃ irq, cpu.LetsIn m irq) := by
  have hq := eval_advance hh hi
  refine ⟨_, eval_step hs hq, ?_⟩
  rcases poll_cases hq with ⟨-, -, irq, henters⟩ | ⟨-, heval, -⟩
  · exact Or.inr ⟨irq, (letsIn_iff hs hq).mpr henters⟩
  · refine Or.inl ?_
    rw [heval, perform_master]
    exact hon

/--
**A step lets an interrupt in exactly if the switch is on and a source is pending**, once the
step has done all else: once the instruction has written what it writes, has moved the
switch and has been counted by it.  Then it writes the three bytes that `Enters` names and
no others; else it writes nothing more and changes nothing more.

So the switch is never on while a source is pending when the step is over.
-/
theorem enters_iff (hs : cpu.stopped = false) (h : cpu.step.eval m = .ok after) :
    ∃ q log, cpu.advance.eval m = .ok q ∧ cpu.step.trace m = cpu.advance.trace m ++ log ∧
      (cpu.halted = true → q.master = cpu.master) ∧
      (cpu.halted = false → ∃ i, cpu.current.eval m = .ok i ∧
        q.master = (i.op.steer cpu.master).retire) ∧
      ((∃ irq, q.Enters (cpu.advance.exec m) log after irq) ↔
        q.master.on = true ∧ Interrupt.pending.eval (cpu.advance.exec m) ≠ 0) ∧
      ((¬ ∃ irq, q.Enters (cpu.advance.exec m) log after irq) →
        after = q ∧ writesOf log = []) ∧
      ¬ (after.master.on = true ∧ Interrupt.pending.eval (cpu.step.exec m) ≠ 0) := by
  obtain ⟨q, hq, rfl⟩ := advance_of_step hs h
  obtain ⟨hmasterHalted, hmasterRunning⟩ := master_of_advance hq
  refine ⟨q, _, hq, trace_step hs hq, hmasterHalted, hmasterRunning, ?_⟩
  rcases poll_cases hq with ⟨hon, hp, irq, henters⟩ | ⟨hno, heval, hwrites⟩
  · refine ⟨⟨fun _ => ⟨hon, hp⟩, fun _ => ⟨irq, henters⟩⟩,
      fun hc => absurd ⟨irq, henters⟩ hc, ?_⟩
    rintro ⟨hafter, -⟩
    rw [henters.cpu] at hafter
    exact absurd hafter (by simp [MasterEnable.off])
  · rw [heval]
    refine ⟨⟨?_, fun hc => absurd hc hno⟩, fun _ => ⟨rfl, hwrites⟩, ?_⟩
    · rintro ⟨irq, henters⟩
      exact absurd (hwrites.symm.trans henters.writes) (by simp)
    · rw [exec_step hs hq, Bus.exec_eq_self hwrites]
      exact hno

/-- The vertical blank, allowed and requested, in a memory that is zero otherwise. -/
def blanking : FlatMemory :=
  (FlatMemory.zeroed.put Interrupt.enableAddr 1).put Interrupt.requestAddr 1

/-- An EI takes effect with the next instruction, and the stack lies over the top of memory. -/
def wrapped : Cpu :=
  { atEntry with regs := { atEntry.regs with sp := 0 }, master := .armed }

/-- The handler of the vertical blank is entered although its return address is pushed over IE. -/
theorem enters_iff_wrapped : ∃ after q log irq,
    wrapped.step.eval blanking = .ok after ∧ wrapped.advance.eval blanking = .ok q ∧
      wrapped.step.trace blanking = wrapped.advance.trace blanking ++ log ∧
      q.Enters (wrapped.advance.exec blanking) log after irq := by
  have hnop : wrapped.current.eval blanking = .ok ⟨0x100, .base 0, 0⟩ := by
    simp only [eval_current, window, FlatMemory.memory_read, blanking, FlatMemory.get_put,
      FlatMemory.get_zeroed]
    rfl
  have hadvance := eval_advance rfl hnop
  have hstep := eval_step rfl hadvance
  obtain ⟨q, log, hq, htrace, -, hrun, hiff, -⟩ := enters_iff rfl hstep
  have hon : q.master.on = true := by
    obtain ⟨i, hi, hmaster⟩ := hrun rfl
    rw [hnop, Except.ok.injEq] at hi
    rw [hmaster, ← hi]
    rfl
  have hpending : Interrupt.pending.eval (wrapped.advance.exec blanking) ≠ 0 := by
    rw [exec_advance rfl hnop]
    show Interrupt.pending.eval blanking ≠ 0
    simp only [Interrupt.eval_pending, FlatMemory.memory_read, blanking, FlatMemory.get_put]
    decide
  obtain ⟨irq, henters⟩ := hiff.mpr ⟨hon, hpending⟩
  exact ⟨_, q, log, irq, hstep, hq, htrace, henters⟩

end Cpu

end Sm83
