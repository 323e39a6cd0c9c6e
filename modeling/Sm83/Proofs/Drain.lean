/-
Interrupts that take turns.

A processor that sleeps wakes into the handler of the most urgent source.  If each handler does
nothing but return, then its return turns the switch on, and the next source is let in before
the program is back.  So the handlers take turns in the order of urgency, none of them twice and
none of them left out, and the last one returns to where the processor slept.

What carries the argument is memory between two turns: the requests of the sources that had
their turn are gone and the others wait still, and nothing else has changed but the two bytes
with the return address, which are the same ones in every turn.
-/
import Sm83.Proofs.Halt
import Sm83.Proofs.Word
import Sm83.Run

namespace Sm83

/-! ### Bytes -/

/-- Bits cleared one time after the other are cleared together. -/
theorem Byte.and_not_and_not (b x y : Byte) : b &&& ~~~x &&& ~~~y = b &&& ~~~(x ||| y) := by
  refine UInt8.eq_of_toBitVec_eq (BitVec.eq_of_getElem_eq fun i hi => ?_)
  simp [Bool.and_assoc]

namespace Interrupt

/-! ### The sources in the order of their turns -/

/-- The sources whose bits are set, the most urgent first. -/
def queue (mask : Byte) : List Interrupt := all.filter fun irq => mask &&& irq.bit != 0

/-- The bits of some sources. -/
def bits (sources : List Interrupt) : Byte := sources.foldl (fun mask irq => mask ||| irq.bit) 0

theorem mem_queue {mask : Byte} {irq : Interrupt} : irq ∈ queue mask ↔ mask &&& irq.bit ≠ 0 := by
  simp [queue, mem_all]

theorem sorted_queue (mask : Byte) :
    (queue mask).Pairwise fun irq other => irq.bit < other.bit :=
  List.Pairwise.filter _ (by decide)

theorem highest_eq_head? (mask : Byte) : highest mask = (queue mask).head? :=
  List.head?_filter.symm

/-- Nothing is queued exactly if nothing is pending. -/
theorem queue_pending_eq_nil_iff {M : Type} [Memory M] {m : M} :
    queue (pending.eval m) = [] ↔ pending.eval m = 0 := by
  rw [← List.head?_eq_none_iff, ← highest_eq_head?, eval_pending]
  exact highest_eq_none_iff _

/-- When the first source in the queue is acknowledged, the others move up. -/
theorem queue_clear : ∀ mask : Byte, ∀ irq ∈ (queue mask).head?,
    queue (mask &&& ~~~irq.bit) = (queue mask).tail :=
  forall_byte (by decide +kernel)

theorem bits_queue : ∀ mask : Byte, bits (queue (mask &&& sourceMask)) = mask &&& sourceMask :=
  forall_byte (by decide +kernel)

theorem bits_concat (sources : List Interrupt) (irq : Interrupt) :
    bits (sources ++ [irq]) = bits sources ||| irq.bit := by
  simp [bits]

end Interrupt

namespace Cpu

/-! ### Running for one more step -/

section Run

variable {M : Type} [Memory M]

theorem runFrom_succ {q after : Cpu} {m' m'' : M} (hs : q.stopped = false)
    (hstep : q.step.run m' = (.ok after, m'')) (limit : Nat) :
    ∀ (steps : Nat) (cpu : Cpu) (m : M),
      runFrom steps limit cpu m = ⟨q, m', steps + limit, none⟩ →
      runFrom steps (limit + 1) cpu m = ⟨after, m'', steps + (limit + 1), none⟩ := by
  induction limit with
  | zero =>
      intro steps cpu m h
      obtain ⟨rfl, rfl⟩ : cpu = q ∧ m = m' := by simpa [runFrom] using h
      simp [runFrom, hs, hstep]
  | succ limit ih =>
      intro steps cpu m h
      rw [runFrom] at h ⊢
      by_cases hstopped : cpu.stopped = true
      · simp [hstopped] at h
      rw [if_neg hstopped] at h ⊢
      have hcount : ∀ n, steps + 1 + n = steps + (n + 1) := fun n => by omega
      rcases hfirst : cpu.step.run m with ⟨_ | next, left⟩
      · simp [hfirst] at h
      · simp only [hfirst] at h ⊢
        rw [← hcount (limit + 1)]
        exact ih (steps + 1) next left (by rw [h, hcount])

/-- A run that has taken all its steps can take one more. -/
theorem run_succ {cpu q after : Cpu} {m m' m'' : M} {n : Nat}
    (h : cpu.run m n = ⟨q, m', n, none⟩) (hs : q.stopped = false)
    (hstep : q.step.run m' = (.ok after, m'')) : cpu.run m (n + 1) = ⟨after, m'', n + 1, none⟩ := by
  have hrun := runFrom_succ hs hstep n 0 cpu m (by rwa [Nat.zero_add])
  rwa [Nat.zero_add] at hrun

end Run

/-! ### Between two turns -/

/-- The processor is halted with the switch on, and in no other mode. -/
structure AwaitsInterrupt (cpu : Cpu) : Prop where
  halted : cpu.halted = true
  stopped : cpu.stopped = false
  haltBug : cpu.haltBug = false
  master : cpu.master = .set true

theorem Coherent.awaitsInterrupt {cpu : Cpu} (h : cpu.Coherent) (hh : cpu.halted = true)
    (hon : cpu.master.on = true) : cpu.AwaitsInterrupt where
  halted := hh
  stopped := (h.halted hh).1
  haltBug := (h.halted hh).2
  master := by
    rcases h.master with hoff | harmed | hset
    · exact absurd hon (by simp [hoff, MasterEnable.off])
    · exact absurd hon (by simp [harmed, MasterEnable.armed])
    · exact hset

/-- The two bytes of the stack that take a return address. -/
def returnSlots (cpu : Cpu) : List Word := [cpu.regs.sp - 1, cpu.regs.sp - 2]

/-- All handlers do nothing but return, and a return address overwrites none of them. -/
structure Returning (cpu : Cpu) (m : FlatMemory) : Prop where
  writable : m.romEnd = 0
  handlers : ∀ irq : Interrupt, m.get irq.vector = 0xD9
  vectors : ∀ irq : Interrupt, irq.vector ∉ cpu.returnSlots
  request : Interrupt.requestAddr ∉ cpu.returnSlots
  enable : Interrupt.enableAddr ∉ cpu.returnSlots

/-- The processor back where it slept, after `n` turns. -/
def back (cpu : Cpu) (n : Nat) : Cpu :=
  { cpu with cycles := cpu.cycles + 4 + 36 * n, halted := false }

/-- The processor at the handler of `irq`, after `n` turns of others. -/
def atHandler (cpu : Cpu) (n : Nat) (irq : Interrupt) : Cpu :=
  { cpu with
    regs := { cpu.regs with sp := cpu.regs.sp - 2, pc := irq.vector }
    cycles := cpu.cycles + 4 + 36 * n + dispatchCycles
    master := .off
    halted := false }

/-- Memory `m` has become `m'` while the sources `served` had their turn; `waiting` have not. -/
structure Served (cpu : Cpu) (m : FlatMemory) (served waiting : List Interrupt)
    (m' : FlatMemory) : Prop where
  writable : m'.romEnd = 0
  requests : m'.get Interrupt.requestAddr =
    m.get Interrupt.requestAddr &&& ~~~Interrupt.bits served
  waiting : Interrupt.queue (Interrupt.pending.eval m') = waiting
  elsewhere : ∀ addr, addr ≠ Interrupt.requestAddr → addr ∉ cpu.returnSlots →
    m'.get addr = m.get addr

/-- The same while the last of the sources has its turn, and its handler is still to return. -/
structure Serving (cpu : Cpu) (m : FlatMemory) (served waiting : List Interrupt)
    (m' : FlatMemory) : Prop extends Served cpu m served waiting m' where
  high : m'.get (cpu.regs.sp - 1) = Word.high cpu.regs.pc
  low : m'.get (cpu.regs.sp - 2) = Word.low cpu.regs.pc

section Turns

variable {cpu : Cpu} {m m' : FlatMemory} {irq : Interrupt} {served waiting : List Interrupt}

theorem Served.nil (hm : cpu.Returning m) :
    cpu.Served m [] (Interrupt.queue (Interrupt.pending.eval m)) m where
  writable := hm.writable
  requests := by simp [Interrupt.bits]
  waiting := rfl
  elsewhere _ _ _ := rfl

/-- The memory that entering the handler of `irq` leaves. -/
def entered (cpu : Cpu) (m : FlatMemory) (irq : Interrupt) : FlatMemory :=
  ((m.write Interrupt.requestAddr (m.get Interrupt.requestAddr &&& ~~~irq.bit)).write
    (cpu.regs.sp - 1) (Word.high cpu.regs.pc)).write (cpu.regs.sp - 2) (Word.low cpu.regs.pc)

theorem get_entered (hwritable : m.romEnd = 0) (irq : Interrupt) (x : Word) :
    (cpu.entered m irq).get x =
      if x = cpu.regs.sp - 2 then Word.low cpu.regs.pc
      else if x = cpu.regs.sp - 1 then Word.high cpu.regs.pc
      else if x = Interrupt.requestAddr then m.get Interrupt.requestAddr &&& ~~~irq.bit
      else m.get x := by
  simp only [entered, FlatMemory.get_write_of_writable, FlatMemory.romEnd_write, hwritable]

theorem get_entered_of_notMem (hwritable : m.romEnd = 0) (irq : Interrupt) {x : Word}
    (hx : x ∉ cpu.returnSlots) : (cpu.entered m irq).get x =
      if x = Interrupt.requestAddr then m.get Interrupt.requestAddr &&& ~~~irq.bit
      else m.get x := by
  obtain ⟨hfirst, hsecond⟩ : x ≠ cpu.regs.sp - 1 ∧ x ≠ cpu.regs.sp - 2 := by
    simpa [returnSlots] using hx
  rw [get_entered hwritable, if_neg hsecond, if_neg hfirst]

/-- The source is not pending any more, and the others are as they were. -/
theorem pending_entered (hwritable : m.romEnd = 0)
    (hrequest : Interrupt.requestAddr ∉ cpu.returnSlots)
    (henable : Interrupt.enableAddr ∉ cpu.returnSlots) (irq : Interrupt) :
    Interrupt.pending.eval (cpu.entered m irq) = Interrupt.pending.eval m &&& ~~~irq.bit := by
  have hne : Interrupt.enableAddr ≠ Interrupt.requestAddr := by decide
  simp only [Interrupt.eval_pending, FlatMemory.memory_read,
    get_entered_of_notMem hwritable irq henable, get_entered_of_notMem hwritable irq hrequest,
    if_neg hne, if_true, UInt8.and_assoc]
  rw [UInt8.and_comm (~~~irq.bit)]

/-- The first source that waits has its turn. -/
theorem Served.turn (h : cpu.Served m served (irq :: waiting) m') (hm : cpu.Returning m) :
    cpu.Serving m (served ++ [irq]) waiting (cpu.entered m' irq) where
  writable := by simp only [entered, FlatMemory.romEnd_write, h.writable]
  requests := by
    rw [get_entered_of_notMem h.writable irq hm.request, if_pos rfl, h.requests,
      Byte.and_not_and_not, Interrupt.bits_concat]
  waiting := by
    have hhead : irq ∈ (Interrupt.queue (Interrupt.pending.eval m')).head? := by
      rw [h.waiting]
      rfl
    rw [pending_entered h.writable hm.request hm.enable, Interrupt.queue_clear _ irq hhead,
      h.waiting, List.tail_cons]
  elsewhere addr hrequest hslots := by
    rw [get_entered_of_notMem h.writable irq hslots, if_neg hrequest]
    exact h.elsewhere addr hrequest hslots
  high := by
    have hne : cpu.regs.sp - 1 ≠ cpu.regs.sp - 2 := by grind
    rw [get_entered h.writable, if_neg hne, if_pos rfl]
  low := by rw [get_entered h.writable, if_pos rfl]

/-- With sources waiting, the first of them is let in. -/
theorem poll_back (h : cpu.Served m served (irq :: waiting) m') (hon : cpu.master.on = true)
    (n : Nat) : (cpu.back n).poll.run m' = (cpu.atHandler n irq, cpu.entered m' irq) := by
  have hp : Interrupt.pending.eval m' ≠ 0 := by
    rw [Ne, ← Interrupt.queue_pending_eq_nil_iff, h.waiting]
    exact List.cons_ne_nil irq waiting
  obtain ⟨first, hfirst, heval, htrace⟩ := service_of_pending (q := cpu.back n) hon hp
  rw [Interrupt.highest_eq_head?, h.waiting, List.head?_cons, Option.some.injEq] at hfirst
  subst hfirst
  have hpoll : (cpu.back n).poll = (cpu.back n).service := rfl
  rw [hpoll, Bus.run_eq, heval, Bus.exec_eq_foldl, htrace]
  rfl

/-- With nothing waiting, the processor goes on where it slept. -/
theorem poll_back_last (h : cpu.Served m served [] m') (n : Nat) :
    (cpu.back n).poll.run m' = (cpu.back n, m') := by
  have hp : Interrupt.pending.eval m' = 0 := Interrupt.queue_pending_eq_nil_iff.mp h.waiting
  exact run_poll_of_passes (Or.inr (Or.inr hp))

/-! ### A handler that returns -/

theorem current_atHandler (h : cpu.Served m served waiting m') (hm : cpu.Returning m) (n : Nat)
    (irq : Interrupt) :
    (cpu.atHandler n irq).current.eval m' = .ok ⟨irq.vector, .base 0xD9, 0⟩ := by
  have hvector : irq.vector ≠ Interrupt.requestAddr := by cases irq <;> decide
  have hop : (Opcode.base 0xD9).op = .reti := by decide
  have hpc : (cpu.atHandler n irq).regs.pc = irq.vector := rfl
  have hfirst : Memory.read m' irq.vector = 0xD9 := by
    rw [FlatMemory.memory_read, h.elsewhere _ hvector (hm.vectors irq), hm.handlers irq]
  rw [eval_current, window, hpc, hfirst]
  exact Instruction.decode_of_length_one (by decide) hop rfl (by simp) _ _ _

/-- The handler returns to where the processor slept, with the switch on. -/
theorem eval_advance_atHandler (hcpu : cpu.AwaitsInterrupt)
    (h : cpu.Serving m served waiting m') (hm : cpu.Returning m) (n : Nat) (irq : Interrupt) :
    (cpu.atHandler n irq).advance.eval m' = .ok (cpu.back (n + 1)) := by
  have hop : (Opcode.base 0xD9).op = .reti := by decide
  have hhigh : cpu.regs.sp - 2 + 1 = cpu.regs.sp - 1 := by grind
  have hpopped : cpu.regs.sp - 2 + 2 = cpu.regs.sp := UInt16.sub_add_cancel _ _
  rw [eval_advance rfl (current_atHandler h.toServed hm n irq)]
  show Except.ok (((cpu.atHandler n irq).perform (Opcode.base 0xD9).op 0).eval m') = _
  rw [hop, eval_perform_of_ne_halt _ _ _ (by simp)]
  have houtcome : (cpu.atHandler n irq).outcome .reti 0 m' =
      .ask cpu.regs.pc { cpu.regs with pc := irq.vector } .returnFromInterrupt := by
    simp only [outcome, Op.execute, Bus.eval_bind, Registers.eval_pop, Bus.eval_pure,
      FlatMemory.memory_read, atHandler, hhigh, hpopped, h.high, h.low, Word.ofBytes_high_low]
  rw [houtcome]
  have hcycles : cpu.cycles + 4 + 36 * n + dispatchCycles + 16 = cpu.cycles + 4 + 36 * (n + 1) := by
    simp only [dispatchCycles]
    omega
  have hswitch : (Op.steer .reti (cpu.atHandler n irq).master).retire = cpu.master := by
    rw [hcpu.master]
    rfl
  rw [hswitch]
  simp [back, atHandler, commit, Outcome.ask, Op.cost, Cost.fixed, hcycles, hcpu.haltBug,
    hcpu.stopped]

theorem writes_advance_atHandler (h : cpu.Served m served waiting m') (hm : cpu.Returning m)
    (n : Nat) (irq : Interrupt) : writesOf ((cpu.atHandler n irq).advance.trace m') = [] := by
  have hop : (Opcode.base 0xD9).op = .reti := by decide
  rw [trace_advance rfl (current_atHandler h hm n irq), trace_perform]
  show writesOf (_ ++ (((Opcode.base 0xD9).op.execute _ _ _).trace m' ++ _)) = []
  rw [hop]
  rfl

end Turns

/-! ### All turns -/

section Run

variable {cpu after : Cpu} {m m' left : FlatMemory} {served waiting sources : List Interrupt}

/-- The processor wakes back where it slept, and looks for an interrupt there. -/
theorem step_waking (hcpu : cpu.AwaitsInterrupt) (hp : Interrupt.pending.eval m ≠ 0)
    (hpoll : (cpu.back 0).poll.run m = (after, left)) : cpu.step.run m = (.ok after, left) := by
  have hq : cpu.advance.eval m = .ok (cpu.back 0) := by
    rw [eval_advance_halted hcpu.halted]
    simp [back, idleCycles, hp]
  exact run_step hcpu.stopped hq (writesOf_advance_halted hcpu.halted) hpoll

/-- A handler returns to where the processor slept, and looks for an interrupt there. -/
theorem step_atHandler (hcpu : cpu.AwaitsInterrupt) (hm : cpu.Returning m)
    (h : cpu.Serving m served waiting m') {n : Nat} (irq : Interrupt)
    (hpoll : (cpu.back (n + 1)).poll.run m' = (after, left)) :
    (cpu.atHandler n irq).step.run m' = (.ok after, left) :=
  run_step hcpu.stopped (eval_advance_atHandler hcpu h hm n irq)
    (writes_advance_atHandler h.toServed hm n irq) hpoll

/-- After `n` turns comes the turn of the next source. -/
theorem Served.next {n : Nat} (h : cpu.Served m (sources.take n) (sources.drop n) m')
    (hm : cpu.Returning m) (hon : cpu.master.on = true) (hn : n < sources.length) :
    (cpu.back n).poll.run m' = (cpu.atHandler n sources[n], cpu.entered m' sources[n]) ∧
      cpu.Serving m (sources.take (n + 1)) (sources.drop (n + 1))
        (cpu.entered m' sources[n]) := by
  rw [List.drop_eq_getElem_cons hn] at h
  rw [← List.take_append_getElem hn]
  exact ⟨poll_back h hon n, h.turn hm⟩

/-- The first turn begins when the processor wakes, and each other one when a handler returns. -/
theorem run_turn (hcpu : cpu.AwaitsInterrupt) (hm : cpu.Returning m)
    (hsources : Interrupt.queue (Interrupt.pending.eval m) = sources) (n : Nat) :
    ∀ hn : n < sources.length, ∃ m',
      cpu.run m (n + 1) = ⟨cpu.atHandler n sources[n], m', n + 1, none⟩ ∧
        cpu.Serving m (sources.take (n + 1)) (sources.drop (n + 1)) m' := by
  have hon : cpu.master.on = true := by rw [hcpu.master]; rfl
  induction n with
  | zero =>
      intro hn
      have hserved : cpu.Served m (sources.take 0) (sources.drop 0) m := hsources ▸ Served.nil hm
      obtain ⟨hpoll, hserving⟩ := hserved.next hm hon hn
      have hp : Interrupt.pending.eval m ≠ 0 := by
        rw [Ne, ← Interrupt.queue_pending_eq_nil_iff, hsources]
        exact List.ne_nil_of_length_pos hn
      -- no step has been taken yet, and the first one wakes the processor
      exact ⟨_, run_succ rfl hcpu.stopped (step_waking hcpu hp hpoll), hserving⟩
  | succ n ih =>
      intro hn
      obtain ⟨m', hrun, hserving⟩ := ih (Nat.lt_of_succ_lt hn)
      obtain ⟨hpoll, hnext⟩ := hserving.toServed.next hm hon hn
      have hstep := step_atHandler hcpu hm hserving sources[n] hpoll
      exact ⟨_, run_succ hrun hcpu.stopped hstep, hnext⟩

/--
**The pending sources have their turns one after the other, and then the program goes on.**

The sources are those whose bits are set, in the order of their bits.  After each of the first
steps the processor is at the handler of the next of them.  One more step, and it is back where
it slept: only the clock has moved, by the four cycles of the waking and thirty-six for each turn.
The requests that were served are gone, and the return address has been left on the stack.
-/
theorem drains_pending (hr : cpu.Reachable) (hh : cpu.halted = true) (hon : cpu.master.on = true)
    (hm : cpu.Returning m) (hp : Interrupt.pending.eval m ≠ 0)
    (hsources : Interrupt.queue (Interrupt.pending.eval m) = sources) :
    (∀ irq, irq ∈ sources ↔ Interrupt.pending.eval m &&& irq.bit ≠ 0) ∧
      sources.Pairwise (fun irq other => irq.bit < other.bit) ∧
      (∀ (n : Nat) (hn : n < sources.length), ∃ m',
        cpu.run m (n + 1) = ⟨cpu.atHandler n sources[n], m', n + 1, none⟩) ∧
      ∃ m', cpu.run m (sources.length + 1) =
          ⟨cpu.back sources.length, m', sources.length + 1, none⟩ ∧
        m'.get Interrupt.requestAddr =
          m.get Interrupt.requestAddr &&& ~~~Interrupt.pending.eval m ∧
        ∀ addr, addr ≠ Interrupt.requestAddr → addr ∉ cpu.returnSlots →
          m'.get addr = m.get addr := by
  have hcpu := hr.coherent.awaitsInterrupt hh hon
  refine ⟨fun irq => hsources ▸ Interrupt.mem_queue, hsources ▸ Interrupt.sorted_queue _, ?_, ?_⟩
  · intro n hn
    obtain ⟨m', hrun, -⟩ := run_turn hcpu hm hsources n hn
    exact ⟨m', hrun⟩
  · have hnonempty : sources ≠ [] := by
      rw [← hsources, Ne, Interrupt.queue_pending_eq_nil_iff]
      exact hp
    obtain ⟨last, hlast⟩ := Nat.exists_eq_add_one.mpr (List.length_pos_iff.mpr hnonempty)
    obtain ⟨m', hrun, hserving⟩ := run_turn hcpu hm hsources last (by omega)
    rw [← hlast, List.take_length, List.drop_length] at hserving
    have hpoll := poll_back_last hserving.toServed (last + 1)
    have hstep := step_atHandler hcpu hm hserving sources[last] hpoll
    rw [hlast]
    refine ⟨m', run_succ hrun hcpu.stopped hstep, ?_, hserving.elsewhere⟩
    have hbits : Interrupt.bits sources = Interrupt.pending.eval m := by
      rw [← hsources, Interrupt.eval_pending, Interrupt.bits_queue]
    rw [hserving.requests, hbits]

/-! ### Two sources at once -/

/-- The vertical blank and the timer, allowed and requested, and handlers that return. -/
def bothPending : FlatMemory :=
  Interrupt.all.foldl (fun m irq => m.put irq.vector 0xD9)
    ((FlatMemory.zeroed.put Interrupt.enableAddr 0x05).put Interrupt.requestAddr 0xE5)

/-- A processor that a HALT has put to sleep with the switch on. -/
def sleeping : Cpu := (atEntry.setIme true).asleep 0

theorem get_bothPending (addr : Word) : bothPending.get addr =
    if addr ∈ Interrupt.all.map Interrupt.vector then 0xD9
    else if addr = Interrupt.requestAddr then 0xE5
    else if addr = Interrupt.enableAddr then 0x05 else 0 := by
  simp only [bothPending, Interrupt.all, List.foldl_cons, List.foldl_nil, FlatMemory.get_put,
    FlatMemory.get_zeroed, List.map_cons, List.map_nil, List.mem_cons, List.not_mem_nil, or_false]
  grind

theorem reachable_sleeping : sleeping.Reachable := by
  have hlen : ([0x76] : List Byte).length ≤ addressSpace := show 1 ≤ 65536 by decide
  have hget := FlatMemory.get_programmed hlen
  have hhalt : (atEntry.setIme true).current.eval (FlatMemory.programmed [0x76]) =
      .ok ⟨0x100, .base 0x76, 0⟩ := by
    simp only [eval_current, window, FlatMemory.memory_read, hget]
    rfl
  have hquiet : Interrupt.pending.eval (FlatMemory.programmed [0x76]) = 0 := by
    simp only [Interrupt.eval_pending, FlatMemory.memory_read, hget]
    decide
  have hsleeps := sleeps (Or.inr (Or.inr rfl)) ⟨rfl, rfl, rfl⟩ hhalt (by decide) hquiet
  have hstep : (atEntry.setIme true).step.eval (FlatMemory.programmed [0x76]) = .ok sleeping := by
    rw [Bus.eval, hsleeps.step, sleeping]
  exact .step (.setIme (.ofRegisters _) true) hstep

/-- The handler of the vertical blank, that of the timer, and the program again. -/
theorem drains_pending_both : ∃ first second m',
    sleeping.run bothPending 1 = ⟨sleeping.atHandler 0 .vblank, first, 1, none⟩ ∧
      sleeping.run bothPending 2 = ⟨sleeping.atHandler 1 .timer, second, 2, none⟩ ∧
      sleeping.run bothPending 3 =
        ⟨{ sleeping with cycles := 80, halted := false }, m', 3, none⟩ ∧
      m'.get Interrupt.requestAddr = 0xE0 := by
  have hpending : Interrupt.pending.eval bothPending = 0x05 := by
    simp only [Interrupt.eval_pending, FlatMemory.memory_read, get_bothPending]
    decide
  have hm : sleeping.Returning bothPending := by
    refine ⟨by simp [bothPending, Interrupt.all], fun irq => ?_, fun irq => ?_, ?_, ?_⟩
    · rw [get_bothPending]
      cases irq <;> rfl
    · cases irq <;> decide
    · decide
    · decide
  have hsources : Interrupt.queue (Interrupt.pending.eval bothPending) = [.vblank, .timer] := by
    rw [hpending]
    rfl
  obtain ⟨-, -, hturn, m', hrun, hrequests, -⟩ := drains_pending reachable_sleeping rfl rfl hm
    (by rw [hpending]; decide) hsources
  obtain ⟨first, hfirst⟩ := hturn 0 (by decide)
  obtain ⟨second, hsecond⟩ := hturn 1 (by decide)
  refine ⟨first, second, m', hfirst, hsecond, hrun, ?_⟩
  rw [hrequests, hpending, get_bothPending]
  decide

end Run

end Cpu

end Sm83
