/-
Static flow covers dynamic flow.

A run that stays with the bytes of an image executes nothing but what the walk over the image
finds, as long as it goes on by what its instructions themselves tell.  It no longer does when
it returns, jumps to where HL points, halts or stops, or when an interrupt is let in.

The executor moves PC by what an operation does, and the walk moves on by the flow of control
that an instruction is sorted under.  These are two case analyses over the operations, and
`leadsTo_next` is where they meet: it is one step.  A run is then covered by induction, since
what the walk finds is closed under its steps.
-/
import Sm83.Proofs.Dependence
import Sm83.Proofs.Walk

namespace Sm83

open Disassembly (Reached discovered mem_discovered)

/-! ### One instruction -/

namespace Op

/-- Whether control goes where the instruction does not tell, or does not go on. -/
def leaves (op : Op) (flags : Flags) : Bool :=
  match op with
  | ret cond => cond.all (·.holds flags)
  | reti | jpHl | halt | stop => true
  | _ => false

/-- Whether the operation is a conditional jump or call that is taken. -/
def diverts (op : Op) (flags : Flags) : Bool :=
  match op with
  | jr (some cond) | jp (some cond) | call (some cond) => cond.holds flags
  | _ => false

end Op

namespace Instruction

variable {M : Type} [Memory M] {m : M} {i : Instruction} {r : Registers} {permissive : Bool}

/-- Control goes on only to where an instruction leads, or it leaves what is known of it. -/
theorem leadsTo_next (hi : i.op.Executable) (hleaves : i.op.leaves r.flags = false)
    (hdiverts : permissive = true ∨ i.op.diverts r.flags = false) :
    i.LeadsTo permissive ((i.op.execute i.literal r i.next).eval m).next := by
  cases hop : i.op with
  | escape => exact absurd hop hi.ne_escape
  | undefined byte => exact absurd hop (hi.ne_undefined byte)
  | reti | jpHl | halt | stop => simp [hop, Op.leaves] at hleaves
  | jr cond | jp cond | call cond =>
      cases cond with
      | none =>
          refine .direct ?_
          simp [flow, hop, Op.execute, Op.taken, Outcome.branch, relativeTarget, literalByte]
      | some cc =>
          by_cases htaken : cc.holds r.flags = true
          · refine .through ?_ (hdiverts.resolve_right (by simp [hop, Op.diverts, htaken]))
            simp [flow, hop, Op.execute, Op.taken, Outcome.branch, relativeTarget, literalByte,
              htaken]
          · have hnext : ((i.op.execute i.literal r i.next).eval m).next = i.next := by
              simp [hop, Op.execute, Op.taken, Outcome.goOn, htaken]
            rw [← hop, hnext]
            exact .past (by simp [flow, hop])
  | rst n => exact .direct (Or.inr (Or.inr (by simp [flow, hop, Op.execute, Outcome.goOn])))
  | ret cond =>
      have huntaken : cond.all (·.holds r.flags) = false := by simpa [hop, Op.leaves] using hleaves
      have hnext : ((i.op.execute i.literal r i.next).eval m).next = i.next := by
        simp [hop, Op.execute, Op.taken, Outcome.goOn, huntaken]
      rw [← hop, hnext]
      cases cond with
      | none => simp at huntaken
      | some cc => exact .next (by simp [flow, hop])
  | _ =>
      have hnext : ((i.op.execute i.literal r i.next).eval m).next = i.next := by
        simp [hop, Op.execute, Outcome.goOn, Outcome.ask]
      rw [← hop, hnext]
      exact .next (by simp [flow, hop])

end Instruction

/-! ### One step -/

namespace Cpu

variable {M N : Type} [Memory M] [Memory N]

/-- The processor runs, and moves past the opcodes it reads. -/
structure Running (cpu : Cpu) : Prop where
  halted : cpu.halted = false
  stopped : cpu.stopped = false
  haltBug : cpu.haltBug = false

/-- The three bytes from an address on are the same in a memory and in an image. -/
structure Pictures (image : N) (m : M) (addr : Word) : Prop where
  first : Memory.read m addr = Memory.read image addr
  second : Memory.read m (addr + 1) = Memory.read image (addr + 1)
  third : Memory.read m (addr + 2) = Memory.read image (addr + 2)

/-- A step that executes an instruction of an image and goes on by what the instruction tells. -/
structure StepsAlong (image : N) (cpu : Cpu) (m : M) (i : Instruction) (after : Cpu) : Prop where
  current : cpu.current.eval m = .ok i
  step : cpu.step.eval m = .ok after
  quiet : ∀ irq, ¬ cpu.LetsIn m irq
  stays : i.op.leaves cpu.regs.flags = false
  pictured : Pictures image m cpu.regs.pc

section Step

variable {image : N} {cpu after : Cpu} {m : M} {i : Instruction}

/-- What a running processor executes off an image is what the image holds at PC. -/
theorem instructionAt_of_current (hrun : cpu.Running) (hpicture : Pictures image m cpu.regs.pc)
    (hi : cpu.current.eval m = .ok i) : Walk.instructionAt image cpu.regs.pc = .ok i := by
  have hsecond : cpu.secondAddr = cpu.regs.pc + 1 := by simp [secondAddr, hrun.haltBug]
  have hthird : cpu.regs.pc + 1 + 1 = cpu.regs.pc + 2 := UInt16.add_assoc _ _ _
  rw [eval_current, window, hsecond, hthird, hpicture.first, hpicture.second,
    hpicture.third] at hi
  exact hi

/-- The processor runs on, and PC is at an address that the instruction leads to. -/
theorem StepsAlong.leadsTo (h : cpu.StepsAlong image m i after) (hrun : cpu.Running)
    {permissive : Bool} (hdiverts : permissive = true ∨ i.op.diverts cpu.regs.flags = false) :
    after.Running ∧ i.LeadsTo permissive after.regs.pc := by
  have hstep := step_of_quiet hrun.halted hrun.stopped h.current h.quiet
  obtain rfl : (cpu.perform i.op i.literal).eval m = after :=
    Except.ok.inj (hstep.symm.trans h.step)
  have hhalt : i.op ≠ .halt := by
    intro hop
    simpa [hop, Op.leaves] using h.stays
  have hstop : i.op ≠ .stop := by
    intro hop
    simpa [hop, Op.leaves] using h.stays
  refine ⟨⟨?_, ?_, ?_⟩, ?_⟩
  · simp [perform_halted, hrun.halted, hhalt]
  · simp [perform_stopped, hrun.stopped, hstop]
  · simp [perform_haltBug, hhalt]
  · have hnext : cpu.fallThrough i.op = i.next := by
      simp [fallThrough_eq h.current, hrun.haltBug]
    rw [perform_regs, outcome, hnext]
    simp only [hhalt, false_and, if_false]
    exact Instruction.leadsTo_next (executable_of_current h.current) h.stays hdiverts

end Step

/-! ### Runs -/

/-- An instruction that was executed, and the flags it found. -/
structure Executed where
  instruction : Instruction
  flags : Flags

/-- Steps along an image, one after the other, and what they execute. -/
inductive RunsAlong (image : N) : Cpu → M → List Executed → Cpu → M → Prop
  | nil (cpu : Cpu) (m : M) : RunsAlong image cpu m [] cpu m
  | cons {cpu after final : Cpu} {m last : M} {i : Instruction} {log : List Executed}
      (h : cpu.StepsAlong image m i after)
      (rest : RunsAlong image after (cpu.step.exec m) log final last) :
      RunsAlong image cpu m (⟨i, cpu.regs.flags⟩ :: log) final last

variable {image : N} {cpu final : Cpu} {m last : M} {log : List Executed}

/-- A run from an address that the walk reaches executes what the walk discovers. -/
theorem RunsAlong.discovered (h : RunsAlong image cpu m log final last) {permissive : Bool}
    {entry : Word} (hrun : cpu.Running) (hreached : Reached image permissive entry cpu.regs.pc)
    (hdiverts : permissive = true ∨ ∀ e ∈ log, e.instruction.op.diverts e.flags = false) :
    ∀ e ∈ log, e.instruction ∈ discovered image entry permissive := by
  induction h with
  | nil => simp
  | @cons cpu after final m last i log h _ ih =>
      have hi := instructionAt_of_current hrun h.pictured h.current
      obtain ⟨hafter, hleads⟩ := h.leadsTo hrun (hdiverts.imp_right fun hall =>
        hall ⟨i, cpu.regs.flags⟩ List.mem_cons_self)
      have hrest := ih hafter (hreached.step hi hleads)
        (hdiverts.imp_right fun hall e he => hall e (List.mem_cons_of_mem _ he))
      intro e he
      rcases List.mem_cons.mp he with rfl | he
      · have haddr := Walk.addr_of_instructionAt hi
        exact mem_discovered.mpr ⟨haddr.symm ▸ hreached, haddr.symm ▸ hi⟩
      · exact hrest e he

/--
**What is executed along an image is what the permissive walk from the first PC discovers.**

If no conditional jump or call is taken on the way, it is even what the strict walk discovers.
-/
theorem executed_discovered (hrun : cpu.Running) (h : RunsAlong image cpu m log final last) :
    (∀ e ∈ log, e.instruction ∈ discovered image cpu.regs.pc true) ∧
      ((∀ e ∈ log, e.instruction.op.diverts e.flags = false) →
        ∀ e ∈ log, e.instruction ∈ discovered image cpu.regs.pc false) := by
  constructor
  · exact h.discovered hrun .entry (Or.inl rfl)
  · intro hplain
    exact h.discovered hrun .entry (Or.inr hplain)

/-! ### A loop at the address where cartridges start -/

/-- A jump that is taken if the last result was zero, and a jump back to it. -/
def looping : FlatMemory := FlatMemory.programmed [0x28, 0xFE, 0x18, 0xFC]

/-- The processor after the first jump, which it has not taken. -/
def pastBranch : Cpu := { atEntry with regs := { atEntry.regs with pc := 0x102 }, cycles := 8 }

theorem get_looping (addr : Word) :
    looping.get addr = [0x28, 0xFE, 0x18, 0xFC][(addr - 0x100).toNat]?.getD 0 := by
  have hlen : [0x28, 0xFE, 0x18, 0xFC].length ≤ addressSpace := show 4 ≤ 65536 by decide
  exact FlatMemory.get_programmed hlen addr

theorem current_looping :
    atEntry.current.eval looping = .ok ⟨0x100, .base 0x28, 0xFE⟩ ∧
      pastBranch.current.eval looping = .ok ⟨0x102, .base 0x18, 0xFC⟩ := by
  simp only [eval_current, window, FlatMemory.memory_read, get_looping]
  exact ⟨rfl, rfl⟩

theorem exec_atEntry_looping : atEntry.step.exec looping = looping := by
  refine Bus.exec_eq_self ?_
  rw [trace_step_of_current rfl rfl current_looping.1]
  rfl

/-- Once around the loop. -/
def onceAround : List Executed :=
  [⟨⟨0x100, .base 0x28, 0xFE⟩, .none⟩, ⟨⟨0x102, .base 0x18, 0xFC⟩, .none⟩]

/-- No conditional jump is taken on the way around, so that both walks discover the loop. -/
theorem executed_discovered_looping : ∃ last,
    RunsAlong looping atEntry looping onceAround { atEntry with cycles := 20 } last ∧
      (∀ e ∈ onceAround, e.instruction ∈ discovered looping 0x100 true) ∧
      ∀ e ∈ onceAround, e.instruction ∈ discovered looping 0x100 false := by
  obtain ⟨hfirst, hsecond⟩ := current_looping
  obtain ⟨hstep, hquiet⟩ := step_of_off rfl rfl hfirst rfl
  obtain ⟨hstep', hquiet'⟩ := step_of_off rfl rfl hsecond rfl
  have hbranch : atEntry.StepsAlong looping looping ⟨0x100, .base 0x28, 0xFE⟩ pastBranch :=
    ⟨hfirst, hstep, hquiet, rfl, rfl, rfl, rfl⟩
  have hback : pastBranch.StepsAlong looping looping ⟨0x102, .base 0x18, 0xFC⟩
      { atEntry with cycles := 20 } := ⟨hsecond, hstep', hquiet', rfl, rfl, rfl, rfl⟩
  have hrun : RunsAlong looping atEntry looping onceAround { atEntry with cycles := 20 }
      (pastBranch.step.exec looping) := by
    refine .cons hbranch ?_
    rw [exec_atEntry_looping]
    exact .cons hback (.nil _ _)
  obtain ⟨hpermissive, hstrict⟩ := executed_discovered ⟨rfl, rfl, rfl⟩ hrun
  have hplain : ∀ e ∈ onceAround, e.instruction.op.diverts e.flags = false := by
    simp only [onceAround, List.forall_mem_cons]
    exact ⟨rfl, rfl, List.forall_mem_nil _⟩
  exact ⟨_, hrun, hpermissive, hstrict hplain⟩

end Cpu

end Sm83
