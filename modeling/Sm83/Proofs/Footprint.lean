/-
A step learns nothing from the rest of memory.

What a step reads is known beforehand: the three bytes at PC, the two interrupt registers, and the
reads that are predicted of the instruction.  So two memories that hold the same at these addresses
cannot be told apart by the step, and all that comes of it is the same on both: the result, the
processor, and every byte moved.

One thing could still tell them apart.  A byte that is written may stay what it was in one memory,
because it is read-only there, and change in the other; then they would not agree any more where a
later read looks.  But an operation reads all it reads before it writes anything, and what is read
after that are the interrupt registers, which can be written in every memory.
-/
import Sm83.Proofs.Dependence
import Sm83.Proofs.InPlace
import Sm83.Proofs.Prediction

namespace Sm83

/-! ### Reads after writes -/

/-- From its first write on, a log reads only what satisfies `s`. -/
def LateReads (s : Word → Prop) : List Transfer → Prop
  | [] => True
  | .read _ :: rest => LateReads s rest
  | .write _ _ :: rest => ∀ addr ∈ readsOf rest, s addr

namespace LateReads

variable {s : Word → Prop}

/-- A log that reads nothing else satisfies this from the beginning. -/
theorem of_reads (log : List Transfer) (h : ∀ addr ∈ readsOf log, s addr) : LateReads s log := by
  induction log with
  | nil => exact trivial
  | cons t rest ih =>
      cases t with
      | read addr => exact ih fun x hx => h x (List.mem_cons_of_mem addr hx)
      | write addr value => exact h

/-- Reads may come before. -/
theorem append_left (front : List Transfer) (hfront : writesOf front = []) {log : List Transfer}
    (h : LateReads s log) : LateReads s (front ++ log) := by
  induction front with
  | nil => exact h
  | cons t rest ih =>
      cases t with
      | read addr => exact ih hfront
      | write addr value => exact absurd hfront (List.cons_ne_nil _ _)

/-- What satisfies `s` may be read afterwards. -/
theorem append_right {log more : List Transfer} (h : LateReads s log)
    (hmore : ∀ addr ∈ readsOf more, s addr) : LateReads s (log ++ more) := by
  induction log with
  | nil => exact of_reads more hmore
  | cons t rest ih =>
      cases t with
      | read addr => exact ih h
      | write addr value =>
          intro x hx
          replace hx : x ∈ readsOf (rest ++ more) := hx
          rw [readsOf_append, List.mem_append] at hx
          exact hx.elim (h x) (hmore x)

/-- Nothing is read late if the reads come first and the writes after them. -/
theorem of_phases {front back : List Transfer} (hfront : writesOf front = [])
    (hback : readsOf back = []) : LateReads s (front ++ back) := by
  refine append_left front hfront (of_reads back ?_)
  rw [hback]
  exact fun addr haddr => absurd haddr List.not_mem_nil

end LateReads

/--
A program does the same on two memories that hold the same where it reads.

What it reads after it has written something must be writable in both or in neither.
-/
theorem FlatMemory.run_of_lateReads {s : Word → Prop} {m m' : FlatMemory} {α : Type}
    (hlate : AgreeOn s m m') (p : Bus α) (hreads : ∀ addr ∈ readsOf (p.trace m),
      m'.get addr = m.get addr) (h : LateReads s (p.trace m)) :
    p.trace m' = p.trace m ∧ p.eval m' = p.eval m := by
  induction p with
  | done a => exact ⟨rfl, rfl⟩
  | read addr rest ih =>
      rw [Bus.trace_read, readsOf_read_cons, List.forall_mem_cons] at hreads
      obtain ⟨hbyte, hothers⟩ := hreads
      obtain ⟨htrace, heval⟩ := ih _ hothers h
      simp only [Bus.trace_read, Bus.eval_read, memory_read, hbyte]
      exact ⟨congrArg (Transfer.read addr :: ·) htrace, heval⟩
  | write addr value rest ih =>
      obtain ⟨htrace, heval, -⟩ := (hlate.write addr value).run h
      exact ⟨congrArg (Transfer.write addr value :: ·) htrace, heval⟩

/-! ### What a step reads, and when -/

section Reads

variable {M : Type} [Memory M] {s : Word → Prop}

/-- To modify a slot is to read it first and then to write it. -/
theorem Registers.lateReads_modifySlot (r : Registers) (slot : Slot)
    (f : Byte → Flags → AluResult) (m : M) :
    LateReads s ((r.modifySlot slot f).trace m) := by
  unfold modifySlot
  rw [Bus.trace_bind]
  refine LateReads.of_phases (writesOf_readSlot r slot m) ?_
  rw [Bus.trace_bind, Bus.trace_pure, List.append_nil, readsOf_writeSlot]

/-- An operation has read all it reads when it begins to write. -/
theorem Op.lateReads_execute (op : Op) (literal : Word) (r : Registers) (next : Word) (m : M) :
    LateReads s ((op.execute literal r next).trace m) := by
  cases op with
  | inc slot | dec slot | shift _ slot | res _ slot | set _ slot =>
      simp only [execute, Bus.trace_bind, Bus.trace_pure, List.append_nil]
      exact r.lateReads_modifySlot slot _ m
  | move dst src =>
      simp only [execute, Bus.trace_bind, Bus.trace_pure, List.append_nil]
      exact LateReads.of_phases (r.writesOf_readSlot src m) (r.readsOf_writeSlot dst _ _)
  | alu _ slot | bit _ slot =>
      simp only [execute, Bus.trace_bind, Bus.trace_pure]
      exact LateReads.of_phases (r.writesOf_readSlot slot m) rfl
  | loadImm slot =>
      simp only [execute, Bus.trace_bind, Bus.trace_pure, List.append_nil]
      refine LateReads.of_reads _ ?_
      rw [Registers.readsOf_writeSlot]
      exact fun addr haddr => absurd haddr List.not_mem_nil
  | jr cond | jp cond | call cond | ret cond =>
      simp only [execute]
      split <;> simp [LateReads]
  | _ => simp [execute, LateReads]

namespace Cpu

/-- The address is that of one of the two interrupt registers. -/
def IsInterruptRegister (addr : Word) : Prop :=
  addr = Interrupt.enableAddr ∨ addr = Interrupt.requestAddr

/-- The addresses of the bytes that a fetch can read. -/
def fetchAddrs (cpu : Cpu) : List Word := [cpu.regs.pc, cpu.regs.pc + 1, cpu.regs.pc + 2]

variable {cpu : Cpu} {m : M} {addr : Word}

theorem mem_fetchAddrs (h : addr ∈ readsOf (cpu.current.trace m)) : addr ∈ cpu.fetchAddrs := by
  have hthird : cpu.regs.pc + 1 + 1 = cpu.regs.pc + 2 := UInt16.add_assoc _ 1 1
  have hreads : addr = cpu.regs.pc ∨ addr = cpu.secondAddr ∨ addr = cpu.secondAddr + 1 := by
    simpa using h
  unfold secondAddr at hreads
  unfold fetchAddrs
  split at hreads
  · rcases hreads with rfl | rfl | rfl <;> simp
  · rw [hthird] at hreads
    rcases hreads with rfl | rfl | rfl <;> simp

/-- Once the instruction is fetched, only the interrupt registers are read after a write. -/
theorem lateReads_afterFetch (cpu : Cpu) (i : Instruction) (m : M) :
    LateReads IsInterruptRegister ((cpu.afterFetch i).trace m) := by
  unfold afterFetch
  rw [Bus.trace_bind, trace_perform]
  refine LateReads.append_right (LateReads.append_right (i.op.lateReads_execute _ _ _ m) ?_)
    (readsOf_poll _ _)
  intro x hx
  split at hx
  · exact Or.imp_right (·) (by simpa using hx)
  · exact absurd hx List.not_mem_nil

/-- The log of a step, by what the processor is doing: nothing, idling, failing, or executing. -/
theorem trace_step_cases (cpu : Cpu) (m : M) :
    cpu.step.trace m = [] ∨
      (∃ q : Cpu, cpu.step.trace m =
        [.read Interrupt.enableAddr, .read Interrupt.requestAddr] ++ q.poll.trace m) ∨
      cpu.step.trace m = cpu.current.trace m ∨
      ∃ i, cpu.current.eval m = .ok i ∧
        cpu.step.trace m = cpu.current.trace m ++ (cpu.afterFetch i).trace m := by
  by_cases hs : cpu.stopped = true
  · have hnothing : cpu.step = pure (.ok cpu) := by simp [step, hs]
    exact Or.inl (by rw [hnothing]; rfl)
  have hrun : cpu.stopped = false := by simpa using hs
  by_cases hh : cpu.halted = true
  · have htrace := trace_step hrun (eval_advance_halted (m := m) hh)
    have hexec : cpu.advance.exec m = m := Bus.exec_eq_self (by rw [trace_advance_halted hh]; rfl)
    rw [trace_advance_halted hh, hexec] at htrace
    exact Or.inr (Or.inl ⟨_, htrace⟩)
  have hawake : cpu.halted = false := by simpa using hh
  cases hi : cpu.current.eval m with
  | error fault => exact Or.inr (Or.inr (Or.inl (by simp [step_eq hrun, advance, hawake, hi])))
  | ok i => exact Or.inr (Or.inr (Or.inr ⟨i, rfl, trace_step_of_current hawake hrun hi⟩))

/-- A step reads nothing after a write but the interrupt registers. -/
theorem lateReads_step (cpu : Cpu) (m : M) :
    LateReads IsInterruptRegister (cpu.step.trace m) := by
  rcases trace_step_cases cpu m with htrace | ⟨q, htrace⟩ | htrace | ⟨i, -, htrace⟩
  · rw [htrace]
    exact trivial
  · rw [htrace]
    exact LateReads.append_left _ rfl (LateReads.of_reads _ (readsOf_poll q m))
  · rw [htrace]
    exact trivial
  · rw [htrace]
    exact LateReads.append_left _ rfl (cpu.lateReads_afterFetch i m)

/-- What a step reads is what the fetch reads, what is predicted, or an interrupt register. -/
theorem readsOf_step (h : addr ∈ readsOf (cpu.step.trace m)) :
    addr ∈ cpu.fetchAddrs ∨ IsInterruptRegister addr ∨
      ∃ i acc, cpu.current.eval m = .ok i ∧ (i.accesses cpu.regs 0).eval m = .ok acc ∧
        addr ∈ acc.reads := by
  rcases trace_step_cases cpu m with htrace | ⟨q, htrace⟩ | htrace | ⟨i, hi, htrace⟩
  · rw [htrace] at h
    exact absurd h List.not_mem_nil
  · rw [htrace, readsOf_append, List.mem_append] at h
    rcases h with hidle | hpoll
    · exact Or.inr (Or.inl (by simpa [IsInterruptRegister] using hidle))
    · exact Or.inr (Or.inl (readsOf_poll q m addr hpoll))
  · rw [htrace] at h
    exact Or.inl (mem_fetchAddrs h)
  · rw [htrace, readsOf_append, List.mem_append] at h
    rcases h with hfetch | hafter
    · exact Or.inl (mem_fetchAddrs hfetch)
    obtain ⟨acc, hacc, hforetells⟩ := current_foretold hi
    rcases readsOf_afterFetch cpu i m addr hafter with hdata | hregister
    · refine Or.inr (Or.inr ⟨i, acc, hi, hacc, ?_⟩)
      rw [← hforetells.reads]
      exact hdata
    · exact Or.inr (Or.inl hregister)

end Cpu

end Reads

/-! ### Two memories -/

namespace FlatMemory

/-- The interrupt registers can be written in every memory that can be made. -/
theorem Made.agreeOn {m m' : FlatMemory} (hm : m.Made) (hm' : m'.Made)
    (h : ∀ addr, Cpu.IsInterruptRegister addr → m'.get addr = m.get addr) :
    AgreeOn Cpu.IsInterruptRegister m m' where
  get := h
  writable addr haddr := by
    have hhigh : 0x8000 ≤ addr := by
      rcases haddr with rfl | rfl <;> decide
    have hwritable : ∀ {m : FlatMemory}, m.Made → ¬ addr < m.romEnd := fun hmade =>
      UInt16.not_lt.mpr (UInt16.le_trans hmade.romEnd_le hhigh)
    exact iff_of_false (hwritable hm') (hwritable hm)

end FlatMemory

namespace Cpu

/--
**A step depends on memory only at the addresses it is predicted to read.**

Let two memories hold the same at the three addresses from PC on, in the two interrupt registers
and at the addresses that are predicted to be read by the instruction, if there is one.  Then one
step has the same result on both, be it a fault or not, it leaves the same processor, and it reads
and writes the same bytes in the same order, whatever else the two memories hold and whatever of
them is read-only.
-/
theorem step_depends_only {m m' : FlatMemory} (hm : m.Made) (hm' : m'.Made) (cpu : Cpu)
    (hfetch : ∀ addr ∈ cpu.fetchAddrs, m'.get addr = m.get addr)
    (hregisters : ∀ addr, IsInterruptRegister addr → m'.get addr = m.get addr)
    (hdata : ∀ i acc, cpu.current.eval m = .ok i → (i.accesses cpu.regs 0).eval m = .ok acc →
      ∀ addr ∈ acc.reads, m'.get addr = m.get addr) :
    cpu.step.eval m' = cpu.step.eval m ∧
      (InPlace.on InPlace.step cpu).eval m' = (InPlace.on InPlace.step cpu).eval m ∧
      cpu.step.trace m' = cpu.step.trace m := by
  have hreads : ∀ addr ∈ readsOf (cpu.step.trace m), m'.get addr = m.get addr := by
    intro addr haddr
    rcases readsOf_step haddr with hmem | hregister | ⟨i, acc, hi, hacc, hmem⟩
    · exact hfetch addr hmem
    · exact hregisters addr hregister
    · exact hdata i acc hi hacc addr hmem
  obtain ⟨htrace, heval⟩ := FlatMemory.run_of_lateReads (hm.agreeOn hm' hregisters) cpu.step hreads
    (lateReads_step cpu m)
  refine ⟨heval, ?_, htrace⟩
  rw [InPlace.on_step, Bus.eval_map, Bus.eval_map, heval]

/-- An increment of the byte at HL, where cartridges start. -/
def incrementing : FlatMemory := .programmed [0x34]

/-- The same in a memory whose lower half is read-only, and with another byte far from it. -/
def incrementingRom : FlatMemory := ((FlatMemory.ofRom []).load 0x100 [0x34]).write 0xC000 0x07

theorem get_incrementing (addr : Word) :
    incrementing.get addr = [0x34][(addr - 0x100).toNat]?.getD 0 := by
  have hlen : ([0x34] : List Byte).length ≤ addressSpace := show 1 ≤ 65536 by decide
  exact FlatMemory.get_programmed hlen addr

theorem get_incrementingRom (addr : Word) : incrementingRom.get addr =
    if addr = 0xC000 then 0x07 else incrementing.get addr := by
  have hwritable : ¬ (0xC000 : Word) < ((FlatMemory.ofRom []).load 0x100 [0x34]).romEnd := by
    rw [FlatMemory.romEnd_load]
    decide
  have hblank : (FlatMemory.ofRom []).get addr = 0 := by
    rw [FlatMemory.get_ofRom]
    split <;> rfl
  rw [incrementingRom, FlatMemory.get_write, FlatMemory.get_load _ _ _ _ (by decide), hblank,
    ← get_incrementing]
  simp only [hwritable, not_false_eq_true, and_true]

theorem current_atEntry_incrementing :
    atEntry.current.eval incrementing = .ok ⟨0x100, .base 0x34, 0⟩ := by
  have hop : (Opcode.base 0x34).op = .inc .atHl := by decide
  rw [eval_current, window]
  show Instruction.decode ⟨incrementing.get 0x100, _, _⟩ 0x100 = _
  rw [get_incrementing]
  exact Instruction.decode_of_length_one (by decide) hop rfl (by simp) _ _ 0x100

theorem writesOf_atEntry_incrementing :
    writesOf (atEntry.step.trace incrementing) = [(0x0000, 0x01)] := by
  have hi := current_atEntry_incrementing
  have hop : (Instruction.mk 0x100 (.base 0x34) 0).op = .inc .atHl := by decide
  have hq := eval_advance rfl hi
  rw [hop] at hq
  rw [trace_step rfl hq, trace_advance rfl hi, trace_perform, writesOf_append, writesOf_append, hop]
  rcases poll_cases hq with ⟨hon, -⟩ | ⟨-, -, hwrites⟩
  · rw [perform_master] at hon
    exact absurd hon Bool.false_ne_true
  · have hread : incrementing.get 0x0000 = 0 := get_incrementing 0x0000
    rw [hwrites]
    show [((0x0000 : Word), (Alu.inc (incrementing.get 0x0000) Flags.none).value)] = _
    rw [hread]
    rfl

/-- The byte is read, and is written as incremented, where it can be written and where it cannot. -/
theorem step_depends_only_readOnly :
    incrementingRom.get 0xC000 ≠ incrementing.get 0xC000 ∧
      atEntry.step.eval incrementingRom = atEntry.step.eval incrementing ∧
      writesOf (atEntry.step.trace incrementingRom) = [(0x0000, 0x01)] := by
  have hmade : incrementing.Made := .load .zeroed 0x100 [0x34]
  have hmadeRom : incrementingRom.Made := .write (.load (.ofRom []) 0x100 [0x34]) 0xC000 0x07
  have hsame : ∀ addr, addr ≠ 0xC000 → incrementingRom.get addr = incrementing.get addr := by
    intro addr haddr
    rw [get_incrementingRom, if_neg haddr]
  have hfetch : ∀ addr ∈ atEntry.fetchAddrs, incrementingRom.get addr = incrementing.get addr := by
    intro addr haddr
    refine hsame addr fun hfar => ?_
    rw [hfar] at haddr
    exact absurd haddr (by decide)
  have hregisters : ∀ addr, IsInterruptRegister addr →
      incrementingRom.get addr = incrementing.get addr := by
    rintro addr (rfl | rfl)
    · exact hsame _ (by decide)
    · exact hsame _ (by decide)
  have hdata : ∀ i acc, atEntry.current.eval incrementing = .ok i →
      (i.accesses atEntry.regs 0).eval incrementing = .ok acc →
      ∀ addr ∈ acc.reads, incrementingRom.get addr = incrementing.get addr := by
    intro i acc hi hacc addr haddr
    rw [current_atEntry_incrementing, Except.ok.injEq] at hi
    rw [← hi] at hacc
    have hpredicted : acc = .modifying 0x0000 := (Except.ok.inj hacc).symm
    rw [hpredicted] at haddr
    rw [List.mem_singleton.mp haddr]
    exact hsame 0x0000 (by decide)
  obtain ⟨heval, -, htrace⟩ := step_depends_only hmade hmadeRom atEntry hfetch hregisters hdata
  refine ⟨?_, heval, ?_⟩
  · rw [get_incrementingRom, get_incrementing]
    decide
  · rw [htrace, writesOf_atEntry_incrementing]

end Cpu

end Sm83
