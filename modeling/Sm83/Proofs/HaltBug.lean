/-
Jumps in a halt bug.

The byte that is read twice shifts where the next instruction begins, by one and down.  A
prediction does not know of it: it counts from the end of the instruction.  This matters only
to a jump that is relative to the next instruction; it lands one byte below the address that
was predicted.  Every other jump, call and return takes its target from the instruction, from
HL or from the stack, and there the prediction is right.
-/
import Sm83.Proofs.Prediction
import Sm83.Proofs.Reachable

namespace Sm83

namespace Cpu

variable {M : Type} [Memory M] {m : M} {cpu : Cpu} {i : Instruction} {acc : Accesses}

/-- A hit on a jump names the target that was predicted. -/
theorem jump_of_stoppedAt {sets : Breakpoints} {ignored : Bool} {hit : Hit}
    (hi : cpu.current.eval m = .ok i) (hacc : (i.accesses cpu.regs 0).eval m = .ok acc)
    (h : (cpu.stepUnlessHit sets ignored).eval m = .ok (.stoppedAt hit))
    (hkind : hit.kind = .jump) : acc.jump = some hit.addr := by
  have hobstacle := obstacle_of_stoppedAt h
  rw [eval_obstacle hi hacc, Except.ok.injEq] at hobstacle
  split at hobstacle
  · simp at hobstacle
  · obtain ⟨⟨kind, addr⟩, hmatch, hsame⟩ := Option.map_eq_some_iff.mp hobstacle
    rw [← hsame] at hkind ⊢
    have hjump : kind = .jump := hkind
    rw [hjump] at hmatch
    exact (Breakpoints.firstMatch_jump hmatch).1

/-- A check that finds a jump has found the target that was predicted in the set. -/
theorem jump_of_check {sets : Breakpoints} {ignored : Bool}
    (hi : cpu.current.eval m = .ok i) (hacc : (i.accesses cpu.regs 0).eval m = .ok acc)
    (h : (cpu.check sets ignored).eval m = .ok .jump) :
    ∃ target ∈ sets.jump, acc.jump = some target := by
  rw [eval_check hi hacc, Except.ok.injEq] at h
  split at h
  · simp at h
  · cases hmatch : sets.firstMatch acc with
    | none => simp [hmatch] at h
    | some found =>
        obtain ⟨kind, addr⟩ := found
        have hjump : kind = .jump := by simpa [hmatch] using h
        rw [hjump] at hmatch
        obtain ⟨htarget, hmem⟩ := Breakpoints.firstMatch_jump hmatch
        exact ⟨addr, hmem, htarget⟩

/--
**In a halt bug all jumps but the relative ones go where they are predicted to go.**

A jump is predicted exactly if the instruction transfers control.  PC is then at the
predicted target if, and only if, the jump is not relative; after a relative jump it is one
byte below.  What a breakpoint reports is that prediction.
-/
theorem jump_of_haltBug (hr : cpu.Reachable) (hbug : cpu.haltBug = true)
    (hi : cpu.current.eval m = .ok i) :
    ∃ acc q, (i.accesses cpu.regs 0).eval m = .ok acc ∧
      cpu.advance.eval m = .ok q ∧
      cpu.step.eval m = .ok (q.poll.eval (cpu.advance.exec m)) ∧
      (acc.jump.isSome = true ↔ i.op.transfers cpu.regs.flags = true) ∧
      (acc.jump = none → q.regs.pc = i.next - 1) ∧
      (∀ target, acc.jump = some target →
        (q.regs.pc = target ↔ i.op.isRelative = false) ∧
        (i.op.isRelative = true → q.regs.pc = target - 1)) ∧
      ∀ (sets : Breakpoints) (ignored : Bool),
        (∀ hit, (cpu.stepUnlessHit sets ignored).eval m = .ok (.stoppedAt hit) →
          hit.kind = .jump → acc.jump = some hit.addr) ∧
        ((cpu.check sets ignored).eval m = .ok .jump →
          ∃ target ∈ sets.jump, acc.jump = some target) := by
  obtain ⟨hh, hs, hidle⟩ := hr.coherent.of_haltBug hbug
  obtain ⟨acc, hacc, hforetells⟩ := current_foretold hi
  have hq := eval_advance hh hi
  have hnext : cpu.fallThrough i.op = i.next - 1 := by simp [fallThrough_eq hi, hbug]
  refine ⟨acc, _, hacc, hq, eval_step hs hq, by rw [hforetells.transfers], ?_, ?_, ?_⟩
  · intro hjump
    rw [pc_of_stay hforetells hjump, hnext]
    simp [hidle]
  · intro target hjump
    have hshort : i.next - (i.next - 1) = 1 := by grind
    have hmiss : target - 1 ≠ target := by grind
    rw [pc_of_jump hforetells hjump, hnext, hshort]
    cases i.op.isRelative
    · simp
    · simp [hmiss]
  · intro sets ignored
    exact ⟨fun hit h hkind => jump_of_stoppedAt hi hacc h hkind, jump_of_check hi hacc⟩

/-! ### A HALT just below the address where cartridges start -/

/-- A HALT with one byte after it, and an interrupt pending. -/
def haltBefore (b : Byte) : FlatMemory :=
  ((FlatMemory.zeroed.load 0xFF [0x76, b]).put Interrupt.enableAddr 1).put Interrupt.requestAddr 1

/-- The processor at the HALT. -/
def atHalt : Cpu := ofRegisters { Registers.zeroed with pc := 0xFF, sp := 0xC000 }

/-- The processor after the HALT, about to read one byte twice. -/
def pastHalt : Cpu := { atEntry with cycles := 4, haltBug := true }

theorem step_atHalt (b : Byte) : atHalt.step.eval (haltBefore b) = .ok pastHalt := by
  have hop : (Opcode.base 0x76).op = .halt := by decide
  have hhalt : atHalt.current.eval (haltBefore b) = .ok ⟨0xFF, .base 0x76, 0⟩ := by
    simp only [eval_current, window, FlatMemory.memory_read, haltBefore, FlatMemory.load,
      FlatMemory.get_put, FlatMemory.get_zeroed]
    exact Instruction.decode_of_length_one (by decide) hop rfl (by simp) b 0 0xFF
  have hpending : Interrupt.pending.eval (haltBefore b) = 1 := by
    have hne : Interrupt.enableAddr ≠ Interrupt.requestAddr := by decide
    simp only [Interrupt.eval_pending, FlatMemory.memory_read, haltBefore, FlatMemory.get_put,
      hne, if_true, if_false]
    decide
  rw [(step_of_off rfl rfl hhalt rfl).1]
  show Except.ok ((atHalt.perform .halt 0).eval (haltBefore b)) = _
  rw [eval_perform_halt, hpending]
  rfl

theorem reachable_pastHalt : pastHalt.Reachable :=
  Reachable.step (.ofRegisters _) (step_atHalt 0)

theorem current_pastHalt (b : Byte) :
    pastHalt.current.eval (haltBefore b) = Instruction.decode ⟨b, b, 0⟩ 0x100 := by
  simp only [eval_current, window, FlatMemory.memory_read, haltBefore, FlatMemory.load,
    FlatMemory.get_put, FlatMemory.get_zeroed]
  rfl

/-- A restart after a halt bug goes to its vector, as predicted. -/
theorem jump_of_haltBug_restart : ∃ acc q,
    pastHalt.haltBug = true ∧
      pastHalt.current.eval (haltBefore 0xCF) = .ok ⟨0x100, .base 0xCF, 0⟩ ∧
      (Instruction.accesses ⟨0x100, .base 0xCF, 0⟩ pastHalt.regs 0).eval (haltBefore 0xCF) =
        .ok acc ∧
      pastHalt.advance.eval (haltBefore 0xCF) = .ok q ∧
      acc.jump = some 0x08 ∧ q.regs.pc = 0x08 := by
  have hi : pastHalt.current.eval (haltBefore 0xCF) = .ok ⟨0x100, .base 0xCF, 0⟩ :=
    current_pastHalt 0xCF
  obtain ⟨acc, q, hacc, hq, -, -, -, htarget, -⟩ := jump_of_haltBug reachable_pastHalt rfl hi
  have hjump : acc.jump = some 0x08 := by
    rw [← Except.ok.inj hacc]
    rfl
  exact ⟨acc, q, rfl, hi, hacc, hq, hjump, ((htarget _ hjump).1).mpr rfl⟩

/-- A relative jump after a halt bug lands one byte below the predicted address. -/
theorem relative_jump_falls_short : ∃ acc q,
    atHalt.step.eval (haltBefore 0x18) = .ok pastHalt ∧ pastHalt.Reachable ∧
      pastHalt.haltBug = true ∧
      pastHalt.current.eval (haltBefore 0x18) = .ok ⟨0x100, .base 0x18, 0x18⟩ ∧
      (Instruction.accesses ⟨0x100, .base 0x18, 0x18⟩ pastHalt.regs 0).eval (haltBefore 0x18) =
        .ok acc ∧
      pastHalt.advance.eval (haltBefore 0x18) = .ok q ∧
      acc.jump = some 0x11A ∧ q.regs.pc = 0x119 := by
  have hi : pastHalt.current.eval (haltBefore 0x18) = .ok ⟨0x100, .base 0x18, 0x18⟩ :=
    current_pastHalt 0x18
  exact ⟨.jumping 0x11A, _, step_atHalt 0x18, reachable_pastHalt, rfl, hi, rfl,
    eval_advance rfl hi, rfl, rfl⟩

end Cpu

end Sm83
