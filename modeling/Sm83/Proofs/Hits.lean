/-
Looking for a hit.

To find out whether a breakpoint is in the way, the instruction is fetched and predicted.
This reads memory and changes none of it.  So a step that no breakpoint prevents is the step
that would have been taken without breakpoints, and a hit is one of the predicted accesses:
the first read that is in the set of reads, or else the first write in its set, or else the
jump.
-/
import Sm83.Proofs.Accesses
import Sm83.Proofs.Step

namespace Sm83

variable {M : Type} [Memory M] {m : M} {i : Instruction} {acc : Accesses} {sets : Breakpoints}

/-- To predict an instruction is to read, at most, the top of the stack. -/
@[simp] theorem Instruction.exec_accesses (i : Instruction) (r : Registers) (depth : Nat) (m : M) :
    (i.accesses r depth).exec m = m := by
  cases hop : i.op with
  | ret _ | reti =>
      simp only [accesses, hop]
      split <;> simp [returnAccesses]
  | inc slot | dec slot | shift _ slot | res _ slot | set _ slot =>
      cases slot <;> simp [accesses, hop]
  | _ => simp [accesses, hop]

/-! ### The first access in its set -/

/-- An address is in a set, and it is the first one of a list that is. -/
def FirstIn (set addrs : List Word) (addr : Word) : Prop :=
  ∃ before after, addrs = before ++ addr :: after ∧ addr ∈ set ∧ ∀ x ∈ before, x ∉ set

theorem find?_contains_eq_some_iff {set addrs : List Word} {addr : Word} :
    addrs.find? set.contains = some addr ↔ FirstIn set addrs addr := by
  rw [List.find?_eq_some_iff_append]
  constructor
  · rintro ⟨hmem, before, after, hsplit, hclear⟩
    exact ⟨before, after, hsplit, by simpa using hmem, by simpa using hclear⟩
  · rintro ⟨before, after, hsplit, hmem, hclear⟩
    exact ⟨by simpa using hmem, before, after, hsplit, by simpa using hclear⟩

theorem find?_contains_eq_none_iff {set addrs : List Word} :
    addrs.find? set.contains = none ↔ ∀ x ∈ addrs, x ∉ set := by
  simp

namespace Breakpoints

variable {kind : BreakpointKind} {addr : Word}

/-- Some predicted access is in the set of its kind. -/
def Meets (sets : Breakpoints) (acc : Accesses) : Prop :=
  (∃ x ∈ acc.reads, x ∈ sets.read) ∨ (∃ x ∈ acc.writes, x ∈ sets.write) ∨
    ∃ x ∈ sets.jump, acc.jump = some x

/-- The access that counts: reads come before writes, and writes before the jump. -/
inductive Trips (sets : Breakpoints) (acc : Accesses) : BreakpointKind → Word → Prop
  | read {addr : Word} (h : FirstIn sets.read acc.reads addr) : Trips sets acc .read addr
  | write {addr : Word} (hreads : ∀ x ∈ acc.reads, x ∉ sets.read)
      (h : FirstIn sets.write acc.writes addr) : Trips sets acc .write addr
  | jump {addr : Word} (hreads : ∀ x ∈ acc.reads, x ∉ sets.read)
      (hwrites : ∀ x ∈ acc.writes, x ∉ sets.write) (hjump : acc.jump = some addr)
      (h : addr ∈ sets.jump) : Trips sets acc .jump addr

theorem Trips.meets (h : sets.Trips acc kind addr) : sets.Meets acc := by
  cases h with
  | read h =>
      obtain ⟨before, after, hsplit, hmem, -⟩ := h
      exact Or.inl ⟨addr, by simp [hsplit], hmem⟩
  | write _ h =>
      obtain ⟨before, after, hsplit, hmem, -⟩ := h
      exact Or.inr (Or.inl ⟨addr, by simp [hsplit], hmem⟩)
  | jump _ _ hjump h => exact Or.inr (Or.inr ⟨addr, h, hjump⟩)

/-- The first match is the access that counts. -/
theorem trips_of_firstMatch (h : sets.firstMatch acc = some (kind, addr)) :
    sets.Trips acc kind addr := by
  unfold firstMatch at h
  split at h
  · rename_i hread
    obtain ⟨rfl, rfl⟩ : BreakpointKind.read = kind ∧ _ = addr := by simpa using h
    exact .read (find?_contains_eq_some_iff.mp hread)
  · rename_i hreads
    have hreads := find?_contains_eq_none_iff.mp hreads
    split at h
    · rename_i hwrite
      obtain ⟨rfl, rfl⟩ : BreakpointKind.write = kind ∧ _ = addr := by simpa using h
      exact .write hreads (find?_contains_eq_some_iff.mp hwrite)
    · rename_i hwrites
      obtain ⟨target, htarget, hsame⟩ := Option.map_eq_some_iff.mp h
      obtain ⟨rfl, rfl⟩ : BreakpointKind.jump = kind ∧ target = addr := by simpa using hsame
      obtain ⟨hjump, hmem⟩ := Option.filter_eq_some_iff.mp htarget
      exact .jump hreads (find?_contains_eq_none_iff.mp hwrites) hjump (by simpa using hmem)

/-- Without a match, no access is in its set. -/
theorem not_meets_of_firstMatch (h : sets.firstMatch acc = .none) : ¬ sets.Meets acc := by
  unfold firstMatch at h
  split at h
  · simp at h
  · rename_i hreads
    split at h
    · simp at h
    · rename_i hwrites
      rintro (⟨x, hx, hmem⟩ | ⟨x, hx, hmem⟩ | ⟨x, hmem, hjump⟩)
      · exact find?_contains_eq_none_iff.mp hreads x hx hmem
      · exact find?_contains_eq_none_iff.mp hwrites x hx hmem
      · simp [hjump, hmem] at h

/-- Nothing is in an empty set. -/
theorem not_meets_of_isEmpty (h : sets.isEmpty = true) : ¬ sets.Meets acc := by
  obtain ⟨⟨hread, hwrite⟩, hjump⟩ : (sets.read = [] ∧ sets.write = []) ∧ sets.jump = [] := by
    simpa [isEmpty] using h
  simp [Meets, hread, hwrite, hjump]

/-- A hit on a jump is a hit on the predicted target. -/
theorem firstMatch_jump (h : sets.firstMatch acc = some (.jump, addr)) :
    acc.jump = some addr ∧ addr ∈ sets.jump := by
  cases trips_of_firstMatch h with
  | jump _ _ hjump h => exact ⟨hjump, h⟩

/-! ### Looking changes nothing -/

theorem eval_hit {r : Registers} (hacc : (i.accesses r 0).eval m = .ok acc) :
    (sets.hit i r).eval m =
      .ok ((sets.firstMatch acc).map fun (kind, addr) => ⟨kind, addr, i.addr⟩) := by
  simp [hit, hacc]

@[simp] theorem exec_hit (sets : Breakpoints) (i : Instruction) (r : Registers) (m : M) :
    (sets.hit i r).exec m = m := by
  simp only [hit, Bus.exec_bind, Instruction.exec_accesses]
  split <;> rfl

theorem eval_check {r : Registers} (hacc : (i.accesses r 0).eval m = .ok acc) (ignored : Bool) :
    (sets.check i r ignored).eval m =
      .ok (if ignored then .none else (sets.firstMatch acc).elim .none Prod.fst) := by
  simp [check, hacc]

end Breakpoints

namespace Cpu

variable {cpu after : Cpu} {ignored : Bool}

theorem eval_check (hi : cpu.current.eval m = .ok i)
    (hacc : (i.accesses cpu.regs 0).eval m = .ok acc) : (cpu.check sets ignored).eval m =
      .ok (if ignored then .none else (sets.firstMatch acc).elim .none Prod.fst) := by
  rw [check, withCurrent_eq, Bus.eval_bind, hi, exec_current]
  exact Breakpoints.eval_check hacc ignored

/-- What keeps a processor from a step is the first match of what was predicted. -/
theorem eval_obstacle (hi : cpu.current.eval m = .ok i)
    (hacc : (i.accesses cpu.regs 0).eval m = .ok acc) : (cpu.obstacle sets ignored).eval m =
      .ok (if ignored || cpu.halted || cpu.stopped || sets.isEmpty then none
        else (sets.firstMatch acc).map fun (kind, addr) => ⟨kind, addr, i.addr⟩) := by
  unfold obstacle
  split
  · rfl
  · rw [withCurrent_eq, Bus.eval_bind, hi, exec_current]
    exact Breakpoints.eval_hit hacc

@[simp] theorem exec_obstacle (cpu : Cpu) (sets : Breakpoints) (ignored : Bool) (m : M) :
    (cpu.obstacle sets ignored).exec m = m := by
  unfold obstacle
  split
  · rfl
  · rw [withCurrent_eq, Bus.exec_bind, exec_current]
    split
    · rfl
    · exact Breakpoints.exec_hit _ _ _ m

/-- What is in the way decides what comes of the step. -/
theorem run_stepUnlessHit (cpu : Cpu) (sets : Breakpoints) (ignored : Bool) (m : M) :
    (cpu.stepUnlessHit sets ignored).run m =
      match (cpu.obstacle sets ignored).eval m with
      | .error fault => (.error fault, m)
      | .ok (some hit) => (.ok (.stoppedAt hit), m)
      | .ok none => ((cpu.step.eval m).map .stepped, cpu.step.exec m) := by
  rw [Bus.run_eq, stepUnlessHit, Bus.eval_bind, Bus.exec_bind, exec_obstacle]
  split <;> simp [*]

/-- A step that was taken is the step that is taken without breakpoints. -/
theorem step_of_stepped (h : (cpu.stepUnlessHit sets ignored).eval m = .ok (.stepped after)) :
    (cpu.obstacle sets ignored).eval m = .ok none ∧ cpu.step.eval m = .ok after := by
  have hrun := congrArg Prod.fst (run_stepUnlessHit cpu sets ignored m)
  rw [Bus.run_eq, h] at hrun
  split at hrun
  · simp at hrun
  · simp at hrun
  · rename_i hclear
    refine ⟨hclear, ?_⟩
    cases hstep : cpu.step.eval m with
    | error fault => simp [hstep, Except.map] at hrun
    | ok other =>
        simp only [hstep, Except.map, Except.ok.injEq, Progress.stepped.injEq] at hrun
        rw [hrun]

/-- A step that was prevented had the hit in its way. -/
theorem obstacle_of_stoppedAt {hit : Hit}
    (h : (cpu.stepUnlessHit sets ignored).eval m = .ok (.stoppedAt hit)) :
    (cpu.obstacle sets ignored).eval m = .ok (some hit) := by
  have hrun := congrArg Prod.fst (run_stepUnlessHit cpu sets ignored m)
  rw [Bus.run_eq, h] at hrun
  split at hrun
  · simp at hrun
  · rename_i hfound
    simp only [Except.ok.injEq, Progress.stoppedAt.injEq] at hrun
    rw [hfound, hrun]
  · cases hstep : cpu.step.eval m <;> simp [hstep, Except.map] at hrun

end Cpu

end Sm83
