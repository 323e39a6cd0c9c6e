/-
A step that breakpoints can prevent.

It is all or nothing.  Either a breakpoint is in the way, and then nothing has happened: the
processor that was worked on in place is what it was, and so is memory.  Or none is, and then
what happens is the step that is taken without breakpoints, its fault included.

A breakpoint is in the way exactly if an instruction is about to be executed, breakpoints are
not ignored, and one of the predicted accesses is in the set of its kind.  That the processor
does not look when all three sets are empty makes no difference.
-/
import Sm83.Proofs.InPlace
import Sm83.Proofs.Prediction

namespace Sm83

namespace Cpu

variable {M : Type} [Memory M]

/-- Breakpoints are heeded, and an instruction with these accesses is about to be executed. -/
structure Watched (cpu : Cpu) (ignored : Bool) (m : M) (i : Instruction) (acc : Accesses) :
    Prop where
  heeded : ignored = false
  halted : cpu.halted = false
  stopped : cpu.stopped = false
  current : cpu.current.eval m = .ok i
  predicted : (i.accesses cpu.regs 0).eval m = .ok acc

/-- The hit is at PC, of the kind and at the address of the access that counts. -/
structure Caught (cpu : Cpu) (sets : Breakpoints) (ignored : Bool) (m : M) (hit : Hit) :
    Prop where
  pc : hit.pc = cpu.regs.pc
  kind : (cpu.check sets ignored).eval m = .ok hit.kind
  addr : ∃ i acc, cpu.Watched ignored m i acc ∧ sets.Trips acc hit.kind hit.addr

variable {cpu : Cpu} {sets : Breakpoints} {ignored : Bool} {m : M}

/-- A hit is in the way, or nothing is, or there is no instruction to look at. -/
theorem obstacle_cases (cpu : Cpu) (sets : Breakpoints) (ignored : Bool) (m : M) :
    (∃ hit, (cpu.obstacle sets ignored).eval m = .ok (some hit) ∧
      cpu.Caught sets ignored m hit) ∨
    ((cpu.obstacle sets ignored).eval m = .ok none ∧
      ¬ ∃ i acc, cpu.Watched ignored m i acc ∧ sets.Meets acc) ∨
    ∃ fault, (cpu.obstacle sets ignored).eval m = .error fault ∧
      cpu.halted = false ∧ cpu.stopped = false ∧ cpu.current.eval m = .error fault := by
  by_cases hskip : (ignored || cpu.halted || cpu.stopped || sets.isEmpty) = true
  · refine Or.inr (Or.inl ⟨by rw [obstacle, if_pos hskip, Bus.eval_pure], ?_⟩)
    rintro ⟨i, acc, hwatched, hmeets⟩
    -- of the reasons not to look, empty sets are the only one that does not speak of the step
    have hempty : sets.isEmpty = true := by
      simpa [hwatched.heeded, hwatched.halted, hwatched.stopped] using hskip
    exact Breakpoints.not_meets_of_isEmpty hempty hmeets
  · obtain ⟨⟨⟨hheeded, hh⟩, hs⟩, -⟩ : ((ignored = false ∧ cpu.halted = false) ∧
        cpu.stopped = false) ∧ sets.isEmpty = false := by simpa using hskip
    cases hi : cpu.current.eval m with
    | error fault =>
        refine Or.inr (Or.inr ⟨fault, ?_, hh, hs, rfl⟩)
        rw [obstacle, if_neg hskip, withCurrent_eq, Bus.eval_bind, hi, Bus.eval_pure]
    | ok i =>
        obtain ⟨acc, hacc, -⟩ := current_foretold hi
        have hwatched : cpu.Watched ignored m i acc := ⟨hheeded, hh, hs, hi, hacc⟩
        rw [eval_obstacle hi hacc, if_neg hskip]
        cases hmatch : sets.firstMatch acc with
        | none =>
            refine Or.inr (Or.inl ⟨rfl, ?_⟩)
            rintro ⟨j, acc', hwatched', hmeets⟩
            obtain rfl : i = j := Except.ok.inj (hi.symm.trans hwatched'.current)
            obtain rfl : acc = acc' := Except.ok.inj (hacc.symm.trans hwatched'.predicted)
            exact Breakpoints.not_meets_of_firstMatch hmatch hmeets
        | some found =>
            obtain ⟨kind, addr⟩ := found
            refine Or.inl ⟨⟨kind, addr, i.addr⟩, rfl, addr_of_current hi, ?_, i, acc, hwatched,
              Breakpoints.trips_of_firstMatch hmatch⟩
            rw [eval_check hi hacc, hheeded, hmatch]
            rfl

/-! ### What comes of the step -/

/-- Where there is no instruction, the step faults as it would without breakpoints. -/
theorem run_of_fault {fault : Fault} (hfault : (cpu.obstacle sets ignored).eval m = .error fault)
    (hh : cpu.halted = false) (hs : cpu.stopped = false)
    (hi : cpu.current.eval m = .error fault) : (cpu.stepUnlessHit sets ignored).run m =
      ((cpu.step.eval m).map .stepped, cpu.step.exec m) := by
  have hstep : cpu.step.run m = (.error fault, m) := by
    rw [Bus.run_eq, step_eq hs]
    simp [advance, hh, hi]
  have heval : cpu.step.eval m = .error fault := congrArg Prod.fst hstep
  have hexec : cpu.step.exec m = m := congrArg Prod.snd hstep
  rw [run_stepUnlessHit, hfault, heval, hexec]
  rfl

/-- The step is prevented without a trace, or taken as it would be without breakpoints. -/
theorem run_cases (cpu : Cpu) (sets : Breakpoints) (ignored : Bool) (m : M) :
    (∃ hit, (cpu.stepUnlessHit sets ignored).run m = (.ok (.stoppedAt hit), m) ∧
      cpu.Caught sets ignored m hit) ∨
    ((cpu.stepUnlessHit sets ignored).run m =
        ((cpu.step.eval m).map .stepped, cpu.step.exec m) ∧
      ¬ ∃ i acc, cpu.Watched ignored m i acc ∧ sets.Meets acc) := by
  obtain ⟨hit, hfound, hcaught⟩ | ⟨hclear, hunmet⟩ | ⟨fault, hfault, hh, hs, hi⟩ :=
    obstacle_cases cpu sets ignored m
  · exact Or.inl ⟨hit, by rw [run_stepUnlessHit, hfound], hcaught⟩
  · exact Or.inr ⟨by rw [run_stepUnlessHit, hclear], hunmet⟩
  · refine Or.inr ⟨run_of_fault hfault hh hs hi, ?_⟩
    rintro ⟨i, acc, hwatched, -⟩
    simp [hwatched.current] at hi

/-! ### The step in place -/

open InPlace (on)

/-- What comes of a step that nothing has prevented. -/
def unprevented : Except Abort Unit × Cpu → Except Abort (Option Hit) × Cpu
  | (result, after) => (result.map fun _ => none, after)

theorem unprevented_ne_hit (s : Except Abort Unit × Cpu) (hit : Hit) :
    (unprevented s).1 ≠ .ok (some hit) := by
  obtain ⟨result, after⟩ := s
  cases result with
  | error abort => exact fun h => (nomatch h)
  | ok _ => exact fun h => (nomatch h)

/-- In place, a step that is prevented has changed neither the processor nor memory. -/
theorem run_inPlace_of_hit {hit : Hit}
    (hrun : (cpu.stepUnlessHit sets ignored).run m = (.ok (.stoppedAt hit), m)) :
    (on (InPlace.stepUnlessHit sets ignored) cpu).run m = ((.ok (some hit), cpu), m) := by
  have heval : (cpu.stepUnlessHit sets ignored).eval m = .ok (.stoppedAt hit) :=
    congrArg Prod.fst hrun
  have hexec : (cpu.stepUnlessHit sets ignored).exec m = m := congrArg Prod.snd hrun
  rw [InPlace.on_stepUnlessHit, Bus.run_eq, Bus.eval_map, Bus.exec_map, heval, hexec]
  rfl

/-- In place, a step that is not prevented is the step in place. -/
theorem run_inPlace_of_step (hrun : (cpu.stepUnlessHit sets ignored).run m =
      ((cpu.step.eval m).map .stepped, cpu.step.exec m)) :
    (on (InPlace.stepUnlessHit sets ignored) cpu).run m =
      (unprevented <$> on InPlace.step cpu).run m := by
  have heval : (cpu.stepUnlessHit sets ignored).eval m = (cpu.step.eval m).map .stepped :=
    congrArg Prod.fst hrun
  have hexec : (cpu.stepUnlessHit sets ignored).exec m = cpu.step.exec m :=
    congrArg Prod.snd hrun
  simp only [InPlace.on_stepUnlessHit, InPlace.on_step, Bus.run_eq, Bus.eval_map, Bus.exec_map,
    heval, hexec]
  cases cpu.step.eval m <;> rfl

/--
**A step that breakpoints can prevent is prevented without a trace, or taken as it would be
without breakpoints.**

That is so for a step that gives a new processor and for a step that changes the processor in
place, which is the same as before then, or as the step without breakpoints leaves it.  The step is
prevented exactly if breakpoints are heeded and some access of the instruction about to be
executed is in its set, and then the hit says which access counted.
-/
theorem prevented_or_taken (cpu : Cpu) (sets : Breakpoints) (ignored : Bool) (m : M) :
    let inPlace := (on (InPlace.stepUnlessHit sets ignored) cpu).run m
    ((∃ hit, (cpu.stepUnlessHit sets ignored).run m = (.ok (.stoppedAt hit), m) ∧
        inPlace = ((.ok (some hit), cpu), m)) ∨
      (cpu.stepUnlessHit sets ignored).run m =
          ((cpu.step.eval m).map .stepped, cpu.step.exec m) ∧
        inPlace = (unprevented <$> on InPlace.step cpu).run m) ∧
    ((∃ hit after left, inPlace = ((.ok (some hit), after), left)) ↔
      ∃ i acc, cpu.Watched ignored m i acc ∧ sets.Meets acc) ∧
    ∀ hit after left, inPlace = ((.ok (some hit), after), left) →
      cpu.Caught sets ignored m hit := by
  intro inPlace
  obtain ⟨hit, hrun, hcaught⟩ | ⟨hrun, hunmet⟩ := run_cases cpu sets ignored m
  · have hplace : inPlace = ((.ok (some hit), cpu), m) := run_inPlace_of_hit hrun
    obtain ⟨i, acc, hwatched, htrips⟩ := hcaught.addr
    refine ⟨Or.inl ⟨hit, hrun, hplace⟩, ⟨fun _ => ⟨i, acc, hwatched, htrips.meets⟩,
      fun _ => ⟨hit, cpu, m, hplace⟩⟩, fun other after left hother => ?_⟩
    obtain ⟨⟨rfl, -⟩, -⟩ : (hit = other ∧ cpu = after) ∧ m = left := by
      simpa [hplace] using hother
    exact hcaught
  · have hplace : inPlace = (unprevented <$> on InPlace.step cpu).run m :=
      run_inPlace_of_step hrun
    have hnone : ∀ hit after left, inPlace ≠ ((.ok (some hit), after), left) := by
      intro hit after left hhit
      rw [hplace, Bus.run_eq, Bus.eval_map] at hhit
      exact unprevented_ne_hit _ hit (congrArg (fun s => s.1.1) hhit)
    refine ⟨Or.inr ⟨hrun, hplace⟩, ⟨?_, fun hmet => absurd hmet hunmet⟩, ?_⟩
    · rintro ⟨hit, after, left, hhit⟩
      exact absurd hhit (hnone hit after left)
    · intro hit after left hhit
      exact absurd hhit (hnone hit after left)

end Cpu

end Sm83
