/-
Where a run of a session ends.

A run is plain stepping that ends at the first reason to end: the limit is reached, the processor
has stopped, a breakpoint is in the way of the next instruction, or the next step faults.  Looking
for breakpoints changes nothing, and a cable that leads nowhere does not hear the time pass;
so the state a run ends in is the one that plain steps lead to.

The induction is on the limit.  What it carries along is that no limit beyond the end makes a
difference, because a run does not know its limit but by reaching it.
-/
import Sm83.Proofs.Faults
import Sm83.Proofs.Hex
import Sm83.Proofs.Utf8
import Sm83.Session

namespace Sm83

namespace Cpu

variable {M : Type} [Memory M] {cpu : Cpu} {m : M} {sets : Breakpoints} {ignored : Bool}

/-- The processor and its memory after `n` steps, unless one of them faults. -/
def afterSteps : Nat → Cpu → M → Except Fault (Cpu × M)
  | 0, cpu, m => .ok (cpu, m)
  | n + 1, cpu, m =>
    match cpu.step.run m with
    | (.error fault, _) => .error fault
    | (.ok after, m) => afterSteps n after m

/-- If an access is in its set, the hit on it is in the way. -/
theorem caught_of_meets (h : ∃ i acc, cpu.Watched ignored m i acc ∧ sets.Meets acc) :
    ∃ hit, cpu.Caught sets ignored m hit := by
  obtain ⟨hit, -, hcaught⟩ | ⟨-, hunmet⟩ | ⟨fault, -, -, -, hfault⟩ :=
    obstacle_cases cpu sets ignored m
  · exact ⟨hit, hcaught⟩
  · exact absurd h hunmet
  · obtain ⟨i, acc, hwatched, -⟩ := h
    rw [hwatched.current] at hfault
    exact absurd hfault (by simp)

/-- A step that faults leaves memory as it is. -/
theorem run_step_of_fault {fault : Fault} (h : cpu.step.eval m = .error fault) :
    cpu.step.run m = (.error fault, m) := by
  obtain ⟨hfaults, -⟩ := eval_step_eq_error_iff.mp h
  rw [Bus.run_eq, h, Bus.exec_eq_self (writesOf_of_faults hfaults)]

end Cpu

namespace Session

variable {M : Type} [Memory M] {sets : Breakpoints} {ignored : Bool}

/-! ### How a run goes on -/

section AnyCable

variable {C : Type} [Cable C]

/-- What a run does that may take another step: it looks, steps, tells the time, and goes on. -/
theorem run_succ (sets : Breakpoints) (ignored : Bool) (limit : Nat) (cpu : Cpu)
    (serial : SerialInterface M C) : run sets ignored (limit + 1) cpu serial =
      match (cpu.obstacle sets ignored).eval serial with
      | .error fault => ⟨cpu, serial, .fault fault⟩
      | .ok (some hit) => ⟨cpu, serial, .hit hit⟩
      | .ok none =>
        match cpu.step.eval serial with
        | .error fault => ⟨cpu, serial, .fault fault⟩
        | .ok after =>
          let left := (cpu.step.exec serial).tick (ticksBetween cpu after)
          if after.stopped then ⟨after, left, .stopped⟩ else run sets ignored limit after left := by
  rw [run, Bus.run_eq, Cpu.exec_obstacle]
  rcases (cpu.obstacle sets ignored).eval serial with fault | _ | hit
  · rfl
  · cases hstep : cpu.step.eval serial with
    | error fault => simp only [Cpu.run_step_of_fault hstep]
    | ok after => simp only [Bus.run_eq, hstep]
  · rfl

/--
A run that may take another step is at a hit, is at a fault, or takes the step.

Which of these it is does not depend on how many more steps it may take.
-/
theorem run_succ_cases (sets : Breakpoints) (ignored : Bool) (cpu : Cpu)
    (serial : SerialInterface M C) :
    (∃ hit, cpu.Caught sets ignored serial hit ∧
      ∀ limit, run sets ignored (limit + 1) cpu serial = ⟨cpu, serial, .hit hit⟩) ∨
    (¬ ∃ i acc, cpu.Watched ignored serial i acc ∧ sets.Meets acc) ∧
      ((∃ fault, cpu.step.eval serial = .error fault ∧
        ∀ limit, run sets ignored (limit + 1) cpu serial = ⟨cpu, serial, .fault fault⟩) ∨
      ∃ after left, cpu.step.run serial = (.ok after, left) ∧
        ∀ limit, run sets ignored (limit + 1) cpu serial =
          if after.stopped then ⟨after, left.tick (ticksBetween cpu after), .stopped⟩
          else run sets ignored limit after (left.tick (ticksBetween cpu after))) := by
  obtain ⟨hit, hfound, hcaught⟩ | ⟨hclear, hunmet⟩ | ⟨fault, hfault, hh, hs, hi⟩ :=
    Cpu.obstacle_cases cpu sets ignored serial
  · exact Or.inl ⟨hit, hcaught, fun limit => by rw [run_succ, hfound]⟩
  · refine Or.inr ⟨hunmet, ?_⟩
    cases hstep : cpu.step.eval serial with
    | error fault =>
        exact Or.inl ⟨fault, rfl, fun limit => by simp only [run_succ, hclear, hstep]⟩
    | ok after =>
        refine Or.inr ⟨after, cpu.step.exec serial, by rw [Bus.run_eq, hstep], fun limit => ?_⟩
        simp only [run_succ, hclear, hstep]
  · refine Or.inr ⟨?_, Or.inl ⟨fault, ?_, fun limit => by rw [run_succ, hfault]⟩⟩
    · rintro ⟨i, acc, hwatched, -⟩
      rw [hwatched.current] at hi
      exact absurd hi (by simp)
    · simp [Cpu.step_eq hs, Cpu.advance, hh, hi]

end AnyCable

/-! ### The first reason to end -/

/--
A run that has taken `n` steps ends in this state, for this reason.

The limit and the stop mode come before a hit, and a hit before a fault.  That both the limit is
reached and the processor has stopped are two reasons for the same.
-/
inductive EndsAt (sets : Breakpoints) (ignored : Bool) (limit n : Nat) (cpu : Cpu) (m : M) :
    Ending → Prop
  | limit (h : n = limit) : EndsAt sets ignored limit n cpu m .limit
  | stopped (hn : 0 < n) (h : cpu.stopped = true) : EndsAt sets ignored limit n cpu m .stopped
  | hit {hit : Hit} (hn : n < limit) (h : cpu.Caught sets ignored m hit) :
      EndsAt sets ignored limit n cpu m (.hit hit)
  | fault {fault : Fault} (hn : n < limit)
      (hunmet : ¬ ∃ i acc, cpu.Watched ignored m i acc ∧ sets.Meets acc)
      (h : cpu.step.eval m = .error fault) : EndsAt sets ignored limit n cpu m (.fault fault)

/-- Plain steps lead to this state, and it is the first on the way in which a run ends. -/
structure FirstEnd (sets : Breakpoints) (ignored : Bool) (limit : Nat) (cpu : Cpu) (m : M)
    (n : Nat) (after : Cpu) (left : M) (why : Ending) : Prop where
  reached : cpu.afterSteps n m = .ok (after, left)
  ends : EndsAt sets ignored limit n after left why
  first : ∀ k < n, ∃ q m', cpu.afterSteps k m = .ok (q, m') ∧
    ∀ other, ¬ EndsAt sets ignored limit k q m' other

section Ends

variable {cpu q after : Cpu} {m m' left : M} {limit n : Nat} {why : Ending}

/-- A run does not go beyond its limit. -/
theorem FirstEnd.le_limit (h : FirstEnd sets ignored limit cpu m n after left why) :
    n ≤ limit := by
  refine Nat.le_of_not_lt fun hlt => ?_
  obtain ⟨q, m', -, hgoes⟩ := h.first limit hlt
  exact hgoes .limit (.limit rfl)

/-- No instruction with an access in its set is executed on the way. -/
theorem FirstEnd.unmet (h : FirstEnd sets ignored limit cpu m n after left why) {k : Nat}
    (hk : k < n) (hq : cpu.afterSteps k m = .ok (q, m')) :
    ¬ ∃ i acc, q.Watched ignored m' i acc ∧ sets.Meets acc := by
  intro hmet
  obtain ⟨hit, hcaught⟩ := Cpu.caught_of_meets hmet
  obtain ⟨q', m'', hq', hgoes⟩ := h.first k hk
  obtain ⟨rfl, rfl⟩ : q = q' ∧ m' = m'' := by simpa [hq] using hq'
  exact hgoes (.hit hit) (.hit (Nat.lt_of_lt_of_le hk h.le_limit) hcaught)

/-- What ends a run after one step more ends it after that step. -/
theorem EndsAt.succ (h : EndsAt sets ignored limit n cpu m why) :
    EndsAt sets ignored (limit + 1) (n + 1) cpu m why := by
  cases h with
  | limit h => exact .limit (congrArg (· + 1) h)
  | stopped hn h => exact .stopped (Nat.succ_pos n) h
  | hit hn h => exact .hit (Nat.succ_lt_succ hn) h
  | fault hn hunmet h => exact .fault (Nat.succ_lt_succ hn) hunmet h

/-- The converse needs that the processor has not stopped at the start. -/
theorem EndsAt.of_succ (h : EndsAt sets ignored (limit + 1) (n + 1) cpu m why)
    (hs : n = 0 → cpu.stopped = false) : EndsAt sets ignored limit n cpu m why := by
  cases h with
  | limit h => exact .limit (Nat.succ.inj h)
  | stopped hn h =>
      refine .stopped (Nat.pos_of_ne_zero fun hzero => ?_) h
      rw [hs hzero] at h
      exact absurd h (by simp)
  | hit hn h => exact .hit (Nat.lt_of_succ_lt_succ hn) h
  | fault hn hunmet h => exact .fault (Nat.lt_of_succ_lt_succ hn) hunmet h

/-- A run that ends before its first step has no state on the way. -/
theorem EndsAt.firstEnd (h : EndsAt sets ignored limit 0 cpu m why) :
    FirstEnd sets ignored limit cpu m 0 cpu m why :=
  ⟨rfl, h, fun k hk => absurd hk (Nat.not_lt_zero k)⟩

/-- A run that may and can take a step, with nothing in its way, does not end before it. -/
theorem not_endsAt_zero (hunmet : ¬ ∃ i acc, cpu.Watched ignored m i acc ∧ sets.Meets acc)
    (hstep : cpu.step.run m = (.ok q, m')) : ¬ EndsAt sets ignored (limit + 1) 0 cpu m why := by
  have heval : cpu.step.eval m = .ok q := congrArg Prod.fst hstep
  intro hends
  cases hends with
  | limit h => exact absurd h (Nat.succ_ne_zero limit).symm
  | stopped hn _ => exact absurd hn (Nat.lt_irrefl 0)
  | hit _ hcaught =>
      obtain ⟨i, acc, hwatched, htrips⟩ := hcaught.addr
      exact hunmet ⟨i, acc, hwatched, htrips.meets⟩
  | fault _ _ hfault =>
      rw [heval] at hfault
      exact absurd hfault (by simp)

/-- If the first step stops the processor, the run ends after it. -/
theorem firstEnd_of_stopped (hunmet : ¬ ∃ i acc, cpu.Watched ignored m i acc ∧ sets.Meets acc)
    (hstep : cpu.step.run m = (.ok q, m')) (hs : q.stopped = true) :
    FirstEnd sets ignored (limit + 1) cpu m 1 q m' .stopped where
  reached := by simp only [Cpu.afterSteps, hstep]
  ends := .stopped Nat.zero_lt_one hs
  first k hk := by
    obtain rfl : k = 0 := Nat.lt_one_iff.mp hk
    exact ⟨cpu, m, rfl, fun other => not_endsAt_zero hunmet hstep⟩

/-- If it does not, the run ends where it would end from the state after the step. -/
theorem FirstEnd.cons (hunmet : ¬ ∃ i acc, cpu.Watched ignored m i acc ∧ sets.Meets acc)
    (hstep : cpu.step.run m = (.ok q, m')) (hs : q.stopped = false)
    (h : FirstEnd sets ignored limit q m' n after left why) :
    FirstEnd sets ignored (limit + 1) cpu m (n + 1) after left why where
  reached := by
    rw [Cpu.afterSteps, hstep]
    exact h.reached
  ends := h.ends.succ
  first k hk := by
    cases k with
    | zero => exact ⟨cpu, m, rfl, fun other => not_endsAt_zero hunmet hstep⟩
    | succ k =>
        obtain ⟨p, m'', hp, hgoes⟩ := h.first k (Nat.lt_of_succ_lt_succ hk)
        refine ⟨p, m'', ?_, fun other hends => hgoes other (hends.of_succ fun hzero => ?_)⟩
        · rw [Cpu.afterSteps, hstep]
          exact hp
        · subst hzero
          obtain ⟨rfl, rfl⟩ : q = p ∧ m' = m'' := by simpa [Cpu.afterSteps] using hp
          exact hs

end Ends

/-! ### A run ends there -/

/-- A run leaves the state it ends in, and any limit beyond that would have done. -/
structure RunEnds (sets : Breakpoints) (ignored : Bool) (limit : Nat) (cpu : Cpu)
    (serial : SerialInterface M OpenCable) (n : Nat) (after : Cpu)
    (left : SerialInterface M OpenCable) (why : Ending) : Prop where
  first : FirstEnd sets ignored limit cpu serial n after left why
  run : run sets ignored limit cpu serial = ⟨after, left, why⟩
  beyond : why ≠ .limit → ∀ more > n, Session.run sets ignored more cpu serial = ⟨after, left, why⟩

section Runs

variable {cpu q after : Cpu} {serial m' left : SerialInterface M OpenCable} {limit n : Nat}
  {why : Ending}

/-- A run that ends before its first step, for a reason that is no limit. -/
theorem runEnds_of_endsAt (hends : EndsAt sets ignored (limit + 1) 0 cpu serial why)
    (hrun : ∀ limit, run sets ignored (limit + 1) cpu serial = ⟨cpu, serial, why⟩) :
    RunEnds sets ignored (limit + 1) cpu serial 0 cpu serial why where
  first := hends.firstEnd
  run := hrun limit
  beyond _ more hmore := by
    obtain ⟨more, rfl⟩ := Nat.exists_eq_add_one.mpr hmore
    exact hrun more

/-- A run whose first step stops the processor. -/
theorem runEnds_of_stopped
    (hunmet : ¬ ∃ i acc, cpu.Watched ignored serial i acc ∧ sets.Meets acc)
    (hstep : cpu.step.run serial = (.ok q, m')) (hs : q.stopped = true)
    (hrun : ∀ limit, run sets ignored (limit + 1) cpu serial = ⟨q, m', .stopped⟩) :
    RunEnds sets ignored (limit + 1) cpu serial 1 q m' .stopped where
  first := firstEnd_of_stopped hunmet hstep hs
  run := hrun limit
  beyond _ more hmore := by
    obtain ⟨more, rfl⟩ := Nat.exists_eq_add_one.mpr (Nat.lt_of_succ_lt hmore)
    exact hrun more

/-- A run that goes on after its first step ends where the rest of it ends. -/
theorem RunEnds.cons (h : RunEnds sets ignored limit q m' n after left why)
    (hunmet : ¬ ∃ i acc, cpu.Watched ignored serial i acc ∧ sets.Meets acc)
    (hstep : cpu.step.run serial = (.ok q, m')) (hs : q.stopped = false)
    (hrun : ∀ limit, Session.run sets ignored (limit + 1) cpu serial =
      Session.run sets ignored limit q m') :
    RunEnds sets ignored (limit + 1) cpu serial (n + 1) after left why where
  first := h.first.cons hunmet hstep hs
  run := (hrun limit).trans h.run
  beyond hwhy more hmore := by
    obtain ⟨more, rfl⟩ := Nat.exists_eq_add_one.mpr (Nat.zero_lt_of_lt hmore)
    rw [hrun]
    exact h.beyond hwhy more (Nat.lt_of_succ_lt_succ hmore)

end Runs

/-- Every run ends at the first reason to end. -/
theorem exists_runEnds (sets : Breakpoints) (ignored : Bool) (limit : Nat) :
    ∀ (cpu : Cpu) (serial : SerialInterface M OpenCable),
      ∃ n after left why, RunEnds sets ignored limit cpu serial n after left why := by
  induction limit with
  | zero =>
      intro cpu serial
      exact ⟨0, cpu, serial, .limit, EndsAt.firstEnd (.limit rfl), rfl,
        fun hwhy => absurd rfl hwhy⟩
  | succ limit ih =>
      intro cpu serial
      obtain ⟨hit, hcaught, hrun⟩ | ⟨hunmet, ⟨fault, hfault, hrun⟩ | ⟨q, m', hstep, hrun⟩⟩ :=
        run_succ_cases sets ignored cpu serial
      · have hends : EndsAt sets ignored (limit + 1) 0 cpu serial (.hit hit) :=
          .hit (Nat.succ_pos limit) hcaught
        exact ⟨0, cpu, serial, .hit hit, runEnds_of_endsAt hends hrun⟩
      · have hends : EndsAt sets ignored (limit + 1) 0 cpu serial (.fault fault) :=
          .fault (Nat.succ_pos limit) hunmet hfault
        exact ⟨0, cpu, serial, .fault fault, runEnds_of_endsAt hends hrun⟩
      -- a cable that leads nowhere is not changed by the time it is told
      have hdeaf : m'.tick (ticksBetween cpu q) = m' := rfl
      rw [hdeaf] at hrun
      by_cases hs : q.stopped = true
      · simp only [hs, if_true] at hrun
        exact ⟨1, q, m', .stopped, runEnds_of_stopped hunmet hstep hs hrun⟩
      · have hgoes : q.stopped = false := by simpa using hs
        simp only [hgoes, Bool.false_eq_true, if_false] at hrun
        obtain ⟨n, after, left, why, hrest⟩ := ih q m'
        exact ⟨n + 1, after, left, why, hrest.cons hunmet hstep hgoes hrun⟩

/-! ### What is printed -/

/-- The names of the accesses that breakpoints react to. -/
def accessNames : List (BreakpointKind × String) :=
  [(.read, "Read"), (.write, "Write"), (.jump, "Jump")]

/-- A line that names an access, its address, and the address of the instruction. -/
inductive IsHitLine (found : Hit) : String → Prop
  | intro {name addr pc : String} (hname : (found.kind, name) ∈ accessNames)
      (haddr : Hex.IsWord found.addr addr) (hpc : Hex.IsWord found.pc pc) :
      IsHitLine found ("Breakpoint (" ++ name ++ ") on $" ++ addr ++ " at PC=$" ++ pc ++ "\n")

/-- A line that shows the register pairs and the count of cycles of a processor. -/
inductive IsStateLine (cpu : Cpu) : String → Prop
  | intro {af bc de hl pc sp : String} (haf : Hex.IsWord cpu.regs.af af)
      (hbc : Hex.IsWord cpu.regs.bc bc) (hde : Hex.IsWord cpu.regs.de de)
      (hhl : Hex.IsWord cpu.regs.hl hl) (hpc : Hex.IsWord cpu.regs.pc pc)
      (hsp : Hex.IsWord cpu.regs.sp sp) :
      IsStateLine cpu ("AF:" ++ af ++ " BC:" ++ bc ++ " DE:" ++ de ++ " HL:" ++ hl ++ " PC:" ++ pc ++
        " SP:" ++ sp ++ " CY:" ++ toString cpu.cycles ++ "\n")

/-- What is said about the reason to end: a line if it is a hit, and nothing else. -/
inductive Ending.Announced : Ending → String → Prop
  | hit {found : Hit} {line : String} (h : IsHitLine found line) : Announced (.hit found) line
  | limit : Announced .limit ""
  | stopped : Announced .stopped ""
  | fault (fault : Fault) : Announced (.fault fault) ""

/-- A session fails if it ends with a fault. -/
def Ending.status : Ending → ExitStatus
  | .fault _ => .failure
  | _ => .success

/-- A text on a line of its own, if there is any. -/
def lineOf (text : String) : String := if text = "" then "" else text ++ "\n"

/-- What is printed: the hit, if there is one, then the text sent, if any, then the state. -/
inductive Printed (why : Ending) (sent : List Byte) (cpu : Cpu) : String → Prop
  | intro {hit text state : String} (hhit : why.Announced hit)
      (htext : Utf8.Shows sent text.toList) (hstate : IsStateLine cpu state) :
      Printed why sent cpu (hit ++ lineOf text ++ state)

theorem isHitLine_hitLine {sets : Breakpoints} {acc : Accesses} {found : Hit}
    (h : sets.Trips acc found.kind found.addr) : IsHitLine found (hitLine found) := by
  have hname : (found.kind, found.kind.name) ∈ accessNames := by
    generalize found.kind = kind at h
    cases h with
    | read _ => exact List.mem_cons_self
    | write _ _ => exact List.mem_cons_of_mem _ List.mem_cons_self
    | jump _ _ _ _ => exact List.mem_cons_of_mem _ (List.mem_cons_of_mem _ List.mem_cons_self)
  exact .intro hname (Hex.isWord_word _) (Hex.isWord_word _)

theorem isStateLine_describe (cpu : Cpu) : IsStateLine cpu (cpu.describe ++ "\n") :=
  .intro (Hex.isWord_word _) (Hex.isWord_word _) (Hex.isWord_word _) (Hex.isWord_word _)
    (Hex.isWord_word _) (Hex.isWord_word _)

/-- The bytes sent are shown if they show as any text. -/
theorem serialLines_eq (sent : Array Byte) :
    serialLines sent = lineOf (Utf8.lossy sent.toList) := by
  have hempty : sent.isEmpty = true ↔ Utf8.lossy sent.toList = "" := by
    rw [Array.isEmpty_iff, Utf8.lossy_eq_empty_iff, Array.toList_eq_nil_iff]
  unfold serialLines lineOf
  by_cases h : sent.isEmpty = true
  · rw [if_pos h, if_pos (hempty.mp h)]
  · rw [if_neg h, if_neg fun hc => h (hempty.mpr hc)]

/-- What a session reports of the end of a run is printed. -/
theorem exists_printed {limit n : Nat} {cpu : Cpu} {serial : SerialInterface M OpenCable}
    {why : Ending} (h : EndsAt sets ignored limit n cpu serial why) :
    ∃ output, Printed why serial.sent.toList cpu output ∧
      report ⟨cpu, serial, why⟩ = ⟨why.status, output⟩ := by
  have hprinted : ∀ {hit : String}, why.Announced hit → Printed why serial.sent.toList cpu
      (hit ++ serialLines serial.sent ++ cpu.describe ++ "\n") := by
    intro hit hhit
    rw [serialLines_eq, String.append_assoc]
    exact .intro hhit (Utf8.shows_iff.mpr rfl) (isStateLine_describe cpu)
  cases h with
  | limit _ => exact ⟨_, hprinted .limit, rfl⟩
  | stopped _ _ => exact ⟨_, hprinted .stopped, rfl⟩
  | hit _ hcaught =>
      obtain ⟨i, acc, -, htrips⟩ := hcaught.addr
      exact ⟨_, hprinted (.hit (isHitLine_hitLine htrips)), rfl⟩
  | fault _ _ _ => exact ⟨_, hprinted (.fault _), rfl⟩

/-- Whoever is looked for at the end of a cable that leads nowhere, nothing changes. -/
theorem initialSerial_eq (rom : List Byte) (peer : Option String) :
    initialSerial rom peer = .plug (FlatMemory.ofRom rom) OpenCable.unplugged := by
  cases peer <;> rfl

theorem initialCpu_eq (config : Config) : initialCpu config =
    { Cpu.powerOn with
      regs := { Registers.powerOn with pc := config.start.getD Registers.powerOn.pc } } := by
  unfold initialCpu
  cases config.start <;> rfl

/--
**To run an image is to step until there is a reason to end.**

Of the states that plain steps lead to, one after the other, the first one in which a run ends is
the one that is reported: a line about the breakpoint if one was in the way, the text that has been
sent if there is any, and a line about the state of the processor.  The session fails if the reason
is a fault, and in no other case but that of an image that cannot be read, and then it prints
nothing.  No instruction with an access in its set has been executed, and a higher limit would have
changed nothing unless the limit was the reason.
-/
theorem run_ends_first (rom : List Byte) (config : Config) (steps : Option Nat)
    (peer : Option String) (ignored : Bool) :
    let first : Cpu := { Cpu.powerOn with
      regs := { Registers.powerOn with pc := config.start.getD Registers.powerOn.pc } }
    let start := SerialInterface.plug (FlatMemory.ofRom rom) OpenCable.unplugged
    let session := fun steps : Option Nat =>
      performWith config (.run steps peer ignored) (some rom)
    (∃ n cpu left why output,
      FirstEnd config.breakpoints ignored (steps.getD config.steps) first start n cpu left why ∧
      Printed why left.sent.toList cpu output ∧ session steps = ⟨why.status, output⟩ ∧
      (∀ k < n, ∀ q m', first.afterSteps k start = .ok (q, m') →
        ¬ ∃ i acc, q.Watched ignored m' i acc ∧ config.breakpoints.Meets acc) ∧
      (why ≠ .limit → ∀ more > n, session (some more) = session steps)) ∧
    performWith config (.run steps peer ignored) none = ⟨.failure, ""⟩ := by
  intro first start session
  obtain ⟨n, cpu, left, why, hends⟩ :=
    exists_runEnds config.breakpoints ignored (steps.getD config.steps) first start
  have hsession : ∀ steps, session steps =
      report (run config.breakpoints ignored (steps.getD config.steps) first start) := by
    intro steps
    show performOn rom config (.run steps peer ignored) = _
    rw [performOn, initialSerial_eq, initialCpu_eq]
  obtain ⟨output, hprinted, hreport⟩ := exists_printed hends.first.ends
  refine ⟨⟨n, cpu, left, why, output, hends.first, hprinted, ?_,
    fun k hk q m' hq => hends.first.unmet hk hq, fun hwhy more hn => ?_⟩, rfl⟩
  · rw [hsession, hends.run, hreport]
  · rw [hsession, hsession, hends.run, Option.getD_some, hends.beyond hwhy more hn]

end Session

end Sm83
