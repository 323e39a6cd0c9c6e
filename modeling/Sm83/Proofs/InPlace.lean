/-
A processor that is changed as the step goes.

A step gives a new processor, so that one that faults has nothing to take back.  It can also
be written as a program that works on a single processor, change by change: the halt bug ends,
PC moves, the cost is paid, the switch counts the instruction.  Then a fault could well leave
the processor half changed, and an operation that nothing is defined for could be reached.

Neither happens.  Worked in place or not, a step is the same program on the bus; and if it
faults, the processor is the one it was.
-/
import Sm83.Proofs.Hits

namespace Sm83

/-- What cuts a program short: a fault, or an operation that cannot be carried out. -/
inductive Abort where
  | fault (fault : Fault)
  | stuck (op : Op)
  deriving DecidableEq, Repr

/-- A program on a processor and the bus that can be cut short. -/
abbrev InPlace (α : Type) := ExceptT Abort (StateT Cpu Bus) α

namespace InPlace

variable {α β : Type}

/-- Runs a program on a processor; what the processor has become is kept if it is cut short. -/
def on (p : InPlace α) (cpu : Cpu) : Bus (Except Abort α × Cpu) := p.run.run cpu

/-! ### Steps -/

/-- Replaces the processor by what a program on the bus makes of it. -/
def update (f : Cpu → Bus Cpu) : InPlace Unit := do set (← (f (← get) : Bus Cpu))

/-- Reads and decodes the instruction that is executed next. -/
def fetch : InPlace Instruction := do
  match ← ((← get).current : Bus (Except Fault Instruction)) with
  | .ok i => return i
  | .error fault => throw (.fault fault)

/-- Carries out an operation on the registers, if there is something to carry out. -/
def execute (op : Op) (literal next : Word) : InPlace Outcome := do
  match op with
  | .escape | .undefined _ => throw (.stuck op)
  | _ =>
    let outcome ← (op.execute literal (← get).regs next : Bus Outcome)
    modify fun cpu => { cpu with regs := outcome.regs }
    return outcome

/-- Lets time pass for a halted processor. -/
def idle : InPlace Unit := do
  modify fun cpu => { cpu with cycles := cpu.cycles + Cpu.idleCycles }
  if (← (Interrupt.pending : Bus Byte)) != 0 then
    modify fun cpu => { cpu with halted := false }
    update Cpu.service

/-- Carries out an instruction that was fetched, change by change. -/
def perform (i : Instruction) : InPlace Unit := do
  let next := if (← get).haltBug then i.next - 1 else i.next
  modify fun cpu => { cpu with haltBug := false }
  let outcome ← execute i.op i.literal next
  modify fun cpu => { cpu with regs := { cpu.regs with pc := outcome.next } }
  let cost := if outcome.taken then i.op.cost.taken else i.op.cost.base
  modify fun cpu => { cpu with cycles := cpu.cycles + cost }
  if let some effect := outcome.effect then
    update fun cpu => cpu.apply effect
  modify fun cpu => { cpu with master := cpu.master.retire }

/-- Executes one instruction, or idles. -/
def step : InPlace Unit := do
  let cpu ← get
  if cpu.stopped then return ()
  else if cpu.halted then idle
  else
    perform (← fetch)
    update Cpu.poll

/-- Takes a step unless a breakpoint is in its way. -/
def stepUnlessHit (sets : Breakpoints) (ignored : Bool) : InPlace (Option Hit) := do
  match ← ((← get).obstacle sets ignored : Bus (Except Fault (Option Hit))) with
  | .error fault => throw (.fault fault)
  | .ok (some hit) => return some hit
  | .ok none =>
    step
    return none

/-! ### Running a program in place -/

@[simp] theorem on_pure (a : α) (cpu : Cpu) : on (pure a) cpu = pure (.ok a, cpu) := rfl

@[simp] theorem on_throw (abort : Abort) (cpu : Cpu) :
    on (throw abort : InPlace α) cpu = pure (.error abort, cpu) := rfl

@[simp] theorem on_get (cpu : Cpu) : on get cpu = pure (.ok cpu, cpu) := rfl

@[simp] theorem on_modify (f : Cpu → Cpu) (cpu : Cpu) :
    on (modify f) cpu = pure (.ok (), f cpu) := rfl

@[simp] theorem on_bind (p : InPlace α) (f : α → InPlace β) (cpu : Cpu) :
    on (p >>= f) cpu = on p cpu >>= fun
      | (.ok a, cpu) => on (f a) cpu
      | (.error abort, cpu) => pure (.error abort, cpu) := by
  show (p.run.run cpu >>= fun s => _) = _
  refine congrArg _ (funext fun s => ?_)
  obtain ⟨result, cpu⟩ := s
  cases result <;> rfl

@[simp] theorem on_map (f : α → β) (p : InPlace α) (cpu : Cpu) :
    on (f <$> p) cpu = (fun s => (s.1.map f, s.2)) <$> on p cpu := by
  rw [map_eq_pure_bind, on_bind, map_eq_pure_bind]
  refine congrArg _ (funext fun s => ?_)
  obtain ⟨result, cpu⟩ := s
  cases result <;> rfl

@[simp] theorem on_lift (p : Bus α) (cpu : Cpu) :
    on (liftM p : InPlace α) cpu = (fun a => (.ok a, cpu)) <$> p := by
  show ((fun a => (a, cpu)) <$> p >>= fun s => pure (Except.ok s.1, s.2)) = _
  simp

@[simp] theorem on_set (after cpu : Cpu) : on (set after) cpu = pure (.ok (), after) := rfl

@[simp] theorem on_update (f : Cpu → Bus Cpu) (cpu : Cpu) :
    on (update f) cpu = (fun after => (.ok (), after)) <$> f cpu := by
  simp [update]

/-! ### A step in place is a step -/

/-- What an operation that can be carried out does. -/
theorem on_execute {op : Op} (hop : op.Executable) (literal next : Word) (cpu : Cpu) :
    on (execute op literal next) cpu = (fun outcome =>
      (.ok outcome, { cpu with regs := outcome.regs })) <$>
        op.execute literal cpu.regs next := by
  unfold execute
  split
  · exact absurd rfl hop.ne_escape
  · exact absurd rfl (hop.ne_undefined _)
  · simp [Except.map]

theorem on_idle (cpu : Cpu) :
    on idle cpu = (fun after => (.ok (), after)) <$> cpu.idle := by
  simp only [idle, Cpu.idle, on_bind, on_modify, on_lift, bind_map_left, pure_bind, map_bind]
  refine congrArg _ (funext fun pending => ?_)
  by_cases hp : (pending != 0) = true
  · simp [hp]
  · simp [hp]

theorem on_perform {i : Instruction} {cpu : Cpu} (hop : i.op.Executable)
    (haddr : i.addr = cpu.regs.pc) :
    on (perform i) cpu = (fun after => (.ok (), after)) <$> cpu.perform i.op i.literal := by
  have hnext : (if cpu.haltBug then i.next - 1 else i.next) = cpu.fallThrough i.op := by
    rw [Instruction.next, haddr]
    rfl
  simp only [perform, Cpu.perform, on_bind, on_get, on_modify, on_execute hop, hnext,
    bind_map_left, pure_bind, map_bind]
  refine congrArg _ (funext fun outcome => ?_)
  cases outcome.effect with
  | none =>
      simp only [on_modify, map_pure]
      rfl
  | some effect =>
      simp only [on_bind, on_update, on_modify, bind_map_left, map_bind, map_pure]
      rfl

/-- What comes after the fetch need only be looked at for what the fetch can yield. -/
theorem current_bind_congr {cpu : Cpu} {f g : Except Fault Instruction → Bus α}
    (h : ∀ w, f (Instruction.decode w cpu.regs.pc) = g (Instruction.decode w cpu.regs.pc)) :
    cpu.current >>= f = cpu.current >>= g :=
  congrArg (Bus.read _) (funext fun a => congrArg (Bus.read _) (funext fun b =>
    congrArg (Bus.read _) (funext fun c => h ⟨a, b, c⟩)))

/-- What comes of a program that works in place, if `read` says so of one that does not fail. -/
def settle (cpu : Cpu) (read : α → β × Cpu) : Except Fault α → Except Abort β × Cpu
  | .ok a => (.ok (read a).1, (read a).2)
  | .error fault => (.error (.fault fault), cpu)

/-- **A step in place is a step**, and one that fails has changed nothing before it does. -/
theorem on_step (cpu : Cpu) : on step cpu = settle cpu (fun after => ((), after)) <$> cpu.step := by
  simp only [step, on_bind, on_get, pure_bind]
  by_cases hs : cpu.stopped = true
  · simp [Cpu.step, hs, settle]
  by_cases hh : cpu.halted = true
  · simp [Cpu.step, hs, hh, on_idle, settle]
  have hstep := Cpu.step_eq (by simpa using hs)
  simp only [hstep, Cpu.advance, hs, hh, fetch, on_bind, on_get, on_lift, bind_map_left,
    pure_bind, bind_assoc, map_bind, Bool.false_eq_true, if_false]
  refine current_bind_congr fun w => ?_
  cases hi : Instruction.decode w cpu.regs.pc with
  | error fault => rfl
  | ok i =>
      have hperform := on_perform (Instruction.executable_of_decode hi)
        (Instruction.addr_of_decode hi)
      simp [hperform, settle]

/-- The hit, if a breakpoint was in the way, and the processor. -/
def readProgress (cpu : Cpu) : Cpu.Progress → Option Hit × Cpu
  | .stepped after => (none, after)
  | .stoppedAt hit => (some hit, cpu)

theorem on_stepUnlessHit (sets : Breakpoints) (ignored : Bool) (cpu : Cpu) :
    on (stepUnlessHit sets ignored) cpu =
      settle cpu (readProgress cpu) <$> cpu.stepUnlessHit sets ignored := by
  simp only [stepUnlessHit, Cpu.stepUnlessHit, on_bind, on_get, on_lift, bind_map_left, pure_bind,
    map_bind]
  refine congrArg _ (funext fun found => ?_)
  match found with
  | .error fault => rfl
  | .ok (some hit) => rfl
  | .ok none =>
      simp only [on_bind, on_step, bind_map_left, map_bind, map_pure]
      refine congrArg _ (funext fun result => ?_)
      cases result <;> rfl

/-- In place, a program that fails leaves the processor as it was. -/
theorem settle_eq_error_iff {cpu : Cpu} {read : α → β × Cpu} {result : Except Fault α}
    {abort : Abort} {after : Cpu} : settle cpu read result = (.error abort, after) ↔
      ∃ fault, result = .error fault ∧ abort = .fault fault ∧ after = cpu := by
  cases result <;> simp [settle, eq_comm]

end InPlace

end Sm83
