/-
The time that the far end is told of.

A run tells the cable after each step how long the step took, in a byte.  No step takes as long as
a byte can count to, so that nothing is cut off: what the cable has been told adds up to the count
of cycles.

A cable is free to forget what it is told.  To speak of the ticks, a meter is put between the
interface and the cable, which passes everything on and writes the ticks down.  A run does not
notice the meter.
-/
import Sm83.Proofs.Cycles
import Sm83.Proofs.StoppingPoint

namespace Sm83

/-- A cable with a meter that writes down the ticks it is told of. -/
structure Metered (C : Type) where
  cable : C
  ticks : List Byte

namespace Metered

variable {C : Type}

/-- The cycles that the ticks on the meter add up to. -/
def total (line : Metered C) : Nat :=
  line.ticks.foldl (fun sum cycles => sum + cycles.toNat) 0

theorem total_concat (cable : C) (ticks : List Byte) (cycles : Byte) :
    (Metered.mk cable (ticks ++ [cycles])).total =
      (Metered.mk cable ticks).total + cycles.toNat := by
  simp [total]

variable [Cable C]

instance : Cable (Metered C) where
  discover line :=
    let (names, cable) := Cable.discover line.cable
    (names, { line with cable })
  connect line name :=
    let (result, cable) := Cable.connect line.cable name
    (result, { line with cable })
  tick line cycles := ⟨Cable.tick line.cable cycles, line.ticks ++ [cycles]⟩
  exchange line sent :=
    let (reply, cable) := Cable.exchange line.cable sent
    (reply, { line with cable })

end Metered

namespace SerialInterface

variable {M C : Type}

/-- The interface with a meter on its cable that has not been told of anything yet. -/
def metered (serial : SerialInterface M C) : SerialInterface M (Metered C) :=
  ⟨serial.memory, ⟨serial.cable, []⟩, serial.sent⟩

/-- The interface without the meter. -/
def unmetered (serial : SerialInterface M (Metered C)) : SerialInterface M C :=
  ⟨serial.memory, serial.cable.cable, serial.sent⟩

variable [Cable C]

/-- Time that passes with the meter passes without it, and the meter shows it. -/
theorem unmetered_tick (serial : SerialInterface M (Metered C)) (cycles : Byte) :
    (serial.tick cycles).unmetered = serial.unmetered.tick cycles ∧
      (serial.tick cycles).cable.total = serial.cable.total + cycles.toNat :=
  ⟨rfl, Metered.total_concat _ serial.cable.ticks cycles⟩

variable [Memory M]

/-- A write does the same with the meter and without it, and does not move the meter. -/
theorem unmetered_write (serial : SerialInterface M (Metered C)) (addr : Word) (value : Byte) :
    (serial.write addr value).unmetered = serial.unmetered.write addr value ∧
      (serial.write addr value).cable.ticks = serial.cable.ticks := by
  unfold write
  split
  · exact ⟨rfl, rfl⟩
  · exact ⟨rfl, rfl⟩

/-- So does every program, and it moves the same bytes. -/
theorem run_unmetered {α : Type} (p : Bus α) (serial : SerialInterface M (Metered C)) :
    p.eval serial.unmetered = p.eval serial ∧
      p.exec serial.unmetered = (p.exec serial).unmetered ∧
      (p.exec serial).cable.ticks = serial.cable.ticks := by
  have hwrite : ∀ {s : SerialInterface M (Metered C)} {t : SerialInterface M C} (addr : Word)
      (value : Byte), s.unmetered = t ∧ s.cable.ticks = serial.cable.ticks → True →
        (Memory.write s addr value).unmetered = Memory.write t addr value ∧
          (Memory.write s addr value).cable.ticks = serial.cable.ticks := by
    rintro s t addr value ⟨rfl, hticks⟩ -
    obtain ⟨hsame, hstill⟩ := s.unmetered_write addr value
    exact ⟨hsame, hstill.trans hticks⟩
  have hread : ∀ {s : SerialInterface M (Metered C)} {t : SerialInterface M C},
      s.unmetered = t ∧ s.cable.ticks = serial.cable.ticks →
        ∀ addr, Memory.read t addr = Memory.read s addr := by
    rintro s t ⟨rfl, -⟩ addr
    rfl
  obtain ⟨-, heval, hsame, hticks⟩ := Bus.run_alike hread hwrite p ⟨rfl, rfl⟩ fun _ _ => trivial
  exact ⟨heval, hsame.symm, hticks⟩

end SerialInterface

namespace Session

variable {M C : Type} [Memory M] [Cable C] {sets : Breakpoints} {ignored : Bool}

/-- No step takes as many cycles as are cut off. -/
theorem toNat_ticksBetween {cpu after : Cpu} (h : cpu.Ticked after) :
    cpu.cycles + (ticksBetween cpu after).toNat = after.cycles := by
  have hforward := h.forward
  have hbound := h.bound
  have hsmall : min (after.cycles - cpu.cycles) 255 = after.cycles - cpu.cycles := by omega
  have hbyte : after.cycles - cpu.cycles < 256 := by omega
  rw [ticksBetween, hsmall, UInt8.toNat_ofNat_of_lt' hbyte]
  omega

/-- A run does not notice the meter, which shows how many cycles have passed in it. -/
theorem run_metered (sets : Breakpoints) (ignored : Bool) (limit : Nat) :
    ∀ (cpu : Cpu) (serial : SerialInterface M (Metered C)),
      let finish := run sets ignored limit cpu serial
      run sets ignored limit cpu serial.unmetered =
          ⟨finish.cpu, finish.serial.unmetered, finish.ending⟩ ∧
        finish.serial.cable.total + cpu.cycles = serial.cable.total + finish.cpu.cycles := by
  induction limit with
  | zero => exact fun cpu serial => ⟨rfl, rfl⟩
  | succ limit ih =>
      intro cpu serial
      obtain ⟨hlook, -, -⟩ := SerialInterface.run_unmetered (cpu.obstacle sets ignored) serial
      obtain ⟨hstep, hleft, hstill⟩ := SerialInterface.run_unmetered cpu.step serial
      simp only [run_succ, hlook, hstep]
      rcases (cpu.obstacle sets ignored).eval serial with fault | _ | hit
      · exact ⟨rfl, rfl⟩
      · cases hafter : cpu.step.eval serial with
        | error fault => exact ⟨rfl, rfl⟩
        | ok after =>
            have htick := toNat_ticksBetween (Cpu.ticked_step hafter)
            obtain ⟨hsame, hmoved⟩ :=
              (cpu.step.exec serial).unmetered_tick (ticksBetween cpu after)
            have hbefore : (cpu.step.exec serial).cable.total = serial.cable.total := by
              rw [Metered.total, hstill, Metered.total]
            simp only [hleft, ← hsame]
            by_cases hs : after.stopped = true
            · simp only [hs, if_true, hmoved, hbefore, true_and]
              omega
            · simp only [hs, Bool.false_eq_true, if_false]
              obtain ⟨hrest, hcount⟩ :=
                ih after ((cpu.step.exec serial).tick (ticksBetween cpu after))
              refine ⟨hrest, ?_⟩
              rw [hmoved, hbefore] at hcount
              omega
      · exact ⟨rfl, rfl⟩

theorem initialCpu_cycles (config : Config) : (initialCpu config).cycles = 0 := by
  unfold initialCpu
  cases config.start <;> rfl

/-- Run with a meter on the cable, a session reports the same, and the meter shows all cycles. -/
theorem performOn_metered (rom : List Byte) (config : Config) (steps : Option Nat)
    (peer : Option String) (ignored : Bool) :
    let finish := run config.breakpoints ignored (steps.getD config.steps) (initialCpu config)
      (initialSerial rom peer).metered
    performOn rom config (.run steps peer ignored) = report finish ∧
      finish.serial.cable.total = finish.cpu.cycles := by
  intro finish
  obtain ⟨hrun, hcount⟩ := run_metered config.breakpoints ignored (steps.getD config.steps)
    (initialCpu config) (initialSerial rom peer).metered
  constructor
  · show report (run _ _ _ _ (initialSerial rom peer).metered.unmetered) = report finish
    rw [hrun]
    rfl
  · have hall : finish.serial.cable.total + (initialCpu config).cycles =
        0 + finish.cpu.cycles := hcount
    rwa [initialCpu_cycles, Nat.add_zero, Nat.zero_add] at hall

end Session

namespace Cpu

/--
**Every cycle is accounted for.**

A step takes the cycles of its instruction or of waiting, none if the processor is stopped or the
step faults, and twenty more exactly if it lets an interrupt in.  Whatever is called on a
processor that was made with some registers, its count of cycles is a multiple of four; no call
but a reset turns it back, and none moves it on by more than forty-four.  So what the cable is told
in a session, in bytes, adds up to the count of cycles in the end.
-/
theorem cycles_accounted (M : Type) [Memory M] :
    (∀ s : Machine M,
      ((∃ irq, s.cpu.LetsIn s.memory irq) ∧
          (s.call .step).cpu.cycles = s.cpu.cycles + s.cpu.ownCycles s.memory + 20) ∨
        ((¬ ∃ irq, s.cpu.LetsIn s.memory irq) ∧
          (s.call .step).cpu.cycles = s.cpu.cycles + s.cpu.ownCycles s.memory)) ∧
    (∀ (regs : Registers) (memory : M) (calls : List (Call M)),
      4 ∣ (Machine.after regs memory calls).cpu.cycles) ∧
    (∀ (s : Machine M) (calls : List (Call M)), .reset ∉ calls →
      s.cpu.cycles ≤ (calls.foldl Machine.call s).cpu.cycles) ∧
    (∀ (s : Machine M) (c : Call M), c ≠ .reset →
      (s.call c).cpu.cycles ≤ s.cpu.cycles + 44) ∧
    ∀ (rom : List Byte) (config : Config) (steps : Option Nat) (peer : Option String)
      (ignored : Bool),
      let finish := Session.run config.breakpoints ignored (steps.getD config.steps)
        (Session.initialCpu config) (Session.initialSerial rom peer).metered
      Session.performOn rom config (.run steps peer ignored) = Session.report finish ∧
        finish.serial.cable.total = finish.cpu.cycles := by
  refine ⟨Machine.call_step_cycles, fun regs memory calls => ?_,
    fun s calls hreset => Machine.cycles_le_foldl calls s hreset,
    fun s c hc => (Machine.ticked_call s hc).bound, Session.performOn_metered⟩
  exact Machine.four_dvd_cycles_foldl calls _ (Nat.dvd_zero 4)

end Cpu

end Sm83
