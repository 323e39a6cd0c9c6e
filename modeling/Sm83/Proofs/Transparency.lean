/-
An interface that nothing is sent over does not show.

The interface reads as the memory in it does, and passes on every write that does not start a
transfer.  So what a processor does on the memory it also does on the interface, byte by byte, up
to the first control byte with the start bit: results and processors are the same, the memory in
the interface is the one that it would have been without, and the far end is not called at all.
-/
import Sm83.OpenCable
import Sm83.Proofs.Dispatch
import Sm83.Proofs.FlatMemory
import Sm83.Proofs.Operations

namespace Sm83

namespace SerialInterface

variable {M C : Type} [Memory M] [Cable C]

@[simp] theorem memory_read (serial : SerialInterface M C) (addr : Word) :
    Memory.read serial addr = Memory.read serial.memory addr := rfl

@[simp] theorem memory_write (serial : SerialInterface M C) (addr : Word) (value : Byte) :
    Memory.write serial addr value = serial.write addr value := rfl

/-- A write that does not start a transfer goes to the memory and nowhere else. -/
theorem write_of_starts_false (serial : SerialInterface M C) {addr : Word} {value : Byte}
    (h : starts addr value = false) :
    serial.write addr value = { serial with memory := Memory.write serial.memory addr value } := by
  rw [write, if_neg (by simp [h])]

/-- A write does not start a transfer if it is none to the control register with the start bit. -/
theorem starts_eq_false_iff {addr : Word} {value : Byte} :
    starts addr value = false ↔ (addr = controlAddr → value &&& startBit = 0) := by
  by_cases haddr : addr = controlAddr
  · simp [starts, haddr]
  · simp [starts, haddr]

/-- A program that starts no transfer does on the interface what it does on the memory in it. -/
theorem run_plug {α : Type} (p : Bus α) {m : M} (cable : C)
    (h : ∀ w ∈ writesOf (p.trace m), starts w.1 w.2 = false) :
    p.trace (plug m cable) = p.trace m ∧ p.eval (plug m cable) = p.eval m ∧
      p.exec (plug m cable) = plug (p.exec m) cable := by
  have hread : ∀ {m : M} {serial : SerialInterface M C}, serial = plug m cable →
      ∀ addr, Memory.read serial addr = Memory.read m addr := by
    rintro m serial rfl addr
    rfl
  have hwrite : ∀ {m : M} {serial : SerialInterface M C} (addr : Word) (value : Byte),
      serial = plug m cable → starts addr value = false →
        Memory.write serial addr value = plug (Memory.write m addr value) cable := by
    rintro m serial addr value rfl hstarts
    exact write_of_starts_false _ hstarts
  exact Bus.run_alike hread hwrite p rfl h

/--
**An interface is transparent until a transfer starts.**

If some operations carried out on a memory write no control byte with the start bit, then at every
point of them everything is the same on an interface over it: the bytes moved, what came of each
operation, the processor after it and the memory.  The cable is as it was, whatever notice it
would take of being called, and nothing has been sent.
-/
theorem transparent_until_transfer (cpu : Cpu) (m : M) (cable : C) (ops : List Operation)
    (h : ∀ value, (controlAddr, value) ∈ writesOf ((Operation.history ops cpu).trace m) →
      value &&& startBit = 0) (n : Nat) :
    let program := Operation.history (ops.take n) cpu
    program.trace (plug m cable) = program.trace m ∧
      program.eval (plug m cable) = program.eval m ∧
      program.exec (plug m cable) = ⟨program.exec m, cable, #[]⟩ := by
  intro program
  refine run_plug program cable fun w hw => starts_eq_false_iff.mpr fun haddr => ?_
  have hmem := Operation.mem_writes_of_take hw
  obtain ⟨addr, value⟩ := w
  rw [show addr = controlAddr from haddr] at hmem
  exact h value hmem

end SerialInterface

/-! ### A store to the control register -/

/-- A store of A in the high page at C, where cartridges start. -/
def storing : FlatMemory := FlatMemory.programmed [0xE2]

/-- A processor about to store a byte in the control register. -/
def storer (control : Byte) : Cpu :=
  .ofRegisters { Registers.zeroed with a := control, c := 0x02, pc := 0x100 }

theorem get_storing (addr : Word) : storing.get addr = [0xE2][(addr - 0x100).toNat]?.getD 0 := by
  have hlen : ([0xE2] : List Byte).length ≤ addressSpace := show 1 ≤ 65536 by decide
  exact FlatMemory.get_programmed hlen addr

namespace Cpu

variable {M : Type} [Memory M] {m : M}

theorem current_storer (hm : Memory.read m 0x100 = 0xE2) (control : Byte) :
    (storer control).current.eval m = .ok ⟨0x100, .base 0xE2, 0⟩ := by
  have hop : (Opcode.base 0xE2).op = .storeHighC := by decide
  rw [eval_current, window]
  show Instruction.decode ⟨Memory.read m 0x100, _, _⟩ 0x100 = _
  rw [hm]
  exact Instruction.decode_of_length_one (by decide) hop rfl (by simp) _ _ 0x100

theorem writesOf_storer (hm : Memory.read m 0x100 = 0xE2) (control : Byte) :
    writesOf ((storer control).step.trace m) = [(SerialInterface.controlAddr, control)] := by
  have hi := current_storer hm control
  have hop : (Instruction.mk 0x100 (.base 0xE2) 0).op = .storeHighC := by decide
  have hq := eval_advance rfl hi
  rw [hop] at hq
  rw [trace_step rfl hq, trace_advance rfl hi, trace_perform, writesOf_append, writesOf_append, hop]
  rcases poll_cases hq with ⟨hon, -⟩ | ⟨-, -, hwrites⟩
  · rw [perform_master] at hon
    exact absurd hon Bool.false_ne_true
  · rw [hwrites]
    show [(Word.inHighPage 0x02, control)] = [(0xFF02, control)]
    rfl

end Cpu

/-- A control byte without the start bit is stored, with or without an interface. -/
theorem SerialInterface.transparent_until_transfer_store :
    let program := Operation.history [.step] (storer 0x01)
    writesOf (program.trace storing) = [(0xFF02, 0x01)] ∧
      program.eval (plug storing OpenCable.unplugged) = program.eval storing ∧
      program.exec (plug storing OpenCable.unplugged) =
        ⟨program.exec storing, OpenCable.unplugged, #[]⟩ := by
  intro program
  have hfirst : Memory.read storing 0x100 = 0xE2 := get_storing 0x100
  have hwrites : writesOf (program.trace storing) = [(0xFF02, 0x01)] := by
    show writesOf ((Operation.history [.step] (storer 0x01)).trace storing) = _
    rw [Operation.trace_history_cons, Operation.on_step, Bus.trace_map, writesOf_append,
      Cpu.writesOf_storer hfirst]
    rfl
  have hplain : ∀ value, (controlAddr, value) ∈ writesOf (program.trace storing) →
      value &&& startBit = 0 := by
    intro value hvalue
    rw [hwrites, List.mem_singleton, Prod.mk.injEq] at hvalue
    rw [hvalue.2]
    rfl
  obtain ⟨-, heval, hexec⟩ :=
    transparent_until_transfer (storer 0x01) storing OpenCable.unplugged [.step] hplain 1
  exact ⟨hwrites, heval, hexec⟩

end Sm83
