/-
A cartridge image stays as it is.

Whatever is done with a processor reaches memory as single writes, and a flat memory drops
those to its read-only part.  So a memory that was made of a cartridge image reads as the image
below the middle of the address space, at whatever point of a run one looks, and what is stored
above it is read back there and nowhere else.

The same is true of an interface over such a memory, although a transfer writes three registers
that nobody named.  All that has to be seen is that the interface, too, changes the memory in it by
writes only: `Backed` says so of a kind of memory, and the rest follows from that.
-/
import Sm83.Proofs.Transfers

namespace Sm83

/-- Makes some writes in order. -/
def Memory.writeAll {M : Type} [Memory M] (m : M) (writes : List (Word × Byte)) : M :=
  writes.foldl (fun m w => write m w.1 w.2) m

open Memory (writeAll)

namespace FlatMemory

/-- Writes do not reach the read-only part. -/
theorem get_writeAll_of_lt (writes : List (Word × Byte)) {x : Word} :
    ∀ {m : FlatMemory}, x < m.romEnd → (writeAll m writes).get x = m.get x := by
  induction writes with
  | nil => exact fun _ => rfl
  | cons w rest ih =>
      intro m hx
      have hrest : x < (m.write w.1 w.2).romEnd := by rwa [romEnd_write]
      show (writeAll (m.write w.1 w.2) rest).get x = m.get x
      rw [ih hrest, get_write, if_neg]
      rintro ⟨rfl, hwritable⟩
      exact hwritable hx

theorem romEnd_writeAll (writes : List (Word × Byte)) :
    ∀ m : FlatMemory, (writeAll m writes).romEnd = m.romEnd := by
  induction writes with
  | nil => exact fun _ => rfl
  | cons w rest ih =>
      intro m
      exact (ih (m.write w.1 w.2)).trans (romEnd_write m w.1 w.2)

end FlatMemory

/-! ### Memories that change by writes -/

/-- A kind of memory with a flat one in it, which it reads and changes by writes only. -/
class Backed (M : Type) [Memory M] where
  flat : M → FlatMemory
  /-- What is written in the flat memory when a byte is written. -/
  passed : M → Word → Byte → List (Word × Byte)
  read_eq : ∀ (m : M) (addr : Word), Memory.read m addr = (flat m).get addr
  flat_write : ∀ (m : M) (addr : Word) (value : Byte),
    flat (Memory.write m addr value) = writeAll (flat m) (passed m addr value)

/-- Whether a write can change a byte: its own, or a register if it starts a transfer. -/
def Touches (transfers : Word → Byte → Bool) (w : Word × Byte) (addr : Word) : Prop :=
  w.1 = addr ∨ transfers w.1 w.2 = true ∧
    addr ∈ [SerialInterface.dataAddr, SerialInterface.controlAddr, Interrupt.requestAddr]

namespace Backed

/-- A write is passed on as it is unless it starts a transfer, and never touches more than that. -/
structure Confined (M : Type) [Memory M] [Backed M] (transfers : Word → Byte → Bool) : Prop where
  plain : ∀ (m : M) (addr : Word) (value : Byte), transfers addr value = false →
    passed m addr value = [(addr, value)]
  touched : ∀ (m : M) (w v : Word × Byte), v ∈ passed m w.1 w.2 → Touches transfers w v.1

section Writes

variable {M : Type} [Memory M] [Backed M] {m : M} {x : Word}

theorem read_write (m : M) (addr : Word) (value : Byte) (x : Word) :
    Memory.read (Memory.write m addr value) x =
      (writeAll (flat m) (passed m addr value)).get x := by
  rw [read_eq, flat_write]

theorem romEnd_write (m : M) (addr : Word) (value : Byte) :
    (flat (Memory.write m addr value)).romEnd = (flat m).romEnd := by
  rw [flat_write, FlatMemory.romEnd_writeAll]

theorem romEnd_writeAll (writes : List (Word × Byte)) :
    ∀ m : M, (flat (writeAll m writes)).romEnd = (flat m).romEnd := by
  induction writes with
  | nil => exact fun _ => rfl
  | cons w rest ih =>
      intro m
      exact (ih (Memory.write m w.1 w.2)).trans (romEnd_write m w.1 w.2)

/-- The read-only part reads as before, whatever is written. -/
theorem read_writeAll_of_lt (writes : List (Word × Byte)) :
    ∀ {m : M}, x < (flat m).romEnd → Memory.read (writeAll m writes) x = Memory.read m x := by
  induction writes with
  | nil => exact fun _ => rfl
  | cons w rest ih =>
      intro m hx
      have hrest : x < (flat (Memory.write m w.1 w.2)).romEnd := by rwa [romEnd_write]
      show Memory.read (writeAll (Memory.write m w.1 w.2) rest) x = Memory.read m x
      rw [ih hrest, read_write, FlatMemory.get_writeAll_of_lt _ hx, read_eq]

variable {transfers : Word → Byte → Bool} (h : Confined M transfers)

include h

/-- A write above the read-only part stores its byte, and no other address reads otherwise. -/
theorem Confined.read_write_plain {addr : Word} {value : Byte}
    (hplain : transfers addr value = false) (haddr : ¬ addr < (flat m).romEnd) :
    Memory.read (Memory.write m addr value) x = if x = addr then value else Memory.read m x := by
  rw [read_write, h.plain m addr value hplain, read_eq]
  show ((flat m).write addr value).get x = _
  rw [FlatMemory.get_write]
  simp only [haddr, not_false_eq_true, and_true]

/-- A byte that a write does not touch reads as before. -/
theorem Confined.read_write_of_untouched {w : Word × Byte} (hw : ¬ Touches transfers w x) :
    Memory.read (Memory.write m w.1 w.2) x = Memory.read m x := by
  have hnone : x ∉ (passed m w.1 w.2).map Prod.fst := by
    intro hx
    obtain ⟨v, hv, rfl⟩ := List.mem_map.mp hx
    exact hw (h.touched m w v hv)
  rw [read_write, read_eq]
  exact FlatMemory.get_foldl_write _ hnone (flat m)

theorem Confined.read_writeAll_of_untouched (writes : List (Word × Byte)) :
    ∀ {m : M}, (∀ w ∈ writes, ¬ Touches transfers w x) →
      Memory.read (writeAll m writes) x = Memory.read m x := by
  induction writes with
  | nil => exact fun _ => rfl
  | cons w rest ih =>
      intro m hall
      rw [List.forall_mem_cons] at hall
      exact (ih hall.2).trans (h.read_write_of_untouched hall.1)

end Writes

end Backed

/-! ### Along a run -/

open Backed (flat Confined)

/--
What a memory made of an image reads as along some operations.

The operations change the memory by the writes in their log, so that every point one can look at
is a beginning of these.
-/
structure KeepsImage {M : Type} [Memory M] (transfers : Word → Byte → Bool) (rom : List Byte)
    (start : M) (cpu : Cpu) (ops : List Operation) : Prop where
  /-- After each operation, the memory is what some first writes of the log have made of it. -/
  points : ∀ n, ∃ done, done <+: writesOf ((Operation.history ops cpu).trace start) ∧
    (Operation.history (ops.take n) cpu).exec start = writeAll start done
  /-- The lower half reads as the image, and as zero where the image has ended. -/
  image : ∀ done, done <+: writesOf ((Operation.history ops cpu).trace start) →
    ∀ addr, addr < 0x8000 → Memory.read (writeAll start done) addr = rom[addr.toNat]?.getD 0
  /-- What is stored above it is read back until the byte is touched again. -/
  stored : ∀ done addr value later,
    done ++ (addr, value) :: later <+: writesOf ((Operation.history ops cpu).trace start) →
    0x8000 ≤ addr → transfers addr value = false → (∀ w ∈ later, ¬ Touches transfers w addr) →
    Memory.read (writeAll start (done ++ (addr, value) :: later)) addr = value
  /-- It is stored nowhere else. -/
  elsewhere : ∀ done addr value,
    done ++ [(addr, value)] <+: writesOf ((Operation.history ops cpu).trace start) →
    0x8000 ≤ addr → transfers addr value = false → ∀ x, x ≠ addr →
    Memory.read (writeAll start (done ++ [(addr, value)])) x =
      Memory.read (writeAll start done) x

/-- A memory that passes its writes on to a flat one keeps an image in that one. -/
theorem keepsImage {M : Type} [Memory M] [Backed M] {transfers : Word → Byte → Bool}
    (h : Confined M transfers) {rom : List Byte} {start : M}
    (hstart : flat start = FlatMemory.ofRom rom) (cpu : Cpu) (ops : List Operation) :
    KeepsImage transfers rom start cpu ops := by
  have hend : ∀ done, (flat (writeAll start done)).romEnd = 0x8000 := by
    intro done
    rw [Backed.romEnd_writeAll, hstart]
    rfl
  have hread : ∀ done addr value, 0x8000 ≤ addr → transfers addr value = false → ∀ x,
      Memory.read (writeAll start (done ++ [(addr, value)])) x =
        if x = addr then value else Memory.read (writeAll start done) x := by
    intro done addr value haddr hplain x
    have hwritable : ¬ addr < (flat (writeAll start done)).romEnd := by
      rw [hend]
      exact UInt16.not_lt.mpr haddr
    rw [Memory.writeAll, List.foldl_append]
    exact h.read_write_plain hplain hwritable
  refine ⟨fun n => ?_, ?_, ?_, ?_⟩
  · exact ⟨_, (Operation.trace_take ops n cpu start).filterMap _, Bus.exec_eq_foldl _ start⟩
  · intro done _ addr haddr
    have hlow : addr < (flat start).romEnd := by
      rw [hstart]
      exact haddr
    rw [Backed.read_writeAll_of_lt done hlow, Backed.read_eq, hstart, FlatMemory.get_ofRom,
      if_pos haddr]
  · intro done addr value later _ haddr hplain hlater
    have hthen : writeAll start (done ++ (addr, value) :: later) =
        writeAll (writeAll start (done ++ [(addr, value)])) later := by
      rw [List.append_cons]
      exact List.foldl_append
    rw [hthen, h.read_writeAll_of_untouched later hlater, hread done addr value haddr hplain,
      if_pos rfl]
  · intro done addr value _ haddr hplain x hx
    rw [hread done addr value haddr hplain, if_neg hx]

/-! ### A flat memory, and an interface over it -/

instance : Backed FlatMemory where
  flat m := m
  passed _ addr value := [(addr, value)]
  read_eq _ _ := rfl
  flat_write _ _ _ := rfl

theorem FlatMemory.confined : Confined FlatMemory fun _ _ => false where
  plain _ _ _ _ := rfl
  touched _ _ _ hv := Or.inl (congrArg Prod.fst (List.mem_singleton.mp hv)).symm

namespace SerialInterface

variable {C : Type} [Cable C]

/-- What an interface writes in its memory when a byte is written to it. -/
def passed (serial : SerialInterface FlatMemory C) (addr : Word) (value : Byte) :
    List (Word × Byte) :=
  if starts addr value then
    let incoming := (Cable.exchange serial.cable (serial.memory.get dataAddr)).1
    let control := value &&& ~~~startBit
    let received := (serial.memory.write dataAddr incoming).write controlAddr control
    [(dataAddr, incoming), (controlAddr, control),
      (Interrupt.requestAddr, received.get Interrupt.requestAddr ||| Interrupt.serial.bit)]
  else [(addr, value)]

instance : Backed (SerialInterface FlatMemory C) where
  flat serial := serial.memory
  passed := passed
  read_eq _ _ := rfl
  flat_write serial addr value := by
    rw [memory_write, write, passed]
    split <;> rfl

theorem confined : Confined (SerialInterface FlatMemory C) starts where
  plain serial addr value hplain := if_neg (by rw [hplain]; exact Bool.false_ne_true)
  touched serial w v hv := by
    replace hv : v ∈ serial.passed w.1 w.2 := hv
    unfold passed at hv
    split at hv
    · rename_i hstart
      refine Or.inr ⟨hstart, ?_⟩
      simp only [List.mem_cons, List.not_mem_nil, or_false] at hv
      rcases hv with rfl | rfl | rfl <;> simp
    · exact Or.inl (congrArg Prod.fst (List.mem_singleton.mp hv)).symm

/--
**A cartridge image is what it was, whatever is done.**

Let a processor be driven by any operations, on a memory made of a cartridge image or on an
interface over one, with any cable.  At every point of that the lower half of memory reads as the
image, and as zero where the image is shorter; what does not fit is not there.  A byte written
above it is read back at its address, until that address is touched again, and is seen at no
other.  Only a write to the interface that starts a transfer is more than a byte written.
-/
theorem image_kept (rom : List Byte) (cable : C) (cpu : Cpu) (ops : List Operation) :
    KeepsImage (fun _ _ => false) rom (FlatMemory.ofRom rom) cpu ops ∧
      KeepsImage starts rom (plug (FlatMemory.ofRom rom) cable) cpu ops :=
  ⟨keepsImage FlatMemory.confined rfl cpu ops, keepsImage confined rfl cpu ops⟩

end SerialInterface

end Sm83
