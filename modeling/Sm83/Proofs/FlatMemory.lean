/-
A flat memory holds what was put there.

A byte that is put somewhere is read back there and nowhere else, and a write either puts
its byte or, in the read-only part, does nothing.  So a program leaves every address alone
that it does not write to, whatever the read-only part is.  Loading puts bytes one after the
other, read-only or not.

A program does not tell two memories apart that agree wherever it reads, and it leaves two
memories that agree there again.
-/
import Mathlib.Data.List.Induction
import Sm83.FlatMemory
import Sm83.Proofs.Bus

namespace Sm83

namespace FlatMemory

@[simp] theorem memory_read (m : FlatMemory) (addr : Word) : Memory.read m addr = m.get addr := rfl

@[simp] theorem memory_write (m : FlatMemory) (addr : Word) (value : Byte) :
    Memory.write m addr value = m.write addr value := rfl

theorem get_put (m : FlatMemory) (addr : Word) (value : Byte) (x : Word) :
    (m.put addr value).get x = if x = addr then value else m.get x := by
  have hx : x.toNat < addressSpace := x.toNat_lt
  have haddr : addr.toNat < addressSpace := addr.toNat_lt
  show (m.bytes.set addr.toNat value haddr)[x.toNat] = if x = addr then value else m.bytes[x.toNat]
  rw [Vector.getElem_set]
  by_cases h : x = addr
  · rw [if_pos (by rw [h]), if_pos h]
  · rw [if_neg (fun hc => h (UInt16.toNat_inj.mp hc).symm), if_neg h]

@[simp] theorem get_zeroed (x : Word) : zeroed.get x = 0 := by
  simp [get, zeroed, Vector.get]

@[simp] theorem romEnd_put (m : FlatMemory) (addr : Word) (value : Byte) :
    (m.put addr value).romEnd = m.romEnd := rfl

@[simp] theorem romEnd_zeroed : zeroed.romEnd = 0 := rfl

theorem get_write (m : FlatMemory) (addr : Word) (value : Byte) (x : Word) :
    (m.write addr value).get x =
      if x = addr ∧ ¬ addr < m.romEnd then value else m.get x := by
  unfold write
  by_cases h : addr < m.romEnd
  · simp [h]
  · simp [h, get_put]

@[simp] theorem romEnd_write (m : FlatMemory) (addr : Word) (value : Byte) :
    (m.write addr value).romEnd = m.romEnd := by
  unfold write
  split
  · rfl
  · exact romEnd_put m addr value

theorem get_write_of_ne (m : FlatMemory) {addr x : Word} (value : Byte) (h : x ≠ addr) :
    (m.write addr value).get x = m.get x := by
  rw [get_write, if_neg (fun hc => h hc.1)]

/-- Where nothing is read-only, a write is read back. -/
theorem get_write_of_writable {m : FlatMemory} (h : m.romEnd = 0) (addr : Word)
    (value : Byte) (x : Word) :
    (m.write addr value).get x = if x = addr then value else m.get x := by
  simp [get_write, h]

/-- To load two pieces is to load the first one and then, where it has ended, the second one. -/
theorem load_append (first rest : List Byte) : ∀ (m : FlatMemory) (addr : Word),
    m.load addr (first ++ rest) =
      (m.load addr first).load (addr + UInt16.ofNat first.length) rest := by
  induction first with
  | nil =>
      intro m addr
      show m.load addr rest = m.load (addr + 0) rest
      rw [UInt16.add_zero]
  | cons b first ih =>
      intro m addr
      show (m.put addr b).load (addr + 1) (first ++ rest) = _
      rw [ih, List.length_cons, UInt16.ofNat_add, UInt16.add_comm (UInt16.ofNat first.length),
        ← UInt16.add_assoc]
      rfl

/-- The last byte is in its place, and the other addresses hold what the bytes before it made. -/
theorem get_load_concat (m : FlatMemory) (addr : Word) (data : List Byte) (b : Byte) (x : Word) :
    (m.load addr (data ++ [b])).get x =
      if x = addr + UInt16.ofNat data.length then b else (m.load addr data).get x := by
  rw [load_append]
  exact get_put _ _ _ _

/-- Loading no more bytes than there are addresses puts each where it is counted to. -/
theorem get_load (bytes : List Byte) (m : FlatMemory) (addr x : Word)
    (hlen : bytes.length ≤ addressSpace) :
    (m.load addr bytes).get x = bytes[(x - addr).toNat]?.getD (m.get x) := by
  induction bytes using List.reverseRecOn with
  | nil => rfl
  | append_singleton bytes b ih =>
      rw [List.length_append, List.length_singleton] at hlen
      have hplace : x = addr + UInt16.ofNat bytes.length ↔ (x - addr).toNat = bytes.length := by
        have hlast : (UInt16.ofNat bytes.length).toNat = bytes.length :=
          UInt16.toNat_ofNat_of_lt' hlen
        rw [UInt16.add_comm, ← UInt16.sub_eq_iff_eq_add, ← UInt16.toNat_inj, hlast]
      rw [get_load_concat, ih (Nat.le_of_succ_le hlen)]
      by_cases hx : x = addr + UInt16.ofNat bytes.length
      · rw [if_pos hx, hplace.mp hx, List.getElem?_concat_length]
        rfl
      · have hoffset : (x - addr).toNat ≠ bytes.length := fun h => hx (hplace.mpr h)
        rw [if_neg hx, List.getElem?_append]
        split
        · rfl
        · -- past the last byte there is none, with it or without it
          rw [List.getElem?_eq_none (by omega), List.getElem?_eq_none]
          rw [List.length_singleton]
          omega

/-- Made of an image, a memory holds the image in its lower half and zeros around it. -/
theorem get_ofRom (rom : List Byte) (addr : Word) :
    (ofRom rom).get addr = if addr < 0x8000 then rom[addr.toNat]?.getD 0 else 0 := by
  have hfits : (rom.take romSize).length ≤ addressSpace := by
    rw [List.length_take]
    exact Nat.le_trans (Nat.min_le_left _ _) (by decide)
  have hload : (ofRom rom).get addr = (rom.take romSize)[addr.toNat]?.getD 0 := by
    have hget := get_load (rom.take romSize) zeroed 0 addr hfits
    rwa [UInt16.sub_zero, get_zeroed] at hget
  rw [hload, List.getElem?_take]
  by_cases haddr : addr < 0x8000
  · have hlow : addr.toNat < romSize := haddr
    rw [if_pos haddr, if_pos hlow]
  · have hhigh : ¬ addr.toNat < romSize := haddr
    rw [if_neg haddr, if_neg hhigh]
    rfl

/-- A memory with a program at the address where cartridges start, and zeros elsewhere. -/
def programmed (program : List Byte) : FlatMemory := zeroed.load 0x100 program

theorem get_programmed {program : List Byte} (hlen : program.length ≤ addressSpace) (x : Word) :
    (programmed program).get x = program[(x - 0x100).toNat]?.getD 0 := by
  rw [programmed, get_load program _ _ _ hlen, get_zeroed]

/-- Writes change no address but their own. -/
theorem get_foldl_write (log : List (Word × Byte)) {x : Word} (h : x ∉ log.map Prod.fst) :
    ∀ m : FlatMemory, (log.foldl (fun m w => Memory.write m w.1 w.2) m).get x = m.get x := by
  induction log with
  | nil => intro m; rfl
  | cons w rest ih =>
      intro m
      simp only [List.map_cons, List.mem_cons, not_or] at h
      rw [List.foldl_cons, ih h.2, memory_write, get_write_of_ne m w.2 h.1]

/-- A program changes no address that it does not write to. -/
theorem get_exec {α : Type} (p : Bus α) (m : FlatMemory) {x : Word}
    (h : x ∉ (writesOf (p.trace m)).map Prod.fst) : (p.exec m).get x = m.get x := by
  rw [Bus.exec_eq_foldl]
  exact get_foldl_write _ h m

/-! ### The memories that can be made -/

/-- Made of zeros or of a cartridge image, with bytes loaded into it and written to it. -/
inductive Made : FlatMemory → Prop
  | zeroed : Made zeroed
  | ofRom (rom : List Byte) : Made (ofRom rom)
  | load {m : FlatMemory} (h : Made m) (addr : Word) (bytes : List Byte) : Made (m.load addr bytes)
  | write {m : FlatMemory} (h : Made m) (addr : Word) (value : Byte) : Made (m.write addr value)

@[simp] theorem romEnd_load (bytes : List Byte) : ∀ (m : FlatMemory) (addr : Word),
    (m.load addr bytes).romEnd = m.romEnd := by
  induction bytes with
  | nil => exact fun _ _ => rfl
  | cons b rest ih =>
      intro m addr
      rw [load, ih, romEnd_put]

/-- What is read-only is at most the lower half. -/
theorem Made.romEnd_le {m : FlatMemory} (h : Made m) : m.romEnd ≤ 0x8000 := by
  induction h with
  | zeroed => decide
  | ofRom rom => exact UInt16.le_refl 0x8000
  | load h addr bytes ih => rwa [romEnd_load]
  | write h addr value ih => rwa [romEnd_write]

/-! ### Memories that agree where it matters -/

/-- Two memories that hold the same bytes at some addresses and let the same ones be written. -/
structure AgreeOn (s : Word → Prop) (m m' : FlatMemory) : Prop where
  get : ∀ addr, s addr → m'.get addr = m.get addr
  writable : ∀ addr, s addr → (addr < m'.romEnd ↔ addr < m.romEnd)

namespace AgreeOn

variable {s : Word → Prop} {m m' : FlatMemory}

theorem write (h : AgreeOn s m m') (addr : Word) (value : Byte) :
    AgreeOn s (m.write addr value) (m'.write addr value) where
  get x hx := by
    rw [get_write, get_write, h.get x hx]
    by_cases hxa : x = addr
    · simp only [← hxa, h.writable x hx]
    · rw [if_neg (fun hc => hxa hc.1), if_neg (fun hc => hxa hc.1)]
  writable x hx := by
    rw [romEnd_write, romEnd_write]
    exact h.writable x hx

/-- A program that reads only where two memories agree does the same on both. -/
theorem run {α : Type} (h : AgreeOn s m m') {p : Bus α}
    (hreads : ∀ addr ∈ readsOf (p.trace m), s addr) :
    p.trace m' = p.trace m ∧ p.eval m' = p.eval m ∧ AgreeOn s (p.exec m) (p.exec m') := by
  induction p generalizing m m' with
  | done a => exact ⟨rfl, rfl, h⟩
  | read addr rest ih =>
      rw [Bus.trace_read, readsOf_read_cons] at hreads
      have hbyte : Memory.read m' addr = Memory.read m addr :=
        h.get addr (hreads addr List.mem_cons_self)
      obtain ⟨htrace, heval, hexec⟩ :=
        ih _ h fun x hx => hreads x (List.mem_cons_of_mem addr hx)
      simp only [Bus.trace_read, Bus.eval_read, Bus.exec_read, hbyte]
      exact ⟨congrArg (Transfer.read addr :: ·) htrace, heval, hexec⟩
  | write addr value rest ih =>
      rw [Bus.trace_write, readsOf_write_cons] at hreads
      obtain ⟨htrace, heval, hexec⟩ := ih (h.write addr value) hreads
      exact ⟨congrArg (Transfer.write addr value :: ·) htrace, heval, hexec⟩

end AgreeOn

end FlatMemory

end Sm83
