/-
The bytes of an instruction are a code that can be read without a key.

An instruction is written as its opcode and its literal, and that is all that decoding looks at:
it takes from the window just the bytes that the instruction is written as.  So whatever comes
after these bytes makes no difference, and the place where the next instruction begins is known
when this one is read.

Instructions laid out one after the other are therefore found again one by one, although each time
three bytes are read and the last of these may belong to the next instruction, or to none.
-/
import Sm83.Cpu
import Sm83.Proofs.Decode
import Sm83.Proofs.FlatMemory
import Sm83.Proofs.Word

namespace Sm83

/-! ### Windows -/

namespace Window

variable {w w' : Window} {n : Nat}

/-- The bytes of a window, in order. -/
def bytes (w : Window) : List Byte := [w.first, w.second, w.third]

/-- Two windows have the same byte wherever their beginnings are the same. -/
theorem getElem?_bytes (h : w.bytes.take n = w'.bytes.take n) {k : Nat} (hk : k < n) :
    w.bytes[k]? = w'.bytes[k]? := by
  rw [← List.getElem?_take_of_lt hk, h, List.getElem?_take_of_lt hk]

theorem first_eq (h : w.bytes.take n = w'.bytes.take n) (hn : 0 < n) : w.first = w'.first :=
  Option.some.inj (getElem?_bytes h hn)

theorem second_eq (h : w.bytes.take n = w'.bytes.take n) (hn : 1 < n) : w.second = w'.second :=
  Option.some.inj (getElem?_bytes h hn)

theorem third_eq (h : w.bytes.take n = w'.bytes.take n) (hn : 2 < n) : w.third = w'.third :=
  Option.some.inj (getElem?_bytes h hn)

end Window

/-! ### Lengths -/

theorem Op.length_bounds (op : Op) : 1 ≤ op.length ∧ op.length ≤ 3 := by
  unfold length
  split <;> decide

theorem Op.length_cases (op : Op) : op.length = 1 ∨ op.length = 2 ∨ op.length = 3 := by
  have hbounds := op.length_bounds
  omega

/-- An opcode of the second page is two bytes, the escape byte and its own. -/
theorem Opcode.length_extended (byte : Byte) : (extended byte).length = 2 := by
  show (extendedOp byte).length = 2
  unfold extendedOp
  split <;> rfl

namespace Instruction

variable {w w' : Window} {addr : Word} {i : Instruction}

/-! ### The bytes that are looked at -/

/-- An opcode of the first page is written back with its literal, the low byte first. -/
theorem encode_base {n : Nat} (hn : (Opcode.base w.first).length = n) :
    encode ⟨addr, .base w.first, literalOf (.base w.first) n w⟩ = w.bytes.take n := by
  show w.first :: [Word.low (literalOf (.base w.first) n w),
    Word.high (literalOf (.base w.first) n w)].take ((Opcode.base w.first).length - 1) =
      w.bytes.take n
  rw [hn]
  obtain rfl | rfl | rfl : n = 1 ∨ n = 2 ∨ n = 3 := hn ▸ (Opcode.base w.first).op.length_cases
  · rfl
  · have hlow : Word.low (literalOf (.base w.first) 2 w) = w.second := Word.low_toUInt16 w.second
    rw [hlow]
    rfl
  · have hlow : Word.low (literalOf (.base w.first) 3 w) = w.second :=
      Word.low_ofBytes w.third w.second
    have hhigh : Word.high (literalOf (.base w.first) 3 w) = w.third :=
      Word.high_ofBytes w.third w.second
    rw [hlow, hhigh]
    rfl

/-- An instruction is written as the bytes that it was decoded from. -/
theorem encode_of_decode (h : decode w addr = .ok i) : i.encode = w.bytes.take i.length := by
  obtain ⟨-, rfl⟩ := decode_eq_ok_iff.mp h
  by_cases hfirst : w.first = 0xCB
  · rw [opcodeOf_escape hfirst]
    show [0xCB, w.second] = w.bytes.take (Opcode.extended w.second).length
    rw [Opcode.length_extended, Window.bytes, hfirst]
    rfl
  · have hcode := opcodeOf_of_ne hfirst
    rw [hcode]
    exact encode_base rfl

theorem length_encode (h : decode w addr = .ok i) : i.encode.length = i.length := by
  have hbounds := i.op.length_bounds
  have hlength : i.length ≤ w.bytes.length := hbounds.2
  rw [encode_of_decode h, List.length_take, Nat.min_eq_left hlength]

/-- The opcode is found in the bytes that the instruction takes. -/
theorem opcodeOf_eq (h : w.bytes.take (opcodeOf w).length = w'.bytes.take (opcodeOf w).length) :
    opcodeOf w' = opcodeOf w := by
  have hfirst := Window.first_eq h (opcodeOf w).op.length_bounds.1
  by_cases hescape : w.first = 0xCB
  · have hlength : 1 < (opcodeOf w).length := by
      rw [opcodeOf_escape hescape, Opcode.length_extended]
      decide
    rw [opcodeOf_escape hescape, opcodeOf_escape (hfirst ▸ hescape), Window.second_eq h hlength]
  · rw [opcodeOf_of_ne hescape, opcodeOf_of_ne (hfirst ▸ hescape), hfirst]

/-- The literal is found there as well. -/
theorem literalOf_eq {n : Nat} (h : w.bytes.take n = w'.bytes.take n) (code : Opcode) :
    literalOf code n w' = literalOf code n w := by
  unfold literalOf
  split
  · rw [Window.second_eq h (by decide)]
  · rw [Window.second_eq h (by decide), Window.third_eq h (by decide)]
  · rfl

/-- What comes after the bytes of an instruction makes no difference to decoding it. -/
theorem decode_of_prefix (h : decode w addr = .ok i) (hfront : i.encode <+: w'.bytes) :
    decode w' addr = .ok i := by
  have htake : w.bytes.take i.length = w'.bytes.take i.length := by
    rw [← encode_of_decode h, List.prefix_iff_eq_take.mp hfront, length_encode h]
  obtain ⟨hdefined, rfl⟩ := decode_eq_ok_iff.mp h
  have hliteral : literalOf (opcodeOf w) (opcodeOf w).op.length w' = _ :=
    literalOf_eq htake (opcodeOf w)
  rw [decode_eq_ok_iff, opcodeOf_eq htake, hliteral]
  exact ⟨hdefined, rfl⟩

/-- An instruction without a literal has zero for it. -/
theorem literal_of_decode (h : decode w addr = .ok i)
    (hnone : i.opcode.isExtended ∨ i.length = 1) : i.literal = 0 := by
  obtain ⟨-, rfl⟩ := decode_eq_ok_iff.mp h
  show literalOf (opcodeOf w) (opcodeOf w).length w = 0
  obtain hextended | hlength := hnone
  · cases hcode : opcodeOf w with
    | base byte => rw [hcode] at hextended; exact absurd hextended Bool.false_ne_true
    | extended byte => rfl
  · have hone : (opcodeOf w).length = 1 := hlength
    rw [hone]
    cases opcodeOf w <;> rfl

/-- An instruction as the bytes of a window give it at an address. -/
structure ReadFrom (i : Instruction) (w : Window) (addr : Word) : Prop where
  /-- The bytes it is written as are the first ones of the window. -/
  encode : i.encode = w.bytes.take i.length
  /-- Whatever follows these bytes, they decode to it again. -/
  again : ∀ w', i.encode <+: w'.bytes → decode w' addr = .ok i
  literal : i.opcode.isExtended ∨ i.length = 1 → i.literal = 0
  addr : i.addr = addr

theorem readFrom_of_decode (h : decode w addr = .ok i) : i.ReadFrom w addr where
  encode := encode_of_decode h
  again _ := decode_of_prefix h
  literal := literal_of_decode h
  addr := addr_of_decode h

/-! ### One instruction after the other -/

/-- An instruction that decoding can yield. -/
def Decoded (i : Instruction) : Prop := ∃ w addr, decode w addr = .ok i

/-- Instructions moved to where they are when they are laid out from an address on. -/
def placed : Word → List Instruction → List Instruction
  | _, [] => []
  | addr, i :: rest => { i with addr } :: placed (addr + UInt16.ofNat i.length) rest

/-- The bytes of instructions that are laid out. -/
def code (is : List Instruction) : List Byte := is.flatMap encode

/-- Placing instructions changes neither their opcodes nor their literals. -/
theorem map_placed (is : List Instruction) : ∀ addr : Word,
    (placed addr is).map (fun i => (i.opcode, i.literal)) =
      is.map fun i => (i.opcode, i.literal) := by
  induction is with
  | nil => exact fun _ => rfl
  | cons i rest ih => exact fun addr => congrArg ((i.opcode, i.literal) :: ·) (ih _)

end Instruction

/-! ### Instructions in a memory -/

section Memory

variable {M : Type} [Memory M] {m : M} {addr : Word}

/-- The bytes are in the memory from an address on. -/
def Memory.Holds (m : M) (addr : Word) (bytes : List Byte) : Prop :=
  ∀ k b, bytes[k]? = some b → Memory.read m (addr + UInt16.ofNat k) = b

theorem Memory.Holds.left {xs ys : List Byte} (h : Holds m addr (xs ++ ys)) : Holds m addr xs := by
  intro k b hb
  obtain ⟨hk, -⟩ := List.getElem?_eq_some_iff.mp hb
  exact h k b ((List.getElem?_append_left hk).trans hb)

theorem Memory.Holds.right {xs ys : List Byte} (h : Holds m addr (xs ++ ys)) :
    Holds m (addr + UInt16.ofNat xs.length) ys := by
  intro k b hb
  have hskip : (xs ++ ys)[xs.length + k]? = some b := by
    rw [List.getElem?_append_right (Nat.le_add_right _ _), Nat.add_sub_cancel_left]
    exact hb
  rw [UInt16.add_assoc, ← UInt16.ofNat_add]
  exact h _ b hskip

/-- What was loaded is there, unless it overwrote itself. -/
theorem FlatMemory.holds_load (m : FlatMemory) (addr : Word) {bytes : List Byte}
    (hlen : bytes.length ≤ addressSpace) : Memory.Holds (m.load addr bytes) addr bytes := by
  intro k b hb
  obtain ⟨hk, -⟩ := List.getElem?_eq_some_iff.mp hb
  have hoffset : (addr + UInt16.ofNat k - addr).toNat = k := by
    rw [UInt16.add_comm, UInt16.add_sub_cancel, UInt16.toNat_ofNat']
    exact Nat.mod_eq_of_lt (Nat.lt_of_lt_of_le hk hlen)
  rw [memory_read, get_load _ _ _ _ hlen, hoffset, hb]
  rfl

/-- Up to three bytes in a memory are what the window there begins with. -/
theorem Memory.Holds.prefix_window {bytes : List Byte} (h : Holds m addr bytes)
    (hlen : bytes.length ≤ 3) :
    bytes <+: Window.bytes ⟨read m addr, read m (addr + 1), read m (addr + 2)⟩ := by
  rw [List.prefix_iff_getElem?]
  intro k hk
  rw [← h k _ (List.getElem?_eq_getElem hk)]
  match k, Nat.lt_of_lt_of_le hk hlen with
  | 0, _ =>
    have hzero : addr + UInt16.ofNat 0 = addr := UInt16.add_zero addr
    rw [hzero]
    rfl
  | 1, _ => rfl
  | 2, _ => rfl

/-- An instruction is fetched from where its bytes are, whatever comes after them. -/
theorem Cpu.eval_fetch_of_holds {i : Instruction} (hi : i.Decoded)
    (h : Memory.Holds m addr i.encode) : (fetch addr).eval m = .ok { i with addr } := by
  obtain ⟨w, addr', hdecode⟩ := hi
  have hlen : i.encode.length ≤ 3 := by
    rw [Instruction.length_encode hdecode]
    exact i.op.length_bounds.2
  exact Instruction.decode_of_prefix (Instruction.decode_at hdecode addr) (h.prefix_window hlen)

/-- Fetches so many instructions, each from where the one before it ends. -/
def Cpu.sweep (m : M) : Nat → Word → Except Fault (List Instruction)
  | 0, _ => .ok []
  | n + 1, addr => do
    let i ← (fetch addr).eval m
    let rest ← sweep m n i.next
    return i :: rest

/-- Instructions that are laid out are fetched one by one. -/
theorem Cpu.sweep_of_holds (is : List Instruction) : ∀ addr : Word,
    (∀ i ∈ is, i.Decoded) → Memory.Holds m addr (Instruction.code is) →
      sweep m is.length addr = .ok (Instruction.placed addr is) := by
  induction is with
  | nil => exact fun _ _ _ => rfl
  | cons i rest ih =>
      intro addr hall h
      obtain ⟨hi, hrest⟩ := List.forall_mem_cons.mp hall
      have hfetch := eval_fetch_of_holds hi h.left
      obtain ⟨w, addr', hdecode⟩ := hi
      have hnext := ih (addr + UInt16.ofNat i.length) hrest (by
        rw [← Instruction.length_encode hdecode]
        exact h.right)
      show ((fetch addr).eval m >>= fun j => sweep m rest.length j.next >>= fun js =>
        pure (j :: js)) = _
      rw [hfetch]
      show (sweep m rest.length (addr + UInt16.ofNat i.length) >>= fun js =>
        pure ({ i with addr } :: js)) = _
      rw [hnext]
      rfl

/--
**Decoding is a prefix code that loses nothing.**  What a window decodes to is written as the bytes
that the window begins with, and these bytes decode to it again whatever follows them.

So instructions that are in a memory one after the other are fetched one after the other, each from
where the one before it ends, and nothing else in the memory matters.
-/
theorem Cpu.sweep_laid_out :
    (∀ w addr i, Instruction.decode w addr = .ok i → i.ReadFrom w addr) ∧
      ∀ (m : M) (addr : Word) (is : List Instruction), (∀ i ∈ is, i.Decoded) →
        Memory.Holds m addr (Instruction.code is) →
          sweep m is.length addr = .ok (Instruction.placed addr is) ∧
            (Instruction.placed addr is).map (fun i => (i.opcode, i.literal)) =
              is.map fun i => (i.opcode, i.literal) := by
  refine ⟨fun _ _ _ => Instruction.readFrom_of_decode, ?_⟩
  intro m addr is hall h
  exact ⟨sweep_of_holds is addr hall h, Instruction.map_placed is addr⟩

end Memory

/-- A bit test, a jump and a rotation. -/
def threeInstructions : List Instruction :=
  [⟨0, .extended 0x7C, 0⟩, ⟨0, .base 0xC3, 0x1234⟩, ⟨0, .base 0x07, 0⟩]

/-- The jump in the middle takes its address from both ends of the memory. -/
theorem Cpu.sweep_laid_out_around_the_end :
    Instruction.ReadFrom ⟨0, .base 0xC3, 0x1234⟩ ⟨0xC3, 0x34, 0x12⟩ 0 ∧
      sweep (FlatMemory.zeroed.load 0xFFFD (Instruction.code threeInstructions)) 3 0xFFFD =
        .ok [⟨0xFFFD, .extended 0x7C, 0⟩, ⟨0xFFFF, .base 0xC3, 0x1234⟩, ⟨2, .base 0x07, 0⟩] := by
  have hall : ∀ i ∈ threeInstructions, i.Decoded := by
    unfold threeInstructions
    simp only [List.forall_mem_cons]
    refine ⟨⟨⟨0xCB, 0x7C, 0⟩, 0, rfl⟩, ⟨⟨0xC3, 0x34, 0x12⟩, 0, rfl⟩, ⟨⟨0x07, 0, 0⟩, 0, rfl⟩, ?_⟩
    exact List.forall_mem_nil _
  have hholds := FlatMemory.holds_load .zeroed 0xFFFD
    (show (Instruction.code threeInstructions).length ≤ addressSpace by decide)
  obtain ⟨hread, hsweep⟩ := @sweep_laid_out FlatMemory _
  exact ⟨hread _ _ _ rfl, (hsweep _ _ _ hall hholds).1⟩

end Sm83
