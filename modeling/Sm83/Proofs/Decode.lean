/-
What decoding yields.

An instruction that decodes carries the address it was read at, and its operation is one
that can be executed: decoding refuses the undefined bytes, and it never stops at the byte
that announces the second page, because there it goes on with the byte after it.
-/
import Sm83.Instruction

namespace Sm83

/-- What holds of the bytes from 0 to 255 holds of every byte. -/
theorem forall_byte {P : Byte → Prop} (h : ∀ n : Fin 256, P (UInt8.ofFin n)) (b : Byte) : P b :=
  h b.toFin

/-- The operation is one that an instruction can have. -/
structure Op.Executable (op : Op) : Prop where
  ne_escape : op ≠ .escape
  ne_undefined : ∀ byte, op ≠ .undefined byte

namespace Opcode

/-- The first page holds the escape byte once. -/
theorem eq_of_baseOp_escape : ∀ byte : Byte, baseOp byte = .escape → byte = 0xCB :=
  forall_byte (by decide +kernel)

/-- The second page is full. -/
theorem extendedOp_executable (byte : Byte) : (extendedOp byte).Executable := by
  unfold extendedOp
  constructor
  · split <;> simp
  · intro b
    split <;> simp

end Opcode

namespace Instruction

variable {w : Window} {addr : Word} {i : Instruction}

theorem opcodeOf_escape (h : w.first = 0xCB) : opcodeOf w = .extended w.second :=
  if_pos (by rw [h]; rfl)

theorem opcodeOf_of_ne (h : w.first ≠ 0xCB) : opcodeOf w = .base w.first :=
  if_neg (by simpa using h)

/-- Decoding succeeds unless the operation is undefined, and uses as many bytes as it has. -/
theorem decode_eq_ok_iff : decode w addr = .ok i ↔
    (∀ byte, (opcodeOf w).op ≠ .undefined byte) ∧
      i = ⟨addr, opcodeOf w, literalOf (opcodeOf w) (opcodeOf w).op.length w⟩ := by
  simp only [decode]
  constructor
  · intro h
    split at h
    · exact absurd h (by simp)
    · rename_i hne
      exact ⟨hne, (Except.ok.inj h).symm⟩
  · rintro ⟨hne, rfl⟩
    split
    · rename_i byte hop
      exact absurd hop (hne byte)
    · rfl

/-- An instruction of one byte decodes whatever comes after it. -/
theorem decode_of_length_one {b : Byte} {op : Op} (hb : b ≠ 0xCB)
    (hop : (Opcode.base b).op = op) (hlength : op.length = 1)
    (hdefined : ∀ byte, op ≠ .undefined byte) (second third : Byte) (addr : Word) :
    decode ⟨b, second, third⟩ addr = .ok ⟨addr, .base b, 0⟩ := by
  have hcode : opcodeOf ⟨b, second, third⟩ = .base b := opcodeOf_of_ne hb
  rw [decode_eq_ok_iff, hcode, hop, hlength]
  exact ⟨hdefined, rfl⟩

theorem addr_of_decode (h : decode w addr = .ok i) : i.addr = addr := by
  rw [(decode_eq_ok_iff.mp h).2]

/-- The same bytes decode to the same instruction wherever they are. -/
theorem decode_at (h : decode w addr = .ok i) (addr' : Word) :
    decode w addr' = .ok { i with addr := addr' } := by
  obtain ⟨hdefined, rfl⟩ := decode_eq_ok_iff.mp h
  exact decode_eq_ok_iff.mpr ⟨hdefined, rfl⟩

theorem opcodeOf_ne_escape (w : Window) : (opcodeOf w).op ≠ .escape := by
  by_cases hfirst : w.first = 0xCB
  · rw [opcodeOf_escape hfirst]
    exact (Opcode.extendedOp_executable w.second).ne_escape
  · rw [opcodeOf_of_ne hfirst]
    exact fun h => hfirst (Opcode.eq_of_baseOp_escape _ h)

/-- An instruction that decodes can be executed. -/
theorem executable_of_decode (h : decode w addr = .ok i) : i.op.Executable := by
  obtain ⟨hne, rfl⟩ := decode_eq_ok_iff.mp h
  exact ⟨opcodeOf_ne_escape w, hne⟩

end Instruction

end Sm83
