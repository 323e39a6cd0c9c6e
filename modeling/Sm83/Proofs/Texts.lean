/-
The text of an instruction says which instruction it is.

The operation can be read off the text, and an operation has one opcode.  Where an instruction has
a literal, all but one operation show it, and each of the ways in which a literal can be shown keeps
it: what is shown of a jump distance is its destination, from which the distance can be had back
because the address of the jump is known.
-/
import Sm83.Proofs.Encoding
import Sm83.Proofs.Reading

namespace Sm83

/-! ### The opcode of an operation -/

/-- The opcode that an operation is written as.  Operands are counted as they are listed. -/
def Op.opcode : Op → Opcode
  | nop => .base 0x00
  | stop => .base 0x10
  | halt => .base 0x76
  | di => .base 0xF3
  | ei => .base 0xFB
  | storeSp => .base 0x08
  | loadPair pair => row 0x01 0x10 pair.ctorIdx
  | addHl pair => row 0x09 0x10 pair.ctorIdx
  | storeA pointer => row 0x02 0x10 pointer.ctorIdx
  | loadA pointer => row 0x0A 0x10 pointer.ctorIdx
  | incPair pair => row 0x03 0x10 pair.ctorIdx
  | decPair pair => row 0x0B 0x10 pair.ctorIdx
  | inc slot => row 0x04 0x08 slot.ctorIdx
  | dec slot => row 0x05 0x08 slot.ctorIdx
  | loadImm slot => row 0x06 0x08 slot.ctorIdx
  | rlca => .base 0x07
  | rrca => .base 0x0F
  | rla => .base 0x17
  | rra => .base 0x1F
  | daa => .base 0x27
  | cpl => .base 0x2F
  | scf => .base 0x37
  | ccf => .base 0x3F
  | jr none => .base 0x18
  | jr (some cc) => row 0x20 0x08 cc.ctorIdx
  | move dst src => row (0x40 + src.ctorIdx) 0x08 dst.ctorIdx
  | alu op slot => row (0x80 + slot.ctorIdx) 0x08 op.ctorIdx
  | aluImm op => row 0xC6 0x08 op.ctorIdx
  | ret none => .base 0xC9
  | ret (some cc) => row 0xC0 0x08 cc.ctorIdx
  | reti => .base 0xD9
  | pop pair => row 0xC1 0x10 pair.ctorIdx
  | push pair => row 0xC5 0x10 pair.ctorIdx
  | jp none => .base 0xC3
  | jp (some cc) => row 0xC2 0x08 cc.ctorIdx
  | jpHl => .base 0xE9
  | call none => .base 0xCD
  | call (some cc) => row 0xC4 0x08 cc.ctorIdx
  | rst n => row 0xC7 0x08 n
  | storeHigh => .base 0xE0
  | loadHigh => .base 0xF0
  | storeHighC => .base 0xE2
  | loadHighC => .base 0xF2
  | storeAbs => .base 0xEA
  | loadAbs => .base 0xFA
  | addSp => .base 0xE8
  | loadHlSp => .base 0xF8
  | loadSpHl => .base 0xF9
  | escape => .base 0xCB
  | shift op slot => extendedRow slot.ctorIdx op.ctorIdx
  | bit n slot => extendedRow (0x40 + slot.ctorIdx) n
  | res n slot => extendedRow (0x80 + slot.ctorIdx) n
  | set n slot => extendedRow (0xC0 + slot.ctorIdx) n
  | undefined byte => .base byte
where
  row (start step n : Nat) : Opcode := .base (UInt8.ofNat (start + step * n))
  extendedRow (start n : Nat) : Opcode := .extended (UInt8.ofNat (start + 0x08 * n))

namespace Opcode

theorem opcode_baseOp : ∀ byte, (baseOp byte).opcode = base byte :=
  forall_byte (by decide +kernel)

theorem opcode_extendedOp : ∀ byte, (extendedOp byte).opcode = extended byte :=
  forall_byte (by decide +kernel)

/-- An opcode is told by its operation. -/
theorem opcode_op (code : Opcode) : code.op.opcode = code := by
  cases code with
  | base byte => exact opcode_baseOp byte
  | extended byte => exact opcode_extendedOp byte

theorem ofKey_key_base : ∀ byte, ofKey (base byte).key = .ok (base byte) :=
  forall_byte (by decide +kernel)

theorem ofKey_key_extended : ∀ byte, ofKey (extended byte).key = .ok (extended byte) :=
  forall_byte (by decide +kernel)

/-- An opcode is told by its number. -/
theorem ofKey_key (code : Opcode) : ofKey code.key = .ok code := by
  cases code with
  | base byte => exact ofKey_key_base byte
  | extended byte => exact ofKey_key_extended byte

theorem key_inj {c d : Opcode} (h : c.key = d.key) : c = d :=
  Except.ok.inj (by rw [← ofKey_key c, h, ofKey_key])

end Opcode

/-! ### What is shown of a literal -/

/-- The number of bytes of the literal that a piece shows. -/
def Piece.width : Piece → Nat
  | text _ => 0
  | byte | highAddress | displacement | target => 1
  | word | address => 2

/-- An operation shows its literal once and in full, unless it has none or does not show it. -/
theorem Op.form_cases (op : Op) :
    (op = .stop ∨ op.length = 1 ∨ op.opcode.isExtended) ∨
      ∃ front p back, op.form = .text front :: p :: List.map .text back ∧
        p.width + 1 = op.length := by
  cases op with
  | stop => exact .inl (.inl rfl)
  | shift op slot => exact .inl (.inr (.inr rfl))
  | bit n slot => exact .inl (.inr (.inr rfl))
  | res n slot => exact .inl (.inr (.inr rfl))
  | set n slot => exact .inl (.inr (.inr rfl))
  | storeSp => exact .inr ⟨_, .address, ["),SP"], rfl, rfl⟩
  | storeAbs => exact .inr ⟨_, .address, ["),A"], rfl, rfl⟩
  | loadAbs => exact .inr ⟨_, .address, [")"], rfl, rfl⟩
  | storeHigh => exact .inr ⟨_, .highAddress, ["),A"], rfl, rfl⟩
  | loadHigh => exact .inr ⟨_, .highAddress, [")"], rfl, rfl⟩
  | loadPair pair => exact .inr ⟨_, .word, [], rfl, rfl⟩
  | loadImm slot => exact .inr ⟨_, .byte, [], rfl, rfl⟩
  | aluImm op => exact .inr ⟨_, .byte, [], rfl, rfl⟩
  | addSp => exact .inr ⟨_, .displacement, [], rfl, rfl⟩
  | loadHlSp => exact .inr ⟨_, .displacement, [], rfl, rfl⟩
  | jr cond => cases cond <;> exact .inr ⟨_, .target, [], rfl, rfl⟩
  | jp cond => cases cond <;> exact .inr ⟨_, .address, [], rfl, rfl⟩
  | call cond => cases cond <;> exact .inr ⟨_, .address, [], rfl, rfl⟩
  | _ => exact .inl (.inr (.inl rfl))

namespace Instruction

variable {w w' : Window} {addr : Word} {i j : Instruction}

/-- A literal of one byte is the number of the byte. -/
theorem literal_of_length_two (h : decode w addr = .ok i) (hlength : i.length = 2) :
    i.literal = i.literalByte.toUInt16 := by
  obtain ⟨-, rfl⟩ := decode_eq_ok_iff.mp h
  have hcode : (opcodeOf w).op.length = 2 := hlength
  show literalOf (opcodeOf w) (opcodeOf w).op.length w =
    (Word.low (literalOf (opcodeOf w) (opcodeOf w).op.length w)).toUInt16
  rw [hcode]
  cases opcodeOf w with
  | base byte =>
    show w.second.toUInt16 = (Word.low w.second.toUInt16).toUInt16
    rw [Word.low_toUInt16]
  | extended byte => rfl

/-- Jumps of the same length at the same address that lead to the same place are equally far. -/
theorem literalByte_of_relativeTarget (hnext : i.next = j.next)
    (h : i.relativeTarget = j.relativeTarget) : i.literalByte = j.literalByte := by
  unfold relativeTarget at h
  rw [hnext, UInt16.add_right_inj] at h
  rw [← Word.low_signExtend i.literalByte, h, Word.low_signExtend]

/-- A piece that shows one byte keeps it. -/
theorem literalByte_of_fill (hnext : i.next = j.next) {p : Piece} (hwidth : p.width = 1)
    (h : p.fill i = p.fill j) : i.literalByte = j.literalByte := by
  cases p with
  | byte => exact Hex.byte_inj ((String.append_right_inj _).mp h)
  | highAddress => exact Hex.byte_inj ((String.append_right_inj _).mp h)
  | displacement => exact Hex.signed_inj h
  | target =>
    exact literalByte_of_relativeTarget hnext (Hex.word_inj ((String.append_right_inj _).mp h))
  | text s => exact absurd hwidth Nat.zero_ne_one
  | word => exact absurd hwidth (Nat.succ_ne_self 1)
  | address => exact absurd hwidth (Nat.succ_ne_self 1)

/-- A piece that shows two bytes keeps them. -/
theorem literal_of_fill {p : Piece} (hwidth : p.width = 2) (h : p.fill i = p.fill j) :
    i.literal = j.literal := by
  cases p with
  | word => exact Hex.word_inj ((String.append_right_inj _).mp h)
  | address => exact Hex.word_inj ((String.append_right_inj _).mp h)
  | _ => simp [Piece.width] at hwidth

/-- Texts that differ in one piece at most differ if this piece does. -/
theorem fill_of_text {front : String} {p : Piece} {back : List String}
    (hi : i.op.form = .text front :: p :: List.map .text back) (hop : j.op = i.op)
    (h : i.text = j.text) : p.fill i = p.fill j := by
  have hback (k : Instruction) : (List.map .text back).map (Piece.fill k) = back := by
    rw [List.map_map]
    exact List.map_id back
  have htext (k : Instruction) (hk : k.op = i.op) :
      k.text = front ++ (p.fill k ++ String.join back) := by
    rw [text, hk, hi, List.map_cons, List.map_cons, hback, String.join_cons, String.join_cons]
    rfl
  rw [htext i rfl, htext j hop, String.append_right_inj, String.append_left_inj] at h
  exact h

/-- Instructions at one address with the same operation and the same text have the same literal. -/
theorem literal_of_text (hi : decode w addr = .ok i) (hj : decode w' addr = .ok j)
    (hcode : i.opcode = j.opcode) (h : i.text = j.text) : i.op = .stop ∨ i.literal = j.literal := by
  have hop : j.op = i.op := congrArg Opcode.op hcode.symm
  have hlength : j.length = i.length := congrArg Op.length hop
  have hzero (hnone : i.opcode.isExtended ∨ i.length = 1) : i.literal = j.literal := by
    have hnone' : j.opcode.isExtended ∨ j.length = 1 := by rwa [← hcode, hlength]
    rw [literal_of_decode hi hnone, literal_of_decode hj hnone']
  obtain (hstop | hone | hextended) | ⟨front, p, back, hform, hwidth⟩ := i.op.form_cases
  · exact .inl hstop
  · exact .inr (hzero (.inr hone))
  · have hcodeOp : i.op.opcode = i.opcode := i.opcode.opcode_op
    rw [hcodeOp] at hextended
    exact .inr (hzero (.inl hextended))
  · have hfill := fill_of_text hform hop h
    have hnext : i.next = j.next := by
      rw [next, next, addr_of_decode hi, addr_of_decode hj, hlength]
    obtain hone | htwo | hthree := i.op.length_cases
    · exact .inr (hzero (.inr hone))
    · have hbyte := literalByte_of_fill hnext (by omega) hfill
      rw [literal_of_length_two hi htwo, literal_of_length_two hj (hlength.trans htwo), hbyte]
      exact .inr rfl
    · exact .inr (literal_of_fill (by omega) hfill)

/-- The operation of an instruction is read off its text. -/
theorem read?_text (h : decode w addr = .ok i) : Op.read? i.text.toList = some i.op :=
  Op.read?_written i (executable_of_decode h)

/--
**The text of an instruction says which instruction it is.**  Two instructions at one address have
the same text if and only if they have the same opcode and the same literal, except that the byte
after a `STOP` is not shown.
-/
theorem text_eq_iff (hi : decode w addr = .ok i) (hj : decode w' addr = .ok j) :
    i.text = j.text ↔
      i.opcode.key = j.opcode.key ∧ (i.op = .stop ∨ i.literal = j.literal) := by
  constructor
  · intro h
    have hread : some i.op = some j.op := by rw [← read?_text hi, h, read?_text hj]
    have hop : i.op = j.op := Option.some.inj hread
    have hcode : i.opcode = j.opcode := calc
      i.opcode = i.op.opcode := i.opcode.opcode_op.symm
      _ = j.op.opcode := by rw [hop]
      _ = j.opcode := j.opcode.opcode_op
    exact ⟨congrArg Opcode.key hcode, literal_of_text hi hj hcode h⟩
  · rintro ⟨hkey, hliteral⟩
    have hcode := Opcode.key_inj hkey
    have hop : i.op = j.op := congrArg Opcode.op hcode
    obtain hstop | hliteral := hliteral
    · have hshown (k : Instruction) : Op.stop.form.map (Piece.fill k) = ["STOP"] := rfl
      rw [text, text, ← hop, hstop, hshown, hshown]
    · have haddr : i.addr = j.addr := (addr_of_decode hi).trans (addr_of_decode hj).symm
      have hsame : i = j := calc
        i = ⟨i.addr, i.opcode, i.literal⟩ := rfl
        _ = ⟨j.addr, j.opcode, j.literal⟩ := by rw [haddr, hcode, hliteral]
        _ = j := rfl
      rw [hsame]

/-- The byte after a `STOP` is not shown, that after a jump is. -/
theorem text_eq_iff_stop_jump :
    (⟨0x150, .base 0x10, 0⟩ : Instruction).text = (⟨0x150, .base 0x10, 0xFF⟩ : Instruction).text ∧
      (⟨0x150, .base 0x18, 0⟩ : Instruction).text ≠
        (⟨0x150, .base 0x18, 0xFF⟩ : Instruction).text := by
  have hstop : decode ⟨0x10, 0, 0⟩ 0x150 = .ok ⟨0x150, .base 0x10, 0⟩ := rfl
  have hstop' : decode ⟨0x10, 0xFF, 0⟩ 0x150 = .ok ⟨0x150, .base 0x10, 0xFF⟩ := rfl
  have hjump : decode ⟨0x18, 0, 0⟩ 0x150 = .ok ⟨0x150, .base 0x18, 0⟩ := rfl
  have hjump' : decode ⟨0x18, 0xFF, 0⟩ 0x150 = .ok ⟨0x150, .base 0x18, 0xFF⟩ := rfl
  constructor
  · exact (text_eq_iff hstop hstop').mpr ⟨rfl, .inl rfl⟩
  · intro h
    obtain ⟨-, hnot | hliteral⟩ := (text_eq_iff hjump hjump').mp h
    · exact absurd hnot (by decide)
    · exact absurd hliteral (by decide)

end Instruction

end Sm83
