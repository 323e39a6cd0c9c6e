/-
A listing shows what is in memory.

A line has three columns: the address, the bytes and the text of an instruction.  The offsets at
which they begin are the same in all lines, because an instruction has at most three bytes, and so
many fit in front of the text.  So a line can be read by cutting it at these offsets, without
knowing what it shows; and what is read are the address and the bytes themselves, and a text that is
the one of the instruction that the bytes decode to.

No line holds a line break but the one at its end.  So there are as many lines as instructions, and
they stand in the order of these.
-/
import Mathlib.Tactic.IntervalCases
import Sm83.Proofs.Encoding
import Sm83.Proofs.Hex
import Sm83.Proofs.Walk

namespace Sm83

namespace Hex

/-! ### No line breaks in numbers -/

theorem digit_ne_newline {n : Nat} (h : n < 16) : digit n ≠ '\n' := by
  have hall : ∀ k : Fin 16, digit k ≠ '\n' := by decide
  exact hall ⟨n, h⟩

theorem newline_notMem_digits (width : Nat) : ∀ n, '\n' ∉ digits width n := by
  induction width with
  | zero => exact fun _ => List.not_mem_nil
  | succ width ih =>
      intro n hmem
      rcases List.mem_append.mp hmem with hfront | hlast
      · exact ih _ hfront
      · exact digit_ne_newline (Nat.mod_lt n (by decide)) (List.mem_singleton.mp hlast).symm

theorem newline_notMem_toDigits (n : Nat) : '\n' ∉ Nat.toDigits 10 n := by
  intro h
  have hdigit := Nat.isDigit_of_mem_toDigits (by decide) (by decide) h
  exact absurd hdigit (by decide)

theorem newline_notMem_signed (b : Byte) : '\n' ∉ (signed b).toList := by
  rw [toList_signed]
  split
  · exact newline_notMem_toDigits _
  · exact List.not_mem_cons_of_ne_of_not_mem (by decide) (newline_notMem_toDigits _)

end Hex

/-! ### No line breaks in texts -/

theorem Slot.newline_notMem_name (slot : Slot) : '\n' ∉ slot.name.toList := by
  cases slot <;> decide

theorem Pair.newline_notMem_name (pair : Pair) : '\n' ∉ pair.name.toList := by
  cases pair <;> decide

theorem StackPair.newline_notMem_name (pair : StackPair) : '\n' ∉ pair.name.toList := by
  cases pair <;> decide

theorem Pointer.newline_notMem_name (pointer : Pointer) : '\n' ∉ pointer.name.toList := by
  cases pointer <;> decide

theorem Cond.newline_notMem_name (cond : Cond) : '\n' ∉ cond.name.toList := by
  cases cond <;> decide

theorem AluOp.newline_notMem_mnemonic (op : AluOp) : '\n' ∉ op.mnemonic.toList := by
  cases op <;> decide

theorem ShiftOp.newline_notMem_mnemonic (op : ShiftOp) : '\n' ∉ op.mnemonic.toList := by
  cases op <;> decide

/-- A piece whose fixed text has no line break. -/
def Piece.OneLine : Piece → Prop
  | .text s => '\n' ∉ s.toList
  | _ => True

theorem Op.oneLine_form (op : Op) : ∀ p ∈ op.form, p.OneLine := by
  cases op with
  | jr cond | jp cond | call cond | ret cond =>
    cases cond <;>
      simp [form, branchForm, Piece.OneLine, String.toList_append, Cond.newline_notMem_name]
  | bit n slot | res n slot | set n slot =>
    simp [form, bitForm, Piece.OneLine, String.toList_append, Slot.newline_notMem_name,
      Hex.newline_notMem_toDigits]
  | rst n | undefined byte =>
    simp [form, Piece.OneLine, String.toList_append, Hex.newline_notMem_digits]
  | _ =>
    simp [form, Piece.OneLine, String.toList_append, Slot.newline_notMem_name,
      Pair.newline_notMem_name, StackPair.newline_notMem_name, Pointer.newline_notMem_name,
      AluOp.newline_notMem_mnemonic, ShiftOp.newline_notMem_mnemonic]

/-- Nor does a literal bring one in. -/
theorem Piece.OneLine.newline_notMem_fill {p : Piece} (h : p.OneLine) (i : Instruction) :
    '\n' ∉ (p.fill i).toList := by
  cases p with
  | text s => exact h
  | displacement => exact Hex.newline_notMem_signed i.literalByte
  | byte | word | address | highAddress | target =>
    simp [fill, String.toList_append, Hex.newline_notMem_digits]

theorem Instruction.newline_notMem_text (i : Instruction) : '\n' ∉ i.text.toList := by
  rw [text, String.toList_join, List.mem_flatMap]
  rintro ⟨s, hs, hmem⟩
  obtain ⟨p, hp, rfl⟩ := List.mem_map.mp hs
  exact (i.op.oneLine_form p hp).newline_notMem_fill i hmem

namespace Disassembly

variable {M : Type} [Memory M]

/-! ### Reading lines -/

/-- The address that a line shows, in its first four characters. -/
def shownAddress? (row : List Char) : Option Word :=
  (Hex.number? (row.take 4)).map UInt16.ofNat

/-- The byte that a line shows in place `k` of its bytes, which begin at offset 6. -/
def shownByte? (row : List Char) (k : Nat) : Option Byte :=
  (Hex.number? ((row.drop (6 + 3 * k)).take 2)).map UInt8.ofNat

/-- The bytes that a line shows.  There is room for three. -/
def shownBytes (row : List Char) : List Byte := (List.range 3).filterMap (shownByte? row)

/-- The text that a line shows, which begins at offset 16. -/
def shownText (row : List Char) : List Char := row.drop 16

/-- The bytes that an instruction takes in a memory. -/
def bytesOf (m : M) (i : Instruction) : List Byte :=
  (List.range i.length).map fun n => Memory.read m (i.addr + UInt16.ofNat n)

/-- What a line shows of an instruction in a memory. -/
structure Shows (m : M) (i : Instruction) (row : List Char) : Prop where
  address : shownAddress? row = some i.addr
  bytes : shownBytes row = bytesOf m i
  text : shownText row = i.text.toList
  /-- Between the address and the text there is a colon, and blanks where no byte is shown. -/
  blank : ∀ offset, 4 ≤ offset → offset < 16 →
    (∀ k, k < i.length → offset ≠ 6 + 3 * k ∧ offset ≠ 7 + 3 * k) →
      row[offset]? = some (if offset = 4 then ':' else ' ')
  /-- What is shown can be decoded, whatever follows the bytes, to what has the text shown. -/
  decodes : ∀ addr w, shownAddress? row = some addr → shownBytes row <+: w.bytes →
    ∃ j, Instruction.decode w addr = .ok j ∧ j.text.toList = shownText row

/-! ### Columns -/

/-- The column of bytes. -/
def bytesColumn (bytes : List Byte) : List Char :=
  [' '].intercalate (bytes.map fun b => Hex.digits 2 b.toNat)

/-- A line by its columns. -/
def rowOf (addr : Word) (bytes : List Byte) (text : List Char) : List Char :=
  Hex.digits 4 addr.toNat ++ [':', ' '] ++ bytesColumn bytes ++
    List.replicate (bytesWidth - (bytesColumn bytes).length) ' ' ++ [' '] ++ text

section Columns

variable (addr : Word) (text : List Char)

theorem shownAddress?_rowOf (bytes : List Byte) :
    shownAddress? (rowOf addr bytes text) = some addr := by
  have hfront : (rowOf addr bytes text).take 4 = Hex.digits 4 addr.toNat := rfl
  rw [shownAddress?, hfront, Hex.number?_word, Option.map_some, UInt16.ofNat_toNat]

theorem shownByte?_of_digits {row : List Char} {k : Nat} {b : Byte}
    (h : (row.drop (6 + 3 * k)).take 2 = Hex.digits 2 b.toNat) : shownByte? row k = some b := by
  rw [shownByte?, h, Hex.number?_byte, Option.map_some, UInt8.ofNat_toNat]

theorem shownByte?_of_blank {row : List Char} {k : Nat}
    (h : (row.drop (6 + 3 * k)).take 2 = [' ', ' ']) : shownByte? row k = none := by
  rw [shownByte?, h]
  rfl

/-- In each of its places a line has a byte, or else two blanks. -/
theorem shownByte?_rowOf : ∀ bytes : List Byte, 1 ≤ bytes.length → bytes.length ≤ 3 →
    ∀ k < 3, shownByte? (rowOf addr bytes text) k = bytes[k]?
  | [_], _, _, 0, _ => shownByte?_of_digits rfl
  | [_], _, _, 1, _ => shownByte?_of_blank rfl
  | [_], _, _, 2, _ => shownByte?_of_blank rfl
  | [_, _], _, _, 0, _ => shownByte?_of_digits rfl
  | [_, _], _, _, 1, _ => shownByte?_of_digits rfl
  | [_, _], _, _, 2, _ => shownByte?_of_blank rfl
  | [_, _, _], _, _, 0, _ => shownByte?_of_digits rfl
  | [_, _, _], _, _, 1, _ => shownByte?_of_digits rfl
  | [_, _, _], _, _, 2, _ => shownByte?_of_digits rfl

theorem filterMap_range_three : ∀ bytes : List Byte, 1 ≤ bytes.length → bytes.length ≤ 3 →
    (List.range 3).filterMap (bytes[·]?) = bytes
  | [_], _, _ => rfl
  | [_, _], _, _ => rfl
  | [_, _, _], _, _ => rfl

theorem shownBytes_rowOf (bytes : List Byte) (hpos : 1 ≤ bytes.length) (hlen : bytes.length ≤ 3) :
    shownBytes (rowOf addr bytes text) = bytes := by
  have hplaces : shownBytes (rowOf addr bytes text) = (List.range 3).filterMap (bytes[·]?) :=
    List.filterMap_congr fun k hk =>
      shownByte?_rowOf addr text bytes hpos hlen k (List.mem_range.mp hk)
  rw [hplaces, filterMap_range_three bytes hpos hlen]

theorem shownText_rowOf : ∀ bytes : List Byte, 1 ≤ bytes.length → bytes.length ≤ 3 →
    shownText (rowOf addr bytes text) = text
  | [_], _, _ => rfl
  | [_, _], _, _ => rfl
  | [_, _, _], _, _ => rfl

/--
Where a line has no byte and no text, there is nothing but the colon after the address.

The cases are the three ways in which the first sixteen characters can be filled.
-/
theorem getElem?_rowOf_blank (bytes : List Byte) (hpos : 1 ≤ bytes.length) (hlen : bytes.length ≤ 3)
    (offset : Nat) (hfrom : 4 ≤ offset) (hto : offset < 16)
    (hgap : ∀ k, k < bytes.length → offset ≠ 6 + 3 * k ∧ offset ≠ 7 + 3 * k) :
    (rowOf addr bytes text)[offset]? = some (if offset = 4 then ':' else ' ') := by
  match bytes, hpos, hlen with
  | [a], _, _ =>
    obtain ⟨_, _, _, _, _, _, hrow⟩ : ∃ p q r s a₁ a₂, rowOf addr [a] text =
        [p, q, r, s, ':', ' ', a₁, a₂, ' ', ' ', ' ', ' ', ' ', ' ', ' ', ' '] ++ text :=
      ⟨_, _, _, _, _, _, rfl⟩
    have hfirst := hgap 0 (show 0 < 1 by decide)
    rw [hrow]
    interval_cases offset <;> first | omega | rfl
  | [a, b], _, _ =>
    obtain ⟨_, _, _, _, _, _, _, _, hrow⟩ : ∃ p q r s a₁ a₂ b₁ b₂, rowOf addr [a, b] text =
        [p, q, r, s, ':', ' ', a₁, a₂, ' ', b₁, b₂, ' ', ' ', ' ', ' ', ' '] ++ text :=
      ⟨_, _, _, _, _, _, _, _, rfl⟩
    have hfirst := hgap 0 (show 0 < 2 by decide)
    have hsecond := hgap 1 (show 1 < 2 by decide)
    rw [hrow]
    interval_cases offset <;> first | omega | rfl
  | [a, b, c], _, _ =>
    obtain ⟨_, _, _, _, _, _, _, _, _, _, hrow⟩ : ∃ p q r s a₁ a₂ b₁ b₂ c₁ c₂,
        rowOf addr [a, b, c] text =
          [p, q, r, s, ':', ' ', a₁, a₂, ' ', b₁, b₂, ' ', c₁, c₂, ' ', ' '] ++ text :=
      ⟨_, _, _, _, _, _, _, _, _, _, rfl⟩
    have hfirst := hgap 0 (show 0 < 3 by decide)
    have hsecond := hgap 1 (show 1 < 3 by decide)
    have hthird := hgap 2 (show 2 < 3 by decide)
    rw [hrow]
    interval_cases offset <;> first | omega | rfl

theorem newline_notMem_bytesColumn : ∀ bytes : List Byte, '\n' ∉ bytesColumn bytes
  | [] => List.not_mem_nil
  | [b] => Hex.newline_notMem_digits 2 b.toNat
  | b :: c :: rest => by
    have hrest := newline_notMem_bytesColumn (c :: rest)
    have hcolumn : bytesColumn (b :: c :: rest) =
        Hex.digits 2 b.toNat ++ [' '] ++ bytesColumn (c :: rest) := List.intercalate_cons_cons
    simp [hcolumn, hrest, Hex.newline_notMem_digits]

theorem newline_notMem_rowOf (bytes : List Byte) (htext : '\n' ∉ text) :
    '\n' ∉ rowOf addr bytes text := by
  simp [rowOf, htext, newline_notMem_bytesColumn, Hex.newline_notMem_digits]

end Columns

/-! ### The line of an instruction -/

variable {m : M} {i : Instruction}

theorem length_bytesOf (m : M) (i : Instruction) : (bytesOf m i).length = i.length := by
  rw [bytesOf, List.length_map, List.length_range]

theorem eval_mapM_readByte (m : M) (f : Nat → Word) : ∀ ns : List Nat,
    (ns.mapM fun n => Bus.readByte (f n)).eval m = ns.map fun n => Memory.read m (f n)
  | [] => rfl
  | n :: ns => by
    rw [List.mapM_cons]
    simp [eval_mapM_readByte m f ns]

/-- The bytes are shown as their column, in the same order. -/
theorem toList_formatBytes (m : M) (i : Instruction) :
    ((formatBytes i.addr i.length).eval m).toList = bytesColumn (bytesOf m i) := by
  have heval : (formatBytes i.addr i.length).eval m =
      " ".intercalate ((bytesOf m i).map Hex.byte) := by
    simp [formatBytes, eval_mapM_readByte, bytesOf]
  have hblank : " ".toList = [' '] := by simp
  have hbytes : String.toList ∘ Hex.byte = fun b => Hex.digits 2 b.toNat := funext Hex.toList_byte
  rw [heval, String.toList_intercalate, hblank, List.map_map, hbytes, bytesColumn]

theorem toList_padTo (width : Nat) (s : String) :
    (padTo width s).toList = s.toList ++ List.replicate (width - s.toList.length) ' ' := by
  rw [padTo, String.toList_append, String.toList_ofList, String.length_toList]

/-- A line is its columns, and a line break. -/
theorem toList_line (m : M) (i : Instruction) :
    (line m i).toList = rowOf i.addr (bytesOf m i) i.text.toList ++ ['\n'] := by
  simp only [line, String.toList_append, Hex.toList_word, toList_padTo, toList_formatBytes, rowOf,
    List.append_assoc]
  rfl

/-- The bytes in memory are those that the instruction is written as. -/
theorem bytesOf_eq_encode (h : Walk.instructionAt m i.addr = .ok i) : bytesOf m i = i.encode := by
  rw [Instruction.encode_of_decode h, bytesOf]
  have hzero : i.addr + UInt16.ofNat 0 = i.addr := UInt16.add_zero i.addr
  obtain hlen | hlen | hlen : i.length = 1 ∨ i.length = 2 ∨ i.length = 3 := i.op.length_cases
  all_goals
    rw [hlen]
    show Memory.read m (i.addr + UInt16.ofNat 0) :: _ = _
    rw [hzero]
    rfl

theorem shows_rowOf (h : Walk.instructionAt m i.addr = .ok i) :
    Shows m i (rowOf i.addr (bytesOf m i) i.text.toList) := by
  have hbounds : 1 ≤ (bytesOf m i).length ∧ (bytesOf m i).length ≤ 3 :=
    length_bytesOf m i ▸ i.op.length_bounds
  have haddress := shownAddress?_rowOf i.addr i.text.toList (bytesOf m i)
  have hbytes := shownBytes_rowOf i.addr i.text.toList (bytesOf m i) hbounds.1 hbounds.2
  have htext := shownText_rowOf i.addr i.text.toList (bytesOf m i) hbounds.1 hbounds.2
  refine ⟨haddress, hbytes, htext, ?_, ?_⟩
  · rw [← length_bytesOf m i]
    exact getElem?_rowOf_blank i.addr i.text.toList (bytesOf m i) hbounds.1 hbounds.2
  · intro addr w haddr hfront
    obtain rfl : i.addr = addr := Option.some.inj (haddress.symm.trans haddr)
    rw [hbytes, bytesOf_eq_encode h] at hfront
    exact ⟨i, Instruction.decode_of_prefix h hfront, htext.symm⟩

/-! ### The listing -/

theorem toList_listing (m : M) (entry : Word) (permissive : Bool) :
    (listing m entry permissive).toList =
      ((instructions m entry permissive).map fun i =>
        rowOf i.addr (bytesOf m i) i.text.toList).flatMap (· ++ ['\n']) := by
  rw [listing, String.toList_join]
  simp [List.flatMap_map, toList_line]

/--
**A listing shows what is in memory.**  It is made of lines, of which each ends with a line break
and holds no other.  There is one for each instruction that is reached, in ascending order of their
addresses.  What stands in a line can be read off by the columns, and is the address, the bytes that
are in memory there and the text; and decoding what is shown, with any bytes after it, gives the
text that is shown.
-/
theorem listing_faithful (m : M) (entry : Word) (permissive : Bool) :
    (instructions m entry permissive).Pairwise (fun i j => i.addr < j.addr) ∧
      ∃ rows : List (List Char),
        (listing m entry permissive).toList = rows.flatMap (· ++ ['\n']) ∧
          (∀ row ∈ rows, '\n' ∉ row) ∧
          List.Forall₂ (Shows m) (instructions m entry permissive) rows := by
  refine ⟨ascending_instructions m entry permissive, _, toList_listing m entry permissive, ?_, ?_⟩
  · intro line hline
    obtain ⟨i, -, rfl⟩ := List.mem_map.mp hline
    exact newline_notMem_rowOf _ _ _ i.newline_notMem_text
  · rw [List.forall₂_map_right_iff, List.forall₂_same]
    intro i hi
    have hfound := (perm_instructions m entry permissive).mem_iff.mp hi
    exact shows_rowOf (mem_discovered.mp hfound).2

end Disassembly

end Sm83
