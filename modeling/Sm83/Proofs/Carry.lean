/-
Carries and borrows.

A bit of a sum differs from the exclusive or of the bits that are added exactly where a carry comes
in.  That is how half carry is found, and here it is shown to be what its name says: the carry out of
the low nibbles, or the borrow into them.  Together with the equation between a sum, its operands and
its carry this is all that is known of an addition from here on, and all that has to be known.

The sums of words get by without additions of their own: the sum of two words is two sums of bytes,
the second of which takes in the carry of the first, and a displacement leaves the carries of its low
byte.
-/
import Sm83.Alu
import Sm83.Proofs.Word

namespace Sm83

/-! ### The carry into a bit -/

section Bits

variable {w i : Nat} (x y : BitVec w)

/-- A mask of one bit leaves something of a word that has the bit. -/
theorem and_twoPow_bne_zero (hi : i < w) : (x &&& BitVec.twoPow w i != 0) = x.getLsbD i := by
  have hne : BitVec.twoPow w i ≠ 0#w := by
    intro hzero
    have hbit : (BitVec.twoPow w i).getLsbD i = true := by simp [hi]
    rw [hzero, BitVec.getLsbD_zero] at hbit
    exact Bool.false_ne_true hbit
  rw [BitVec.and_twoPow]
  cases x.getLsbD i with
  | true => exact bne_iff_ne.mpr hne
  | false => exact bne_self_eq_false (0#w)

/-- Two words and their sum tell the carry into each bit. -/
theorem getLsbD_xor_sum (hi : i < w) (carry : Bool) :
    (x ^^^ y ^^^ (x + y + BitVec.setWidth w (BitVec.ofBool carry))).getLsbD i =
      BitVec.carry i x y carry := by
  rw [BitVec.getLsbD_xor, BitVec.getLsbD_xor, BitVec.getLsbD_add_add_bool hi]
  cases x.getLsbD i <;> cases y.getLsbD i <;> cases BitVec.carry i x y carry <;> rfl

end Bits

theorem toBitVec_toUInt8 (carry : Bool) :
    carry.toUInt8.toBitVec = BitVec.setWidth 8 (BitVec.ofBool carry) := by
  cases carry <;> rfl

/-- The bit of a byte that a mask leaves. -/
theorem Byte.and_mask_bne_zero (b : Byte) {mask : Byte} {i : Nat} (hi : i < 8)
    (hmask : mask.toBitVec = BitVec.twoPow 8 i) :
    (b &&& mask != 0) = b.toBitVec.getLsbD i := by
  rw [← and_twoPow_bne_zero b.toBitVec hi, Bool.eq_iff_iff, bne_iff_ne, bne_iff_ne, Ne, Ne,
    ← UInt8.toBitVec_inj, UInt8.toBitVec_and, hmask]
  rfl

/-- The bit of a word that a mask leaves. -/
theorem Word.and_mask_bne_zero (w : Word) {mask : Word} {i : Nat} (hi : i < 16)
    (hmask : mask.toBitVec = BitVec.twoPow 16 i) :
    (w &&& mask != 0) = w.toBitVec.getLsbD i := by
  rw [← and_twoPow_bne_zero w.toBitVec hi, Bool.eq_iff_iff, bne_iff_ne, bne_iff_ne, Ne, Ne,
    ← UInt16.toBitVec_inj, UInt16.toBitVec_and, hmask]
  rfl

namespace Alu

/-! ### Bytes -/

/-- A sum and its carry are worth what was added. -/
theorem value_add (a b : Byte) (carry : Bool) :
    (add a b carry).value.toNat + 256 * (add a b carry).flags.c.toNat =
      a.toNat + b.toNat + carry.toNat := by
  have ha : a.toNat < 256 := a.toNat_lt
  have hb : b.toNat < 256 := b.toNat_lt
  have hcarry : carry.toUInt8.toNat = carry.toNat := by cases carry <;> rfl
  have hone : carry.toNat ≤ 1 := carry.toNat_le
  show (a + b + carry.toUInt8).toNat +
    256 * (decide (a.toNat + b.toNat + carry.toNat > 0xFF)).toNat = _
  rw [UInt8.toNat_add, UInt8.toNat_add, hcarry]
  by_cases hover : a.toNat + b.toNat + carry.toNat > 0xFF
  · rw [decide_eq_true hover, Bool.toNat_true]
    omega
  · rw [decide_eq_false hover, Bool.toNat_false]
    omega

/-- The low half of a wide difference is the difference of the bytes. -/
theorem sub_value (a b : Byte) (borrow : Bool) :
    (sub a b borrow).value = a - b - borrow.toUInt8 := by
  show (a.toUInt16 - b.toUInt16 - borrow.toUInt16).toUInt8 = a - b - borrow.toUInt8
  rw [UInt16.toUInt8_sub, UInt16.toUInt8_sub, UInt8.toUInt8_toUInt16, UInt8.toUInt8_toUInt16]
  cases borrow <;> rfl

/-- A wide difference is no byte if more is subtracted than there is. -/
theorem carry_sub (a b : Byte) (borrow : Bool) :
    (sub a b borrow).flags.c = true ↔ a.toNat < b.toNat + borrow.toNat := by
  have ha : a.toNat < 256 := a.toNat_lt
  have hb : b.toNat < 256 := b.toNat_lt
  have hborrow : borrow.toUInt16.toNat = borrow.toNat := by cases borrow <;> rfl
  have hone : borrow.toNat ≤ 1 := borrow.toNat_le
  have hlargest : UInt16.toNat 0xFF = 255 := rfl
  show decide (a.toUInt16 - b.toUInt16 - borrow.toUInt16 > 0xFF) = true ↔ _
  rw [decide_eq_true_iff, gt_iff_lt, UInt16.lt_iff_toNat_lt, UInt16.toNat_sub, UInt16.toNat_sub,
    UInt8.toNat_toUInt16, UInt8.toNat_toUInt16, hborrow, hlargest]
  omega

/-- A difference and its borrow are worth what was subtracted from. -/
theorem value_sub (a b : Byte) (borrow : Bool) :
    (sub a b borrow).value.toNat + b.toNat + borrow.toNat =
      a.toNat + 256 * (sub a b borrow).flags.c.toNat := by
  have ha : a.toNat < 256 := a.toNat_lt
  have hb : b.toNat < 256 := b.toNat_lt
  have hborrow : borrow.toUInt8.toNat = borrow.toNat := by cases borrow <;> rfl
  have hone : borrow.toNat ≤ 1 := borrow.toNat_le
  have hunder := carry_sub a b borrow
  rw [sub_value, UInt8.toNat_sub, UInt8.toNat_sub, hborrow]
  cases hc : (sub a b borrow).flags.c with
  | true =>
      rw [Bool.toNat_true]
      have hless := hunder.mp hc
      omega
  | false =>
      rw [Bool.toNat_false]
      have hless : ¬ a.toNat < b.toNat + borrow.toNat := fun h => by simp [hunder.mpr h] at hc
      omega

/-- The carry of a sum is set if the sum does not fit a byte. -/
theorem carry_add (a b : Byte) (carry : Bool) :
    (add a b carry).flags.c = true ↔ 256 ≤ a.toNat + b.toNat + carry.toNat := decide_eq_true_iff

/-- Half carry of a sum is the carry out of the low nibbles. -/
theorem halfCarry_add (a b : Byte) (carry : Bool) :
    (add a b carry).flags.h = true ↔ 16 ≤ a.toNat % 16 + b.toNat % 16 + carry.toNat := by
  have hmask : (0x10 : Byte).toBitVec = BitVec.twoPow 8 4 := rfl
  have hcarry : (add a b carry).flags.h = BitVec.carry 4 a.toBitVec b.toBitVec carry := by
    show ((a ^^^ b ^^^ (a + b + carry.toUInt8)) &&& 0x10 != 0) = _
    rw [Byte.and_mask_bne_zero _ (by decide) hmask, UInt8.toBitVec_xor, UInt8.toBitVec_xor,
      UInt8.toBitVec_add, UInt8.toBitVec_add, toBitVec_toUInt8, getLsbD_xor_sum _ _ (by decide)]
  rw [hcarry, BitVec.carry, decide_eq_true_iff]
  rfl

/-- A difference is what has to be added to get back, so their half carries are the same. -/
theorem halfCarry_sub_eq (a b : Byte) (borrow : Bool) :
    (sub a b borrow).flags.h = (add (sub a b borrow).value b borrow).flags.h := by
  have hback : (sub a b borrow).value + b + borrow.toUInt8 = a := by
    rw [sub_value, UInt8.add_assoc, UInt8.add_comm b, ← UInt8.add_assoc, UInt8.sub_add_cancel,
      UInt8.sub_add_cancel]
  show ((a ^^^ b ^^^ (sub a b borrow).value) &&& 0x10 != 0) =
    (((sub a b borrow).value ^^^ b ^^^ ((sub a b borrow).value + b + borrow.toUInt8)) &&& 0x10 != 0)
  rw [hback, UInt8.xor_comm _ a, UInt8.xor_comm (sub a b borrow).value b, ← UInt8.xor_assoc]

/-- Half carry of a difference is the borrow into the low nibbles. -/
theorem halfCarry_sub (a b : Byte) (borrow : Bool) :
    (sub a b borrow).flags.h = true ↔ a.toNat % 16 < b.toNat % 16 + borrow.toNat := by
  have hone : borrow.toNat ≤ 1 := borrow.toNat_le
  have hvalue := value_sub a b borrow
  rw [halfCarry_sub_eq, halfCarry_add]
  omega

/-- What it is to be the sum of two bytes and a carry, with its flags. -/
structure Adds (a b : Byte) (carry : Bool) (r : AluResult) : Prop where
  /-- The byte and its carry are worth what was added. -/
  value : r.value.toNat + 256 * r.flags.c.toNat = a.toNat + b.toNat + carry.toNat
  zero : r.flags.z = true ↔ r.value = 0
  subtract : r.flags.n = false
  /-- Half carry is the carry out of the low nibbles. -/
  halfCarry : r.flags.h = true ↔ 16 ≤ a.toNat % 16 + b.toNat % 16 + carry.toNat

/-- What it is to be the difference of two bytes less a borrow, with its flags. -/
structure Subtracts (a b : Byte) (borrow : Bool) (r : AluResult) : Prop where
  /-- The byte and what it was lessened by are worth the byte before and the borrow. -/
  value : r.value.toNat + b.toNat + borrow.toNat = a.toNat + 256 * r.flags.c.toNat
  zero : r.flags.z = true ↔ r.value = 0
  subtract : r.flags.n = true
  /-- Half carry is the borrow into the low nibbles. -/
  halfCarry : r.flags.h = true ↔ a.toNat % 16 < b.toNat % 16 + borrow.toNat

theorem adds_add (a b : Byte) (carry : Bool) : Adds a b carry (add a b carry) where
  value := value_add a b carry
  zero := beq_iff_eq
  subtract := rfl
  halfCarry := halfCarry_add a b carry

theorem subtracts_sub (a b : Byte) (borrow : Bool) : Subtracts a b borrow (sub a b borrow) where
  value := value_sub a b borrow
  zero := beq_iff_eq
  subtract := rfl
  halfCarry := halfCarry_sub a b borrow

/-! ### Words -/

/-- Two words and their sum tell the carry out of the bits below a mask. -/
theorem carry_into (a b : Word) {mask : Word} {i : Nat} (hi : i < 16)
    (hmask : mask.toBitVec = BitVec.twoPow 16 i) :
    ((a ^^^ b ^^^ (a + b)) &&& mask != 0) = true ↔
      mask.toNat ≤ a.toNat % mask.toNat + b.toNat % mask.toNat := by
  have hsum : a.toBitVec + b.toBitVec =
      a.toBitVec + b.toBitVec + BitVec.setWidth 16 (BitVec.ofBool false) :=
    (BitVec.add_zero _).symm
  have hsize : mask.toNat = Nat.pow 2 i := by
    rw [← UInt16.toNat_toBitVec, hmask]
    exact BitVec.toNat_twoPow_of_lt hi
  rw [Word.and_mask_bne_zero _ hi hmask, UInt16.toBitVec_xor, UInt16.toBitVec_xor,
    UInt16.toBitVec_add, hsum, getLsbD_xor_sum _ _ hi, BitVec.carry, decide_eq_true_iff, hsize]
  rfl

/-- A sum of words is a sum of the low bytes and one of the high bytes that takes in its carry. -/
theorem addWord_eq (a b : Word) (flags : Flags) :
    let low := add a.low b.low false
    let high := add a.high b.high low.flags.c
    addWord a b flags =
      (.ofBytes high.value low.value,
        { z := flags.z, n := false, h := high.flags.h, c := high.flags.c }) := by
  intro low high
  have hlow := value_add a.low b.low false
  have hhigh := value_add a.high b.high low.flags.c
  have hhalf := halfCarry_add a.high b.high low.flags.c
  rw [Word.toNat_low, Word.toNat_low, Bool.toNat_false] at hlow
  rw [Word.toNat_high, Word.toNat_high] at hhigh hhalf
  change low.value.toNat + 256 * low.flags.c.toNat = _ at hlow
  change high.value.toNat + 256 * high.flags.c.toNat = _ at hhigh
  change high.flags.h = true ↔ _ at hhalf
  have ha : a.toNat < 65536 := a.toNat_lt
  have hb : b.toNat < 65536 := b.toNat_lt
  have hlowValue : low.value.toNat < 256 := low.value.toNat_lt
  have hhighValue : high.value.toNat < 256 := high.value.toNat_lt
  have hcarry := high.flags.c.toNat_le
  have hvalue : a + b = .ofBytes high.value low.value := by
    refine UInt16.toNat_inj.mp ?_
    rw [UInt16.toNat_add, Word.toNat_ofBytes]
    omega
  have hhalfWord : (addWord a b flags).2.h = high.flags.h := by
    have hbit : (addWord a b flags).2.h = true ↔ 4096 ≤ a.toNat % 4096 + b.toNat % 4096 :=
      carry_into a b (show 12 < 16 by decide) rfl
    rw [Bool.eq_iff_iff, hbit, hhalf]
    omega
  have hcarryWord : decide (a.toNat + b.toNat > 0xFFFF) = high.flags.c := by
    cases hc : high.flags.c with
    | false =>
      rw [hc, Bool.toNat_false] at hhigh
      exact decide_eq_false (by omega)
    | true =>
      rw [hc, Bool.toNat_true] at hhigh
      exact decide_eq_true (by omega)
  calc
    addWord a b flags =
        (a + b, ⟨flags.z, false, (addWord a b flags).2.h,
          decide (a.toNat + b.toNat > 0xFFFF)⟩) := rfl
    _ = (.ofBytes high.value low.value, ⟨flags.z, false, high.flags.h, high.flags.c⟩) := by
        rw [hvalue, hhalfWord, hcarryWord]

/-- A displacement in two's complement is the same modulo the size of a word. -/
theorem toNat_signExtend (b : Byte) :
    ((Word.signExtend b).toNat : Int) = b.toInt8.toInt % 65536 := by
  have hb : b.toNat < 256 := b.toNat_lt
  have hsigned : b.toInt8.toInt = if 2 * b.toNat < 256 then (b.toNat : Int) else b.toNat - 256 :=
    BitVec.toInt_eq_toNat_cond b.toBitVec
  have hhalf : b < 0x80 ↔ b.toNat < 128 := UInt8.lt_iff_toNat_lt
  rw [hsigned, Word.signExtend]
  by_cases hpositive : b < 0x80
  · have hsmall : b.toNat < 128 := hhalf.mp hpositive
    rw [if_pos hpositive, if_pos (show 2 * b.toNat < 256 by omega), UInt8.toNat_toUInt16]
    omega
  · have hlarge : ¬b.toNat < 128 := fun h => hpositive (hhalf.mpr h)
    have hnegative : 0xFF00 ||| b.toUInt16 = Word.ofBytes 0xFF b := rfl
    have hpage : UInt8.toNat 0xFF = 255 := rfl
    rw [if_neg hpositive, if_neg (show ¬2 * b.toNat < 256 by omega), hnegative,
      Word.toNat_ofBytes, hpage]
    omega

/-- A displaced word has the carries of its low byte and the displacement, whatever its sign. -/
theorem addSigned_flags (sp : Word) (offset : Byte) :
    let low := add sp.low offset false
    (addSigned sp offset).2 = { z := false, n := false, h := low.flags.h, c := low.flags.c } := by
  intro low
  have hcarry : low.flags.c = true ↔ 256 ≤ sp.toNat % 256 + offset.toNat + 0 := by
    rw [← Word.toNat_low]
    exact carry_add sp.low offset false
  have hhalf : low.flags.h = true ↔ 16 ≤ sp.toNat % 256 % 16 + offset.toNat % 16 + 0 := by
    rw [← Word.toNat_low]
    exact halfCarry_add sp.low offset false
  have hoffset : (Word.signExtend offset).toNat % 256 = offset.toNat := by
    rw [← Word.toNat_low, Word.low_signExtend]
  have hfour : (addSigned sp offset).2.h = true ↔
      16 ≤ sp.toNat % 16 + (Word.signExtend offset).toNat % 16 :=
    carry_into sp _ (show 4 < 16 by decide) rfl
  have height : (addSigned sp offset).2.c = true ↔
      256 ≤ sp.toNat % 256 + (Word.signExtend offset).toNat % 256 :=
    carry_into sp _ (show 8 < 16 by decide) rfl
  have hhalfEq : (addSigned sp offset).2.h = low.flags.h := by
    rw [Bool.eq_iff_iff, hfour, hhalf]
    omega
  have hcarryEq : (addSigned sp offset).2.c = low.flags.c := by
    rw [Bool.eq_iff_iff, height, hcarry]
    omega
  calc
    (addSigned sp offset).2 =
        ⟨false, false, (addSigned sp offset).2.h, (addSigned sp offset).2.c⟩ := rfl
    _ = ⟨false, false, low.flags.h, low.flags.c⟩ := by rw [hhalfEq, hcarryEq]

/-- A displaced word is the word plus the displacement, which counts as signed. -/
theorem toNat_addSigned (sp : Word) (offset : Byte) :
    ((addSigned sp offset).1.toNat : Int) = (sp.toNat + offset.toInt8.toInt) % 65536 := by
  have hoffset := toNat_signExtend offset
  have hsum : (addSigned sp offset).1.toNat =
      (sp.toNat + (Word.signExtend offset).toNat) % 65536 := UInt16.toNat_add _ _
  rw [hsum]
  omega

/--
**The sums of words are sums of bytes.**  The sum of two words is put together from the sum of their
low bytes and that of their high bytes, which takes in the carry of the low ones and gives the sum
its half carry and its carry.  A displaced word is moved by the displacement as a signed number, and
has the half carry and the carry of its low byte and the displacement as an unsigned one.
-/
theorem word_sums_by_bytes :
    (∀ (a b : Word) (flags : Flags),
      let low := add a.low b.low false
      let high := add a.high b.high low.flags.c
      addWord a b flags =
        (.ofBytes high.value low.value,
          { z := flags.z, n := false, h := high.flags.h, c := high.flags.c })) ∧
    ∀ (sp : Word) (offset : Byte),
      let low := add sp.low offset false
      ((addSigned sp offset).1.toNat : Int) = (sp.toNat + offset.toInt8.toInt) % 65536 ∧
        (addSigned sp offset).2 =
          { z := false, n := false, h := low.flags.h, c := low.flags.c } :=
  ⟨addWord_eq, fun sp offset => ⟨toNat_addSigned sp offset, addSigned_flags sp offset⟩⟩

end Alu

end Sm83
