/-
Shifts of any width.

A byte that is rotated left through carry is added to itself, with the carry that comes in, and what
falls out of it is the carry of that sum.  So the bytes of a number, from the lowest up, are doubled
like one number.  Rotated right they are halved: what they were is the double of what they are, and
the same columns add up from the highest byte down.  The other shifts are these two with a carry of
their own, none or a copy of the sign.
-/
import Sm83.Proofs.Binary

namespace Sm83

/-! ### One byte -/

namespace Byte

/-- What falls out of a byte on the left. -/
theorem toNat_top (b : Byte) : (b &&& 0x80 != 0).toNat = b.toNat / 128 := by
  have hmask : (0x80 : Byte).toBitVec = BitVec.twoPow 8 7 := rfl
  have hb : b.toNat < 256 := b.toNat_lt
  rw [and_mask_bne_zero b (by decide) hmask, ← BitVec.testBit_toNat, UInt8.toNat_toBitVec,
    Nat.toNat_testBit]
  omega

/-- What falls out of a byte on the right. -/
theorem toNat_bottom (b : Byte) : (b &&& 0x01 != 0).toNat = b.toNat % 2 := by
  have hmask : (0x01 : Byte).toBitVec = BitVec.twoPow 8 0 := rfl
  rw [and_mask_bne_zero b (by decide) hmask, ← BitVec.testBit_toNat, UInt8.toNat_toBitVec,
    Nat.toNat_testBit, Nat.pow_zero, Nat.div_one]

/-- A byte moved to the left, with a bit let in on the right. -/
theorem toNat_shiftLeft_or (b : Byte) (carry : Bool) :
    ((b <<< 1) ||| carry.toUInt8).toNat = 2 * (b.toNat % 128) + carry.toNat := by
  have hplaces : UInt8.toNat 1 % 8 = 1 := rfl
  have hcarry : carry.toUInt8.toNat = carry.toNat := by cases carry <;> rfl
  have hone : carry.toNat < 2 ^ 1 := Nat.lt_succ_of_le carry.toNat_le
  have hshift : b.toNat <<< 1 % 2 ^ 8 = (b.toNat % 128) <<< 1 := by
    rw [Nat.shiftLeft_eq, Nat.shiftLeft_eq]
    omega
  rw [UInt8.toNat_or, UInt8.toNat_shiftLeft, hplaces, hshift, hcarry,
    ← Nat.shiftLeft_add_eq_or_of_lt hone, Nat.shiftLeft_eq]
  omega

/-- A byte moved to the right, with a bit let in on the left. -/
theorem toNat_shiftRight_or (b : Byte) (carry : Bool) :
    ((b >>> 1) ||| (carry.toUInt8 <<< 7)).toNat = b.toNat / 2 + 128 * carry.toNat := by
  have hplaces : UInt8.toNat 1 % 8 = 1 := rfl
  have hb : b.toNat < 256 := b.toNat_lt
  have hhalf : b.toNat >>> 1 < 2 ^ 7 := by
    rw [Nat.shiftRight_eq_div_pow]
    omega
  have hcarry : (carry.toUInt8 <<< 7).toNat = carry.toNat <<< 7 := by cases carry <;> rfl
  rw [UInt8.toNat_or, UInt8.toNat_shiftRight, hplaces, hcarry, Nat.or_comm,
    ← Nat.shiftLeft_add_eq_or_of_lt hhalf, Nat.shiftLeft_eq, Nat.shiftRight_eq_div_pow]
  omega

end Byte

namespace ShiftOp

/-- A rotation to the left adds a byte to itself. -/
theorem value_rl (b : Byte) (flags : Flags) :
    (rl.apply b flags).value.toNat + 256 * (rl.apply b flags).flags.c.toNat =
      b.toNat + b.toNat + flags.c.toNat := by
  have hb : b.toNat < 256 := b.toNat_lt
  have hvalue : (rl.apply b flags).value.toNat = _ := Byte.toNat_shiftLeft_or b flags.c
  have hcarry : (rl.apply b flags).flags.c.toNat = _ := Byte.toNat_top b
  omega

/-- A rotation to the right halves a byte: the byte is what it becomes, added to itself. -/
theorem value_rr (b : Byte) (flags : Flags) :
    b.toNat + 256 * flags.c.toNat =
      (rr.apply b flags).value.toNat + (rr.apply b flags).value.toNat +
        (rr.apply b flags).flags.c.toNat := by
  have hvalue : (rr.apply b flags).value.toNat = _ := Byte.toNat_shiftRight_or b flags.c
  have hcarry : (rr.apply b flags).flags.c.toNat = _ := Byte.toNat_bottom b
  omega

/-- A shift to the left is a rotation that no carry comes to. -/
theorem value_sla (b : Byte) (flags : Flags) :
    (sla.apply b flags).value.toNat + 256 * (sla.apply b flags).flags.c.toNat =
      b.toNat + b.toNat + false.toNat := by
  have hnone : (b <<< 1) ||| Bool.toUInt8 false = b <<< 1 := UInt8.or_zero
  have hrotation : sla.apply b flags = rl.apply b { flags with c := false } := by
    show AluResult.mk (b <<< 1) _ = AluResult.mk ((b <<< 1) ||| Bool.toUInt8 false) _
    rw [hnone]
  rw [hrotation]
  exact value_rl b { flags with c := false }

/-- A logical shift to the right is a rotation that no carry comes to. -/
theorem value_srl (b : Byte) (flags : Flags) :
    b.toNat + 256 * false.toNat =
      (srl.apply b flags).value.toNat + (srl.apply b flags).value.toNat +
        (srl.apply b flags).flags.c.toNat := by
  have hnone : (b >>> 1) ||| (Bool.toUInt8 false <<< 7) = b >>> 1 := UInt8.or_zero
  have hrotation : srl.apply b flags = rr.apply b { flags with c := false } := by
    show AluResult.mk (b >>> 1) _ = AluResult.mk ((b >>> 1) ||| (Bool.toUInt8 false <<< 7)) _
    rw [hnone]
  rw [hrotation]
  exact value_rr b { flags with c := false }

/-- An arithmetic shift to the right is a rotation that the sign comes to. -/
theorem value_sra (b : Byte) (flags : Flags) :
    b.toNat + 256 * (b &&& 0x80 != 0).toNat =
      (sra.apply b flags).value.toNat + (sra.apply b flags).value.toNat +
        (sra.apply b flags).flags.c.toNat := by
  have hmask : (0x80 : Byte).toBitVec = BitVec.twoPow 8 7 := rfl
  have hsign : (b &&& 0x80 != 0).toUInt8 <<< 7 = b &&& 0x80 := by
    rw [Byte.and_mask_bne_zero b (by decide) hmask, ← UInt8.toBitVec_inj, UInt8.toBitVec_and, hmask,
      BitVec.and_twoPow]
    cases b.toBitVec.getLsbD 7 <;> rfl
  have hrotation : sra.apply b flags = rr.apply b { flags with c := b &&& 0x80 != 0 } := by
    show AluResult.mk ((b >>> 1) ||| (b &&& 0x80)) _ =
      AluResult.mk ((b >>> 1) ||| ((b &&& 0x80 != 0).toUInt8 <<< 7)) _
    rw [hsign]
  rw [hrotation]
  exact value_rr b { flags with c := b &&& 0x80 != 0 }

end ShiftOp

/-! ### Numbers -/

/-- The number that some bytes denote in two's complement: the upper half counts as negative. -/
def signedNumber (bytes : List Byte) : Int :=
  if 2 * number bytes < 256 ^ bytes.length then number bytes
  else (number bytes : Int) - (256 ^ bytes.length : Nat)

theorem number_lt (bytes : List Byte) : number bytes < 256 ^ bytes.length := by
  have hlt := Nat.ofDigits_lt_base_pow_length (by decide : 1 < 256) (digit_lt bytes)
  rwa [length_digits] at hlt

/-- Numbers of so many bytes are equal only if all their bytes are. -/
theorem number_inj {xs ys : List Byte} (hlength : xs.length = ys.length)
    (h : number xs = number ys) : xs = ys := by
  have hdigits : xs.map UInt8.toNat = ys.map UInt8.toNat :=
    Nat.ofDigits_inj_of_len_eq (by decide) (by rw [length_digits, length_digits, hlength])
      (digit_lt xs) (digit_lt ys) h
  exact List.map_injective_iff.mpr (fun _ _ => UInt8.toNat_inj.mp) hdigits

/-- The range of numbers of so many bytes is twice as large as the place of the top bit. -/
theorem two_mul_top {n : Nat} (hn : 0 < n) : 2 * 2 ^ (8 * n - 1) = 256 ^ n := by
  have hpow : (256 : Nat) ^ n = 2 ^ (8 * n) := by
    rw [pow_mul]
    norm_num
  rw [hpow, ← pow_succ', Nat.sub_add_cancel (by omega)]

/-- The top bit of a number says whether its double has room. -/
theorem testBit_top {xs : List Byte} (hne : xs ≠ []) :
    (number xs).testBit (8 * xs.length - 1) = true ↔ 256 ^ xs.length ≤ 2 * number xs := by
  have hrange := two_mul_top (List.length_pos_iff.mpr hne)
  have hroom := number_lt xs
  rw [← hrange] at hroom
  rw [Nat.testBit_eq_decide_div_mod_eq, decide_eq_true_iff, ← hrange]
  have hquotient : number xs / 2 ^ (8 * xs.length - 1) < 2 :=
    Nat.div_lt_of_lt_mul (by omega)
  have hone : 1 ≤ number xs / 2 ^ (8 * xs.length - 1) ↔
      1 * 2 ^ (8 * xs.length - 1) ≤ number xs := Nat.le_div_iff_mul_le (by omega)
  generalize number xs / 2 ^ (8 * xs.length - 1) = quotient at hquotient hone ⊢
  omega

/-- The top bit of a number is that of its highest byte. -/
theorem top_of_highest {xs : List Byte} {b : Byte} (hb : b ∈ xs.reverse.head?) :
    (b &&& 0x80 != 0) = (number xs).testBit (8 * xs.length - 1) := by
  obtain ⟨lower, rfl⟩ : ∃ lower, xs = lower ++ [b] := by
    obtain ⟨rest, hrest⟩ := List.head?_eq_some_iff.mp hb
    exact ⟨rest.reverse, by rw [← List.reverse_cons, ← hrest, List.reverse_reverse]⟩
  have hnumber : number (lower ++ [b]) = number lower + 256 ^ lower.length * b.toNat := by
    rw [number, List.map_append, Nat.ofDigits_append, length_digits, List.map_singleton,
      Nat.ofDigits_singleton]
    rfl
  have hlower := number_lt lower
  have htop := Byte.toNat_top b
  have hbyte : b.toNat < 256 := b.toNat_lt
  have hsmall : b.toNat ≤ 127 → 256 ^ lower.length * b.toNat ≤ 256 ^ lower.length * 127 :=
    Nat.mul_le_mul_left _
  have hlarge : 128 ≤ b.toNat → 256 ^ lower.length * 128 ≤ 256 ^ lower.length * b.toNat :=
    Nat.mul_le_mul_left _
  rw [Bool.eq_iff_iff, testBit_top (List.concat_ne_nil b lower), hnumber, List.length_append,
    List.length_singleton, pow_succ]
  cases hc : (b &&& 0x80 != 0) with
  | false =>
      rw [hc, Bool.toNat_false] at htop
      exact iff_of_false Bool.false_ne_true (by omega)
  | true =>
      rw [hc, Bool.toNat_true] at htop
      exact iff_of_true rfl (by omega)

/-! ### Chains of shifts -/

namespace ShiftOp

variable {xs : List Byte} {first : Byte → Flags → AluResult} {flags : Flags} {carry : Bool}

/-- Rotations to the left from the lowest byte up add the number to itself. -/
theorem columns_rl (hne : xs ≠ [])
    (hfirst : ∀ b ∈ xs.head?, (first b flags).value.toNat + 256 * (first b flags).flags.c.toNat =
      b.toNat + b.toNat + carry.toNat) :
    let results := chain first rl.apply flags xs
    Columns 256 carry (xs.map UInt8.toNat) (xs.map UInt8.toNat)
      ((values results).map UInt8.toNat) (flagsAfter flags results).c :=
  Columns.of_sums hne hfirst fun b _ flags => value_rl b flags

/-- Rotations to the right from the highest byte down give a half: added to itself it makes the number. -/
theorem columns_rr (hne : xs ≠ [])
    (hfirst : ∀ b ∈ xs.reverse.head?, b.toNat + 256 * carry.toNat =
      (first b flags).value.toNat + (first b flags).value.toNat +
        (first b flags).flags.c.toNat) :
    let results := chain first rr.apply flags xs.reverse
    Columns 256 (flagsAfter flags results).c ((values results).reverse.map UInt8.toNat)
      ((values results).reverse.map UInt8.toNat) (xs.map UInt8.toNat) carry := by
  intro results
  have hcolumns : Columns 256 (flagsAfter flags results).c
      ((values results).map UInt8.toNat).reverse ((values results).map UInt8.toNat).reverse
      (xs.reverse.map UInt8.toNat).reverse carry :=
    Columns.of_halves (List.reverse_ne_nil_iff.mpr hne) hfirst fun b _ flags => value_rr b flags
  rw [← List.map_reverse, ← List.map_reverse, List.reverse_reverse] at hcolumns
  exact hcolumns

/-- What is left of a number that is doubled, and what falls out of it. -/
theorem doubled (hne : xs ≠ [])
    (hfirst : ∀ b ∈ xs.head?, (first b flags).value.toNat + 256 * (first b flags).flags.c.toNat =
      b.toNat + b.toNat + carry.toNat) :
    let results := chain first rl.apply flags xs
    number (values results) = (2 * number xs + carry.toNat) % 256 ^ xs.length ∧
      (flagsAfter flags results).c = (number xs).testBit (8 * xs.length - 1) := by
  intro results
  have hcolumns := columns_rl hne hfirst
  have hvalue : number (values results) = (number xs + number xs + carry.toNat) % 256 ^ _ :=
    hcolumns.ofDigits_sum (by decide) (digit_lt _)
  have hcarry : (flagsAfter flags results).c = true ↔
      256 ^ _ ≤ number xs + number xs + carry.toNat :=
    hcolumns.carryOut_iff (by decide) (digit_lt _)
  rw [length_digits, ← two_mul] at hvalue hcarry
  refine ⟨hvalue, ?_⟩
  rw [Bool.eq_iff_iff, hcarry, testBit_top hne]
  have hrange := two_mul_top (List.length_pos_iff.mpr hne)
  have hone := carry.toNat_le
  omega

/-- A number that is halved is the double of what is left of it, with what falls out. -/
theorem halved (hne : xs ≠ [])
    (hfirst : ∀ b ∈ xs.reverse.head?, b.toNat + 256 * carry.toNat =
      (first b flags).value.toNat + (first b flags).value.toNat +
        (first b flags).flags.c.toNat) :
    let results := chain first rr.apply flags xs.reverse
    number xs + 256 ^ xs.length * carry.toNat =
      2 * number (values results).reverse + (flagsAfter flags results).c.toNat := by
  intro results
  have htotal := (columns_rr hne hfirst).total
  rw [length_digits, ← two_mul] at htotal
  exact htotal

/-- A shift to the right that lets nothing in halves a number. -/
theorem halved_srl (hne : xs ≠ []) (flags : Flags) :
    let results := chain srl.apply rr.apply flags xs.reverse
    number (values results).reverse = number xs / 2 ∧
      (flagsAfter flags results).c.toNat = number xs % 2 := by
  intro results
  have hhalved : number xs + 256 ^ xs.length * 0 =
      2 * number (values results).reverse + (flagsAfter flags results).c.toNat :=
    halved hne fun b _ => value_srl b flags
  have hcarry := (flagsAfter flags results).c.toNat_le
  exact ⟨by omega, by omega⟩

theorem length_reverse_values (results : List AluResult) :
    (values results).reverse.length = results.length := by
  rw [List.length_reverse, length_values]

/-- A shift to the right that lets the sign in halves a number in two's complement. -/
theorem halved_sra (hne : xs ≠ []) (flags : Flags) :
    let results := chain sra.apply rr.apply flags xs.reverse
    signedNumber (values results).reverse = signedNumber xs / 2 ∧
      (flagsAfter flags results).c.toNat = number xs % 2 := by
  intro results
  have hlength : (values results).reverse.length = xs.length := by
    rw [length_reverse_values, length_chain, List.length_reverse]
  have hhalved : number xs + 256 ^ xs.length * ((number xs).testBit (8 * xs.length - 1)).toNat =
      2 * number (values results).reverse + (flagsAfter flags results).c.toNat :=
    halved hne fun b hb => top_of_highest hb ▸ value_sra b flags
  have hcarry := (flagsAfter flags results).c.toNat_le
  have hrange := two_mul_top (List.length_pos_iff.mpr hne)
  have htop := testBit_top hne
  unfold signedNumber
  rw [hlength]
  cases hsign : (number xs).testBit (8 * xs.length - 1) with
  | false =>
      rw [hsign, Bool.toNat_false, Nat.mul_zero] at hhalved
      have hplus : ¬ 256 ^ xs.length ≤ 2 * number xs := by
        rw [← htop, hsign]
        exact Bool.false_ne_true
      rw [if_pos (by omega), if_pos (by omega)]
      exact ⟨by omega, by omega⟩
  | true =>
      rw [hsign, Bool.toNat_true, Nat.mul_one] at hhalved
      have hminus : 256 ^ xs.length ≤ 2 * number xs := htop.mp hsign
      rw [if_neg (by omega), if_neg (by omega)]
      exact ⟨by omega, by omega⟩

/-- A rotation to the right of all bytes undoes one to the left, and gives the carry back. -/
theorem rotated_back (hne : xs ≠ []) (flags : Flags) :
    let rotated := chain rl.apply rl.apply flags xs
    let back := chain rr.apply rr.apply (flagsAfter flags rotated) (values rotated).reverse
    (values back).reverse = xs ∧ (flagsAfter (flagsAfter flags rotated) back).c = flags.c := by
  intro rotated back
  have hlength : (values rotated).length = xs.length := by rw [length_values, length_chain]
  have hlengthBack : (values back).reverse.length = xs.length := by
    rw [length_reverse_values, length_chain, List.length_reverse, hlength]
  have hrotated : values rotated ≠ [] := by
    rw [← List.length_pos_iff, hlength]
    exact List.length_pos_iff.mpr hne
  have hleft : number (values rotated) + 256 ^ _ * (flagsAfter flags rotated).c.toNat =
      number xs + number xs + flags.c.toNat :=
    (columns_rl hne fun b _ => value_rl b flags).total
  have hright : number (values rotated) + 256 ^ _ * (flagsAfter flags rotated).c.toNat =
      2 * number (values back).reverse + (flagsAfter (flagsAfter flags rotated) back).c.toNat :=
    halved hrotated fun b _ => value_rr b (flagsAfter flags rotated)
  rw [length_digits] at hleft
  -- What was doubled and what is halved are the same number, and the carries are its lowest bit.
  have hdouble := hleft.symm.trans hright
  have hcarry := flags.c.toNat_le
  have hcarryBack := (flagsAfter (flagsAfter flags rotated) back).c.toNat_le
  have hsame : (flagsAfter (flagsAfter flags rotated) back).c.toNat = flags.c.toNat := by omega
  refine ⟨number_inj hlengthBack (by omega), ?_⟩
  rw [← Bool.ofNat_toNat flags.c, ← hsame, Bool.ofNat_toNat]

/--
**Shifts of any width.**  From the lowest byte up, a shift to the left that is followed by rotations
doubles a number, and rotations alone let a carry in on the right; what falls out is the top bit.
From the highest byte down, a shift to the right that is followed by rotations halves a number, or a
number in two's complement if the shift is arithmetic, rounding down; what falls out is the lowest
bit.  A rotation of all bytes to the left and then to the right gives back all bytes and the carry.
-/
theorem shift_chains (hne : xs ≠ []) (flags : Flags) :
    let top := (number xs).testBit (8 * xs.length - 1)
    let shiftedLeft := chain sla.apply rl.apply flags xs
    let rotatedLeft := chain rl.apply rl.apply flags xs
    let shiftedRight := chain srl.apply rr.apply flags xs.reverse
    let signedRight := chain sra.apply rr.apply flags xs.reverse
    let back := chain rr.apply rr.apply (flagsAfter flags rotatedLeft) (values rotatedLeft).reverse
    (shiftedLeft.length = xs.length ∧
      number (values shiftedLeft) = 2 * number xs % 256 ^ xs.length ∧
      (flagsAfter flags shiftedLeft).c = top) ∧
    (rotatedLeft.length = xs.length ∧
      number (values rotatedLeft) = (2 * number xs + flags.c.toNat) % 256 ^ xs.length ∧
      (flagsAfter flags rotatedLeft).c = top) ∧
    (shiftedRight.length = xs.length ∧
      number (values shiftedRight).reverse = number xs / 2 ∧
      (flagsAfter flags shiftedRight).c.toNat = number xs % 2) ∧
    (signedRight.length = xs.length ∧
      signedNumber (values signedRight).reverse = signedNumber xs / 2 ∧
      (flagsAfter flags signedRight).c.toNat = number xs % 2) ∧
    (values back).reverse = xs ∧ (flagsAfter (flagsAfter flags rotatedLeft) back).c = flags.c := by
  intro top shiftedLeft rotatedLeft shiftedRight signedRight back
  have hdown : ∀ first : Byte → Flags → AluResult,
      (chain first rr.apply flags xs.reverse).length = xs.length := by
    intro first
    rw [length_chain, List.length_reverse]
  have hshifted := doubled hne fun b _ => value_sla b flags
  have hrotated := doubled hne fun b _ => value_rl b flags
  exact ⟨⟨length_chain flags xs, hshifted⟩, ⟨length_chain flags xs, hrotated⟩,
    ⟨hdown srl.apply, halved_srl hne flags⟩, ⟨hdown sra.apply, halved_sra hne flags⟩,
    rotated_back hne flags⟩

/-- All shifts of `FF81`, which is -127 in two's complement, with a carry let in. -/
theorem shift_chains_negative :
    let xs : List Byte := [0x81, 0xFF]
    let flags : Flags := ⟨false, false, false, true⟩
    let rotatedLeft := chain rl.apply rl.apply flags xs
    let signedRight := chain sra.apply rr.apply flags xs.reverse
    let back := chain rr.apply rr.apply (flagsAfter flags rotatedLeft) (values rotatedLeft).reverse
    xs ≠ [] ∧ number (values (chain sla.apply rl.apply flags xs)) = 0xFF02 ∧
      number (values rotatedLeft) = 0xFF03 ∧ (flagsAfter flags rotatedLeft).c = true ∧
      number (values (chain srl.apply rr.apply flags xs.reverse)).reverse = 0x7FC0 ∧
      signedNumber (values signedRight).reverse = -64 ∧ (flagsAfter flags signedRight).c = true ∧
      (values back).reverse = xs ∧ (flagsAfter (flagsAfter flags rotatedLeft) back).c = true := by
  intro xs flags rotatedLeft signedRight back
  have hne : xs ≠ [] := List.cons_ne_nil _ _
  have hnumber : number xs = 0xFF81 := rfl
  have hlength : xs.length = 2 := rfl
  have hsigned : signedNumber xs = -127 := by
    rw [signedNumber, hnumber, hlength]
    norm_num
  obtain ⟨⟨-, hsla, -⟩, ⟨-, hrl, hrlCarry⟩, ⟨-, hsrl, -⟩, ⟨-, hsra, hsraCarry⟩, hback⟩ :=
    shift_chains hne flags
  refine ⟨hne, ?_, ?_, ?_, ?_, ?_, ?_, hback⟩
  · rw [hsla, hnumber, hlength]
    norm_num
  · rw [hrl, hnumber, hlength, show flags.c.toNat = 1 from rfl]
    norm_num
  · rw [hrlCarry, hnumber, hlength]
    decide
  · rw [hsrl, hnumber]
  · rw [hsra, hsigned]
    rfl
  · rw [← Bool.toNat_eq_one, hsraCarry, hnumber]

end ShiftOp

end Sm83
