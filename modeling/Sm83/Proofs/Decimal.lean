/-
Decimal arithmetic of any width.

Two decimal digits are packed into a byte.  The sum of two such bytes is the binary sum, which goes
wrong by six wherever a decimal digit overflows and the nibble that holds it does not, and the
adjustment puts that right: from the flags and the byte alone it tells which digits overflowed.  An
addition with an adjustment after it therefore adds a column of base one hundred, and leaves the carry
of that column where the next addition takes it from.
-/
import Sm83.Proofs.Binary

namespace Sm83

/-- Both halves of the byte are decimal digits. -/
structure IsPacked (b : Byte) : Prop where
  tens : b.toNat / 16 ≤ 9
  ones : b.toNat % 16 ≤ 9

instance (b : Byte) : Decidable (IsPacked b) :=
  decidable_of_iff (b.toNat / 16 ≤ 9 ∧ b.toNat % 16 ≤ 9)
    ⟨fun h => ⟨h.1, h.2⟩, fun h => ⟨h.tens, h.ones⟩⟩

/-- The number that two packed decimal digits denote. -/
def packed (b : Byte) : Nat := 10 * (b.toNat / 16) + b.toNat % 16

/-- The number that some packed bytes denote, the least significant first. -/
def decimal (bytes : List Byte) : Nat := Nat.ofDigits 100 (bytes.map packed)

/-- The operation at a place with a decimal adjustment after it. -/
def AluOp.adjusted (op : AluOp) (place : Byte × Byte) (flags : Flags) : AluResult :=
  let r := op.atPlace place flags
  Alu.daa r.value r.flags

/-- The adjustment leaves no half carry. -/
theorem AluOp.halfCarry_adjusted (op : AluOp) (place : Byte × Byte) (flags : Flags) :
    (op.adjusted place flags).flags.h = false := rfl

theorem IsPacked.packed_lt {b : Byte} (h : IsPacked b) : packed b < 100 := by
  have htens := h.tens
  have hones := h.ones
  unfold packed
  omega

namespace Alu

/-! ### What the adjustment does -/

theorem toNat_lowNibble (a : Byte) : (a &&& 0x0F).toNat = a.toNat % 16 := by
  rw [UInt8.toNat_and]
  exact Nat.and_two_pow_sub_one_eq_mod a.toNat 4

/--
After an addition the adjustment adds six to each digit that overflowed.

A digit overflowed if it carried or is no decimal digit; `low` and `high` say which of the two did.
-/
theorem daa_of_sum (a : Byte) {flags : Flags} {low high : Bool} (hn : flags.n = false)
    (hlow : low = true ↔ flags.h = true ∨ 9 < a.toNat % 16)
    (hhigh : high = true ↔ flags.c = true ∨ 0x99 < a.toNat) :
    (daa a flags).flags.c = high ∧
      (daa a flags).value.toNat = (a.toNat + 6 * low.toNat + 96 * high.toNat) % 256 := by
  have hlowDigit : (flags.h || (!flags.n && a &&& 0x0F > 0x09)) = low := by
    rw [Bool.eq_iff_iff, hlow, hn, Bool.not_false, Bool.true_and, Bool.or_eq_true,
      decide_eq_true_iff, gt_iff_lt, UInt8.lt_iff_toNat_lt, toNat_lowNibble]
    rfl
  have hhighDigit : (flags.c || (!flags.n && a > 0x99)) = high := by
    rw [Bool.eq_iff_iff, hhigh, hn, Bool.not_false, Bool.true_and, Bool.or_eq_true,
      decide_eq_true_iff, gt_iff_lt, UInt8.lt_iff_toNat_lt]
    rfl
  unfold daa
  rw [hlowDigit, hhighDigit, hn]
  refine ⟨rfl, ?_⟩
  cases low <;> cases high <;> exact UInt8.toNat_add a _

/-- After a subtraction the adjustment takes six from each digit that borrowed. -/
theorem daa_of_difference (a : Byte) {flags : Flags} (hn : flags.n = true) :
    (daa a flags).flags.c = flags.c ∧
      (daa a flags).value.toNat =
        (256 - (6 * flags.h.toNat + 96 * flags.c.toNat) + a.toNat) % 256 := by
  have hlowDigit : (flags.h || (!flags.n && a &&& 0x0F > 0x09)) = flags.h := by
    rw [hn, Bool.not_true, Bool.false_and, Bool.or_false]
  have hhighDigit : (flags.c || (!flags.n && a > 0x99)) = flags.c := by
    rw [hn, Bool.not_true, Bool.false_and, Bool.or_false]
  unfold daa
  rw [hlowDigit, hhighDigit, hn]
  refine ⟨rfl, ?_⟩
  cases flags.h <;> cases flags.c <;> exact UInt8.toNat_sub a _

/-! ### One column -/

variable {x y : Byte} {r : AluResult}

/-- The adjusted sum of two packed bytes is packed, and it is their sum in base one hundred. -/
theorem daa_of_adds {carry : Bool} (hx : IsPacked x) (hy : IsPacked y) (h : Adds x y carry r) :
    let adjusted := daa r.value r.flags
    IsPacked adjusted.value ∧
      packed adjusted.value + 100 * adjusted.flags.c.toNat =
        packed x + packed y + carry.toNat := by
  intro adjusted
  have hxtens := hx.tens
  have hxones := hx.ones
  have hytens := hy.tens
  have hyones := hy.ones
  have hvalue := h.value
  have hhalf := h.halfCarry
  have hcarry := carry.toNat_le
  have hbyte : r.value.toNat < 256 := r.value.toNat_lt
  -- The digits that overflowed, told from the operands and from what is left of them.
  have hlow : decide (10 ≤ x.toNat % 16 + y.toNat % 16 + carry.toNat) = true ↔
      r.flags.h = true ∨ 9 < r.value.toNat % 16 := by
    rw [decide_eq_true_iff, hhalf]
    omega
  have hhigh : decide (100 ≤ packed x + packed y + carry.toNat) = true ↔
      r.flags.c = true ∨ 0x99 < r.value.toNat := by
    rw [decide_eq_true_iff, packed, packed]
    cases hc : r.flags.c with
    | false =>
        rw [hc, Bool.toNat_false] at hvalue
        rw [or_iff_right Bool.false_ne_true]
        omega
    | true =>
        rw [hc, Bool.toNat_true] at hvalue
        exact iff_of_true (by omega) (.inl rfl)
  obtain ⟨hadjustedCarry, hadjusted⟩ : adjusted.flags.c = _ ∧ adjusted.value.toNat = _ :=
    daa_of_sum r.value h.subtract hlow hhigh
  have hbinary := r.flags.c.toNat_le
  rw [hadjustedCarry]
  by_cases hones : 10 ≤ x.toNat % 16 + y.toNat % 16 + carry.toNat <;>
    by_cases hsum : 100 ≤ packed x + packed y + carry.toNat
  all_goals
    simp only [hones, hsum, decide_true, decide_false, Bool.toNat_true, Bool.toNat_false]
      at hadjusted ⊢
    unfold packed at hsum ⊢
    exact ⟨⟨by omega, by omega⟩, by omega⟩

/-- The adjusted difference of two packed bytes is packed, and what it borrows is worth a hundred. -/
theorem daa_of_subtracts {borrow : Bool} (hx : IsPacked x) (hy : IsPacked y)
    (h : Subtracts x y borrow r) :
    let adjusted := daa r.value r.flags
    IsPacked adjusted.value ∧
      packed x + 100 * adjusted.flags.c.toNat =
        packed adjusted.value + packed y + borrow.toNat := by
  intro adjusted
  have hxtens := hx.tens
  have hxones := hx.ones
  have hytens := hy.tens
  have hyones := hy.ones
  have hvalue := h.value
  have hhalf := h.halfCarry
  have hborrow := borrow.toNat_le
  have hbyte : r.value.toNat < 256 := r.value.toNat_lt
  obtain ⟨hadjustedCarry, hadjusted⟩ : adjusted.flags.c = _ ∧ adjusted.value.toNat = _ :=
    daa_of_difference r.value h.subtract
  rw [hadjustedCarry]
  -- A digit borrowed exactly if its flag says so.
  cases hc : r.flags.c <;> cases hh : r.flags.h
  all_goals
    simp only [hc, hh, Bool.toNat_true, Bool.toNat_false, true_iff, Bool.false_eq_true, false_iff]
      at hadjusted hvalue hhalf ⊢
    unfold packed
    exact ⟨⟨by omega, by omega⟩, by omega⟩

/-! ### All columns -/

section Chains

variable {xs ys : List Byte} (hxs : ∀ b ∈ xs, IsPacked b) (hys : ∀ b ∈ ys, IsPacked b)
  {first next : Byte × Byte → Flags → AluResult}

theorem packed_lt_hundred {bytes : List Byte} (h : ∀ b ∈ bytes, IsPacked b) :
    ∀ d ∈ bytes.map packed, d < 100 := by
  intro d hd
  obtain ⟨b, hb, rfl⟩ := List.mem_map.mp hd
  exact (h b hb).packed_lt

include hxs hys

/-- Operations that make packed bytes of packed bytes do so at every place. -/
theorem packed_values
    (hfirst : ∀ x y, IsPacked x → IsPacked y → ∀ flags, IsPacked (first (x, y) flags).value)
    (hnext : ∀ x y, IsPacked x → IsPacked y → ∀ flags, IsPacked (next (x, y) flags).value)
    (flags : Flags) : ∀ b ∈ values (chain first next flags (xs.zip ys)), IsPacked b := by
  intro b hb
  obtain ⟨r, hr, rfl⟩ := List.mem_map.mp hb
  refine chain_forall (P := fun r => IsPacked r.value) ?_ ?_ flags r hr
  · intro place hplace
    exact hfirst _ _ (hxs _ (List.of_mem_zip hplace).1) (hys _ (List.of_mem_zip hplace).2)
  · intro place hplace
    exact hnext _ _ (hxs _ (List.of_mem_zip hplace).1) (hys _ (List.of_mem_zip hplace).2)

variable (hlength : xs.length = ys.length) (hne : xs ≠ []) (flags : Flags)

include hlength hne

theorem columns_decimalSum :
    let sum := chain AluOp.add.adjusted AluOp.adc.adjusted flags (xs.zip ys)
    Columns 100 false (xs.map packed) (ys.map packed) ((values sum).map packed)
      (flagsAfter flags sum).c := by
  rw [← map_zip_left hlength, ← map_zip_right hlength]
  refine Columns.of_sums (zip_ne_nil hlength hne) ?_ ?_
  · intro place hplace
    obtain ⟨hx, hy⟩ := List.of_mem_zip (List.mem_of_mem_head? hplace)
    exact (daa_of_adds (hxs _ hx) (hys _ hy) (adds_add place.1 place.2 false)).2
  · intro place hplace flags
    obtain ⟨hx, hy⟩ := List.of_mem_zip hplace
    exact (daa_of_adds (hxs _ hx) (hys _ hy) (adds_add place.1 place.2 flags.c)).2

theorem columns_decimalDifference :
    let difference := chain AluOp.sub.adjusted AluOp.sbc.adjusted flags (xs.zip ys)
    Columns 100 false ((values difference).map packed) (ys.map packed) (xs.map packed)
      (flagsAfter flags difference).c := by
  rw [← map_zip_left hlength, ← map_zip_right hlength]
  refine Columns.of_differences (zip_ne_nil hlength hne) ?_ ?_
  · intro place hplace
    obtain ⟨hx, hy⟩ := List.of_mem_zip (List.mem_of_mem_head? hplace)
    exact (daa_of_subtracts (hxs _ hx) (hys _ hy) (subtracts_sub place.1 place.2 false)).2
  · intro place hplace flags
    obtain ⟨hx, hy⟩ := List.of_mem_zip hplace
    exact (daa_of_subtracts (hxs _ hx) (hys _ hy) (subtracts_sub place.1 place.2 flags.c)).2

end Chains

/--
**Decimal arithmetic of any width.**  Two packed numbers are added place by place, each addition with
an adjustment after it that hands its carry on, and carry is left if there is no room for the sum.  In
the same way they are subtracted, and carry is left if more is taken away than there is.  All bytes
are packed again, and no adjustment leaves half carry.
-/
theorem decimal_chains {xs ys : List Byte} (hxs : ∀ b ∈ xs, IsPacked b)
    (hys : ∀ b ∈ ys, IsPacked b) (hlength : xs.length = ys.length) (hne : xs ≠ [])
    (flags : Flags) :
    let sum := chain AluOp.add.adjusted AluOp.adc.adjusted flags (xs.zip ys)
    let difference := chain AluOp.sub.adjusted AluOp.sbc.adjusted flags (xs.zip ys)
    (sum.length = xs.length ∧ (∀ b ∈ values sum, IsPacked b) ∧
      decimal (values sum) = (decimal xs + decimal ys) % 100 ^ xs.length ∧
      ((flagsAfter flags sum).c = true ↔ 100 ^ xs.length ≤ decimal xs + decimal ys) ∧
      ∀ r ∈ sum, r.flags.h = false) ∧
    difference.length = xs.length ∧ (∀ b ∈ values difference, IsPacked b) ∧
      (decimal (values difference) : Int) =
        ((decimal xs : Int) - (decimal ys : Int)) % 100 ^ xs.length ∧
      ((flagsAfter flags difference).c = true ↔ decimal xs < decimal ys) ∧
      ∀ r ∈ difference, r.flags.h = false := by
  intro sum difference
  have hsum := columns_decimalSum hxs hys hlength hne flags
  have hdifference := columns_decimalDifference hxs hys hlength hne flags
  have hsumPacked : ∀ b ∈ values sum, IsPacked b :=
    packed_values hxs hys
      (fun x y hx hy _ => (daa_of_adds hx hy (adds_add x y false)).1)
      (fun x y hx hy flags => (daa_of_adds hx hy (adds_add x y flags.c)).1) flags
  have hdifferencePacked : ∀ b ∈ values difference, IsPacked b :=
    packed_values hxs hys
      (fun x y hx hy _ => (daa_of_subtracts hx hy (subtracts_sub x y false)).1)
      (fun x y hx hy flags => (daa_of_subtracts hx hy (subtracts_sub x y flags.c)).1) flags
  have hvalue := hsum.ofDigits_sum (by decide) (packed_lt_hundred hsumPacked)
  have hcarry := hsum.carryOut_iff (by decide) (packed_lt_hundred hsumPacked)
  have hrest := hdifference.ofDigits_difference (by decide) (packed_lt_hundred hdifferencePacked)
  have hborrow := hdifference.borrow_iff (by decide) (packed_lt_hundred hdifferencePacked)
  rw [List.length_map] at hvalue hcarry hrest
  rw [Nat.cast_pow] at hrest
  have hhalf : ∀ op next : AluOp, ∀ r ∈ chain op.adjusted next.adjusted flags (xs.zip ys),
      r.flags.h = false := by
    intro op next
    exact chain_forall (P := fun r => r.flags.h = false)
      (fun place _ => op.halfCarry_adjusted place)
      (fun place _ => next.halfCarry_adjusted place) flags
  exact ⟨⟨length_chain_zip hlength _ _ flags, hsumPacked, hvalue, hcarry, hhalf .add .adc⟩,
    length_chain_zip hlength _ _ flags, hdifferencePacked, hrest, hborrow, hhalf .sub .sbc⟩

/-- 0999 and 9001 make 10000, and 0999 less 9001 borrows. -/
theorem decimal_chains_carried :
    let xs : List Byte := [0x99, 0x09]
    let ys : List Byte := [0x01, 0x90]
    let flags : Flags := ⟨true, true, true, true⟩
    let sum := chain AluOp.add.adjusted AluOp.adc.adjusted flags (xs.zip ys)
    let difference := chain AluOp.sub.adjusted AluOp.sbc.adjusted flags (xs.zip ys)
    ((∀ b ∈ xs, IsPacked b) ∧ (∀ b ∈ ys, IsPacked b) ∧ xs.length = ys.length ∧ xs ≠ []) ∧
      decimal (values sum) = 0 ∧ (flagsAfter flags sum).c = true ∧
      (decimal (values difference) : Int) = 1998 ∧ (flagsAfter flags difference).c = true := by
  intro xs ys flags sum difference
  have hxs : ∀ b ∈ xs, IsPacked b :=
    List.forall_mem_cons.mpr ⟨by decide, List.forall_mem_singleton.mpr (by decide)⟩
  have hys : ∀ b ∈ ys, IsPacked b :=
    List.forall_mem_cons.mpr ⟨by decide, List.forall_mem_singleton.mpr (by decide)⟩
  have hne : xs ≠ [] := List.cons_ne_nil _ _
  have hx : decimal xs = 999 := rfl
  have hy : decimal ys = 9001 := rfl
  have hn : xs.length = 2 := rfl
  obtain ⟨⟨-, -, hsum, hcarry, -⟩, -, -, hdifference, hborrow, -⟩ :=
    decimal_chains hxs hys rfl hne flags
  refine ⟨⟨hxs, hys, rfl, hne⟩, ?_, ?_, ?_, ?_⟩
  · rw [hsum, hx, hy, hn]
    norm_num
  · rw [hcarry, hx, hy, hn]
    decide
  · rw [hdifference, hx, hy, hn]
    norm_num
  · rw [hborrow, hx, hy]
    decide

end Alu

end Sm83
