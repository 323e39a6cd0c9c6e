/-
Binary arithmetic of any width.

An addition that is followed by additions with carry adds numbers of any length, because each of them
adds its column; the same goes for a subtraction that is followed by subtractions with borrow.
-/
import Sm83.Proofs.Carry
import Sm83.Proofs.Columns

namespace Sm83

/-- The number that some bytes denote, the least significant first. -/
def number (bytes : List Byte) : Nat := Nat.ofDigits 256 (bytes.map UInt8.toNat)

/-- The operation on the two bytes that stand at one place of two numbers. -/
def AluOp.atPlace (op : AluOp) (place : Byte × Byte) (flags : Flags) : AluResult :=
  op.apply place.1 place.2 flags

theorem digit_lt (bytes : List Byte) : ∀ d ∈ bytes.map UInt8.toNat, d < 256 := by
  intro d hd
  obtain ⟨b, -, rfl⟩ := List.mem_map.mp hd
  exact b.toNat_lt

theorem length_digits (bytes : List Byte) : (bytes.map UInt8.toNat).length = bytes.length :=
  List.length_map _

namespace Alu

section Chains

variable {xs ys : List Byte} (hlength : xs.length = ys.length) (hne : xs ≠ []) (flags : Flags)

include hlength hne

theorem columns_sum :
    let sum := chain AluOp.add.atPlace AluOp.adc.atPlace flags (xs.zip ys)
    Columns 256 false (xs.map UInt8.toNat) (ys.map UInt8.toNat) ((values sum).map UInt8.toNat)
      (flagsAfter flags sum).c := by
  rw [← map_zip_left hlength, ← map_zip_right hlength]
  exact Columns.of_sums (zip_ne_nil hlength hne) (fun place _ => value_add place.1 place.2 false)
    (fun place _ flags => value_add place.1 place.2 flags.c)

theorem columns_difference :
    let difference := chain AluOp.sub.atPlace AluOp.sbc.atPlace flags (xs.zip ys)
    Columns 256 false ((values difference).map UInt8.toNat) (ys.map UInt8.toNat)
      (xs.map UInt8.toNat) (flagsAfter flags difference).c := by
  rw [← map_zip_left hlength, ← map_zip_right hlength]
  exact Columns.of_differences (zip_ne_nil hlength hne)
    (fun place _ => (value_sub place.1 place.2 false).symm)
    (fun place _ flags => (value_sub place.1 place.2 flags.c).symm)

end Chains

section Places

variable {xs ys : List Byte} {flags : Flags} {i : Nat} {x y : Byte} {carry : Bool} {r : AluResult}
  (hx : xs[i]? = some x) (hy : ys[i]? = some y)

include hx hy

/-- At each place of a sum two bytes are added and the carry that comes to the place. -/
theorem adds_at
    (hcarry : (carriesInto false
      (chain AluOp.add.atPlace AluOp.adc.atPlace flags (xs.zip ys)))[i]? = some carry)
    (hr : (chain AluOp.add.atPlace AluOp.adc.atPlace flags (xs.zip ys))[i]? = some r) :
    Adds x y carry r := by
  have hfirst : ∀ place, Adds place.1 place.2 false (AluOp.add.atPlace place flags) :=
    fun place => adds_add place.1 place.2 false
  have hnext : ∀ place flags, Adds place.1 place.2 flags.c (AluOp.adc.atPlace place flags) :=
    fun place flags => adds_add place.1 place.2 flags.c
  have hplace : (xs.zip ys)[i]? = some (x, y) := List.getElem?_zip_eq_some.mpr ⟨hx, hy⟩
  exact chain_at hfirst hnext hplace hcarry hr

/-- At each place of a difference one byte is taken away and the borrow that comes to the place. -/
theorem subtracts_at
    (hcarry : (carriesInto false
      (chain AluOp.sub.atPlace AluOp.sbc.atPlace flags (xs.zip ys)))[i]? = some carry)
    (hr : (chain AluOp.sub.atPlace AluOp.sbc.atPlace flags (xs.zip ys))[i]? = some r) :
    Subtracts x y carry r := by
  have hfirst : ∀ place, Subtracts place.1 place.2 false (AluOp.sub.atPlace place flags) :=
    fun place => subtracts_sub place.1 place.2 false
  have hnext : ∀ place flags, Subtracts place.1 place.2 flags.c (AluOp.sbc.atPlace place flags) :=
    fun place flags => subtracts_sub place.1 place.2 flags.c
  have hplace : (xs.zip ys)[i]? = some (x, y) := List.getElem?_zip_eq_some.mpr ⟨hx, hy⟩
  exact chain_at hfirst hnext hplace hcarry hr

end Places

/--
**Binary arithmetic of any width.**  Two numbers of so many bytes are added by an addition of their
lowest bytes and additions with carry of the others, and carry is left if there is no room for the
sum.  In the same way they are subtracted, and carry is left if more is taken away than there is.

At each place the flags are those of the sum, or the difference, of the two bytes there and of the
carry that comes to the place: none to the first, and to the others the one from the place before.
-/
theorem binary_chains {xs ys : List Byte} (hlength : xs.length = ys.length) (hne : xs ≠ [])
    (flags : Flags) :
    let sum := chain AluOp.add.atPlace AluOp.adc.atPlace flags (xs.zip ys)
    let difference := chain AluOp.sub.atPlace AluOp.sbc.atPlace flags (xs.zip ys)
    (sum.length = xs.length ∧
      number (values sum) = (number xs + number ys) % 256 ^ xs.length ∧
      ((flagsAfter flags sum).c = true ↔ 256 ^ xs.length ≤ number xs + number ys) ∧
      ∀ (i : Nat) (x y : Byte) (carry : Bool) (r : AluResult), xs[i]? = some x → ys[i]? = some y →
        (carriesInto false sum)[i]? = some carry → sum[i]? = some r → Adds x y carry r) ∧
    difference.length = xs.length ∧
      (number (values difference) : Int) =
        ((number xs : Int) - (number ys : Int)) % 256 ^ xs.length ∧
      ((flagsAfter flags difference).c = true ↔ number xs < number ys) ∧
      ∀ (i : Nat) (x y : Byte) (borrow : Bool) (r : AluResult), xs[i]? = some x → ys[i]? = some y →
        (carriesInto false difference)[i]? = some borrow → difference[i]? = some r →
        Subtracts x y borrow r := by
  intro sum difference
  have hsum := columns_sum hlength hne flags
  have hdifference := columns_difference hlength hne flags
  have hvalue := hsum.ofDigits_sum (by decide) (digit_lt _)
  have hcarry := hsum.carryOut_iff (by decide) (digit_lt _)
  have hrest := hdifference.ofDigits_difference (by decide) (digit_lt _)
  have hborrow := hdifference.borrow_iff (by decide) (digit_lt _)
  rw [length_digits] at hvalue hcarry hrest
  rw [Nat.cast_pow] at hrest
  exact ⟨⟨length_chain_zip hlength _ _ flags, hvalue, hcarry, fun _ _ _ _ _ => adds_at⟩,
    length_chain_zip hlength _ _ flags, hrest, hborrow, fun _ _ _ _ _ => subtracts_at⟩

/-- `FF01` and `FFFF` make `1FF00`, and `FF01` less `FFFF` borrows; each carry goes through `FF`. -/
theorem binary_chains_carried :
    let xs : List Byte := [0x01, 0xFF]
    let ys : List Byte := [0xFF, 0xFF]
    let flags : Flags := ⟨true, true, true, true⟩
    let sum := chain AluOp.add.atPlace AluOp.adc.atPlace flags (xs.zip ys)
    let difference := chain AluOp.sub.atPlace AluOp.sbc.atPlace flags (xs.zip ys)
    (xs.length = ys.length ∧ xs ≠ []) ∧
      number (values sum) = 0xFF00 ∧ (flagsAfter flags sum).c = true ∧
      Adds 0xFF 0xFF true ⟨0xFF, ⟨false, false, true, true⟩⟩ ∧
      (number (values difference) : Int) = 0xFF02 ∧ (flagsAfter flags difference).c = true ∧
      Subtracts 0xFF 0xFF true ⟨0xFF, ⟨false, true, true, true⟩⟩ := by
  intro xs ys flags sum difference
  have hne : xs ≠ [] := List.cons_ne_nil _ _
  have hx : number xs = 0xFF01 := rfl
  have hy : number ys = 0xFFFF := rfl
  have hn : xs.length = 2 := rfl
  obtain ⟨⟨-, hsum, hcarry, hadds⟩, -, hdifference, hborrow, hsubtracts⟩ :=
    @binary_chains xs ys rfl hne flags
  refine ⟨⟨rfl, hne⟩, ?_, ?_, ?_, ?_, ?_, ?_⟩
  · rw [hsum, hx, hy, hn]
    norm_num
  · rw [hcarry, hx, hy, hn]
    decide
  · exact hadds 1 0xFF 0xFF true _ rfl rfl rfl (by decide)
  · rw [hdifference, hx, hy, hn]
    norm_num
  · rw [hborrow, hx, hy]
    decide
  · exact hsubtracts 1 0xFF 0xFF true _ rfl rfl rfl (by decide)

end Alu

end Sm83
