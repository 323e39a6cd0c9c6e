/-
Numbers of many bytes.

A number that does not fit a byte is worked on byte by byte, and the carry flag is all that ties the
bytes together.  On paper this is how numbers are added: column by column, each column adding up, with
the carry it takes in, to a digit and to the carry it hands on.  If every column is right then so is
the sum, whatever the base.

Everything else that is done to long numbers is such a sum, read in another way.  A difference is what
has to be added to get back to what was subtracted from.  Doubling is adding a number to itself.
Halving is doubling read backwards, and then the columns are worked through from the top.
-/
import Mathlib.Data.Nat.Digits.Lemmas
import Mathlib.Tactic.Ring
import Sm83.Alu

namespace Sm83

/-! ### Working through places -/

section Chains

variable {α : Type}

/--
The results of an operation at each of some places, one after the other.

Each place gets the flags that the place before it left, and the first place may have an operation of
its own.
-/
def chain (first next : α → Flags → AluResult) (flags : Flags) : List α → List AluResult
  | [] => []
  | x :: xs => first x flags :: chain next next (first x flags).flags xs

/-- The flags that are left when some results have come about one after the other. -/
def flagsAfter (flags : Flags) : List AluResult → Flags
  | [] => flags
  | r :: rs => flagsAfter r.flags rs

/-- The bytes of some results. -/
def values (results : List AluResult) : List Byte := results.map (·.value)

/-- The carries into the places: what the first place takes in, then what each place hands on. -/
def carriesInto (carryIn : Bool) (results : List AluResult) : List Bool :=
  carryIn :: results.map (·.flags.c)

variable {first next : α → Flags → AluResult}

theorem length_values (results : List AluResult) : (values results).length = results.length :=
  List.length_map _

theorem length_chain (flags : Flags) (xs : List α) :
    (chain first next flags xs).length = xs.length := by
  induction xs generalizing first flags with
  | nil => rfl
  | cons x xs ih => rw [chain, List.length_cons, ih, List.length_cons]

/-- What holds of the operation at every place holds of every result. -/
theorem chain_forall {P : AluResult → Prop} {xs : List α}
    (hfirst : ∀ x ∈ xs, ∀ flags, P (first x flags))
    (hnext : ∀ x ∈ xs, ∀ flags, P (next x flags)) (flags : Flags) :
    ∀ r ∈ chain first next flags xs, P r := by
  induction xs generalizing first flags with
  | nil =>
      intro r hr
      exact absurd hr List.not_mem_nil
  | cons x xs ih =>
      intro r hr
      have hrest : ∀ y ∈ xs, ∀ flags, P (next y flags) :=
        fun y hy => hnext y (List.mem_cons_of_mem x hy)
      rcases List.mem_cons.mp hr with rfl | hr
      · exact hfirst x List.mem_cons_self flags
      · exact ih hrest hrest _ r hr

/-- At each place the operation meets the carry that comes to the place. -/
theorem chain_at {P : α → Bool → AluResult → Prop} {carryIn : Bool} {flags : Flags}
    (hfirst : ∀ x, P x carryIn (first x flags)) (hnext : ∀ x flags, P x flags.c (next x flags))
    {xs : List α} {i : Nat} {x : α} {carry : Bool} {r : AluResult} (hx : xs[i]? = some x)
    (hcarry : (carriesInto carryIn (chain first next flags xs))[i]? = some carry)
    (hr : (chain first next flags xs)[i]? = some r) : P x carry r := by
  induction xs generalizing first flags carryIn i with
  | nil => exact absurd hx (by simp)
  | cons y ys ih =>
      cases i with
      | zero =>
          obtain rfl := Option.some.inj hx
          obtain rfl := Option.some.inj hcarry
          obtain rfl := Option.some.inj hr
          exact hfirst y
      | succ i => exact ih (fun x => hnext x _) hx hcarry hr

end Chains

/-! ### Places of two lists -/

section Zip

variable {α β : Type} {xs : List α} {ys : List β} (hlength : xs.length = ys.length)

include hlength

theorem map_zip_left (f : α → Nat) : ((xs.zip ys).map fun place => f place.1) = xs.map f := by
  calc
    ((xs.zip ys).map fun place => f place.1) = ((xs.zip ys).map Prod.fst).map f :=
        List.map_map.symm
    _ = xs.map f := by rw [List.map_fst_zip (Nat.le_of_eq hlength)]

theorem map_zip_right (f : β → Nat) : ((xs.zip ys).map fun place => f place.2) = ys.map f := by
  calc
    ((xs.zip ys).map fun place => f place.2) = ((xs.zip ys).map Prod.snd).map f :=
        List.map_map.symm
    _ = ys.map f := by rw [List.map_snd_zip (Nat.le_of_eq hlength.symm)]

theorem zip_ne_nil (hne : xs ≠ []) : xs.zip ys ≠ [] := by
  intro hnil
  have hnone : (xs.zip ys).length = 0 := by rw [hnil, List.length_nil]
  rw [List.length_zip, hlength, Nat.min_self, ← hlength] at hnone
  exact hne (List.length_eq_zero_iff.mp hnone)

theorem length_chain_zip (first next : α × β → Flags → AluResult) (flags : Flags) :
    (chain first next flags (xs.zip ys)).length = xs.length := by
  rw [length_chain, List.length_zip, hlength, Nat.min_self]

end Zip

/-! ### Columns -/

/--
Two numbers, the least significant digit first, are added column by column.

The carries are the one that the first column takes in and the one that the last column hands on.
-/
inductive Columns (base : Nat) : Bool → List Nat → List Nat → List Nat → Bool → Prop
  | nil (carry : Bool) : Columns base carry [] [] [] carry
  | cons {carryIn carry carryOut : Bool} {x y s : Nat} {xs ys ss : List Nat}
      (column : s + base * carry.toNat = x + y + carryIn.toNat)
      (rest : Columns base carry xs ys ss carryOut) :
      Columns base carryIn (x :: xs) (y :: ys) (s :: ss) carryOut

namespace Columns

variable {base : Nat} {carryIn carry carryOut : Bool} {xs ys ss : List Nat}

/-- One more column on top. -/
theorem concat (h : Columns base carryIn xs ys ss carry) {x y s : Nat}
    (column : s + base * carryOut.toNat = x + y + carry.toNat) :
    Columns base carryIn (xs ++ [x]) (ys ++ [y]) (ss ++ [s]) carryOut := by
  induction h with
  | nil => exact .cons column (.nil carryOut)
  | cons below _ ih => exact .cons below (ih column)

theorem length_eq (h : Columns base carryIn xs ys ss carryOut) : xs.length = ss.length := by
  induction h with
  | nil => rfl
  | cons _ _ ih => rw [List.length_cons, ih, List.length_cons]

/-- If every column is right then so is the sum. -/
theorem total (h : Columns base carryIn xs ys ss carryOut) :
    Nat.ofDigits base ss + base ^ ss.length * carryOut.toNat =
      Nat.ofDigits base xs + Nat.ofDigits base ys + carryIn.toNat := by
  induction h with
  | nil => simp
  | @cons carryIn carry carryOut x y s xs ys ss column rest ih =>
      rw [Nat.ofDigits_cons, Nat.ofDigits_cons, Nat.ofDigits_cons, List.length_cons, pow_succ]
      calc
        s + base * Nat.ofDigits base ss + base ^ ss.length * base * carryOut.toNat =
            s + base * (Nat.ofDigits base ss + base ^ ss.length * carryOut.toNat) := by ring
        _ = s + base * carry.toNat + base * (Nat.ofDigits base xs + Nat.ofDigits base ys) := by
            rw [ih]
            ring
        _ = _ := by
            rw [column]
            ring

/-! ### Sums and differences -/

section Value

variable (hbase : 1 < base)

include hbase

/-- The digits of a sum denote the sum, as far as there is room for it. -/
theorem ofDigits_sum (h : Columns base carryIn xs ys ss carryOut) (hss : ∀ s ∈ ss, s < base) :
    Nat.ofDigits base ss =
      (Nat.ofDigits base xs + Nat.ofDigits base ys + carryIn.toNat) % base ^ xs.length := by
  have hroom := Nat.ofDigits_lt_base_pow_length hbase hss
  rw [← h.total, h.length_eq, Nat.add_mul_mod_self_left, Nat.mod_eq_of_lt hroom]

/-- The last column hands on a carry if there is no room for the sum. -/
theorem carryOut_iff (h : Columns base carryIn xs ys ss carryOut) (hss : ∀ s ∈ ss, s < base) :
    carryOut = true ↔
      base ^ xs.length ≤ Nat.ofDigits base xs + Nat.ofDigits base ys + carryIn.toNat := by
  have hroom := Nat.ofDigits_lt_base_pow_length hbase hss
  have htotal := h.total
  rw [← h.length_eq] at hroom htotal
  cases carryOut with
  | false =>
      rw [Bool.toNat_false, Nat.mul_zero] at htotal
      exact iff_of_false Bool.false_ne_true (by omega)
  | true =>
      rw [Bool.toNat_true, Nat.mul_one] at htotal
      exact iff_of_true rfl (by omega)

/-- What is added to get back to a number is the difference, as far as there is room for it. -/
theorem ofDigits_difference (h : Columns base false xs ys ss carryOut) (hxs : ∀ x ∈ xs, x < base) :
    ((Nat.ofDigits base xs : Nat) : Int) =
      ((Nat.ofDigits base ss : Nat) - (Nat.ofDigits base ys : Nat) : Int) %
        (base ^ ss.length : Nat) := by
  have hroom := Nat.ofDigits_lt_base_pow_length hbase hxs
  rw [h.length_eq] at hroom
  have htotal : ((Nat.ofDigits base ss : Nat) : Int) + (base ^ ss.length : Nat) * carryOut.toNat =
      (Nat.ofDigits base xs : Nat) + (Nat.ofDigits base ys : Nat) := by
    exact_mod_cast h.total
  have hdifference : ((Nat.ofDigits base ss : Nat) - (Nat.ofDigits base ys : Nat) : Int) =
      (Nat.ofDigits base xs : Nat) + (base ^ ss.length : Nat) * (-carryOut.toNat) := by
    rw [mul_neg]
    omega
  rw [hdifference, Int.add_mul_emod_self_left, Int.emod_eq_of_lt (by omega) (by omega)]

/-- The last column hands on a carry if more is taken away than there is. -/
theorem borrow_iff (h : Columns base false xs ys ss carryOut) (hxs : ∀ x ∈ xs, x < base) :
    carryOut = true ↔ Nat.ofDigits base ss < Nat.ofDigits base ys := by
  have hroom := Nat.ofDigits_lt_base_pow_length hbase hxs
  rw [h.length_eq] at hroom
  have htotal := h.total
  cases carryOut with
  | false =>
      rw [Bool.toNat_false, Nat.mul_zero] at htotal
      exact iff_of_false Bool.false_ne_true (by omega)
  | true =>
      rw [Bool.toNat_true, Nat.mul_one, Bool.toNat_false] at htotal
      exact iff_of_true rfl (by omega)

end Value

/-! ### The columns of a chain -/

section Chains

variable {α : Type} {first next : α → Flags → AluResult} {left right : α → Nat} {digit : Byte → Nat}
  {xs : List α} {flags : Flags}

/--
An operation that gets every column right gets the numbers right if it is done from the least digit
up.

What the digits of a column are may depend on what stood at the place and on the byte that results.
-/
theorem of_chain {augend addend total : α × Byte → Nat} (hne : xs ≠ [])
    (hfirst : ∀ x ∈ xs.head?, let r := first x flags
      total (x, r.value) + base * r.flags.c.toNat =
        augend (x, r.value) + addend (x, r.value) + carryIn.toNat)
    (hnext : ∀ x ∈ xs, ∀ flags, let r := next x flags
      total (x, r.value) + base * r.flags.c.toNat =
        augend (x, r.value) + addend (x, r.value) + flags.c.toNat) :
    let results := chain first next flags xs
    let places := xs.zip (values results)
    Columns base carryIn (places.map augend) (places.map addend) (places.map total)
      (flagsAfter flags results).c := by
  induction xs generalizing first flags carryIn with
  | nil => exact absurd rfl hne
  | cons x xs ih =>
      have hrest : ∀ y ∈ xs, ∀ flags, _ := fun y hy => hnext y (List.mem_cons_of_mem x hy)
      have hcolumn := hfirst x rfl
      cases xs with
      | nil => exact .cons hcolumn (.nil _)
      | cons y ys =>
          exact .cons hcolumn (ih (List.cons_ne_nil y ys)
            (fun z hz => hrest z (List.mem_of_mem_head? hz) _) hrest)

/-- An operation that adds a column adds numbers. -/
theorem of_sums (hne : xs ≠ [])
    (hfirst : ∀ x ∈ xs.head?, digit (first x flags).value + base * (first x flags).flags.c.toNat =
      left x + right x + carryIn.toNat)
    (hnext : ∀ x ∈ xs, ∀ flags, digit (next x flags).value + base * (next x flags).flags.c.toNat =
      left x + right x + flags.c.toNat) :
    let results := chain first next flags xs
    Columns base carryIn (xs.map left) (xs.map right) ((values results).map digit)
      (flagsAfter flags results).c := by
  intro results
  have hlength : xs.length = (values results).length := by rw [length_values, length_chain]
  rw [← map_zip_left hlength left, ← map_zip_left hlength right, ← map_zip_right hlength digit]
  exact of_chain hne hfirst hnext

/-- An operation that takes a column away takes numbers away. -/
theorem of_differences (hne : xs ≠ [])
    (hfirst : ∀ x ∈ xs.head?, left x + base * (first x flags).flags.c.toNat =
      digit (first x flags).value + right x + carryIn.toNat)
    (hnext : ∀ x ∈ xs, ∀ flags, left x + base * (next x flags).flags.c.toNat =
      digit (next x flags).value + right x + flags.c.toNat) :
    let results := chain first next flags xs
    Columns base carryIn ((values results).map digit) (xs.map right) (xs.map left)
      (flagsAfter flags results).c := by
  intro results
  have hlength : xs.length = (values results).length := by rw [length_values, length_chain]
  rw [← map_zip_left hlength left, ← map_zip_left hlength right, ← map_zip_right hlength digit]
  exact of_chain hne hfirst hnext

/-- An operation that halves a digit halves numbers if it is done from the greatest digit down. -/
theorem of_halves (hne : xs ≠ [])
    (hfirst : ∀ x ∈ xs.head?, left x + base * carryOut.toNat =
      digit (first x flags).value + digit (first x flags).value + (first x flags).flags.c.toNat)
    (hnext : ∀ x ∈ xs, ∀ flags, left x + base * flags.c.toNat =
      digit (next x flags).value + digit (next x flags).value + (next x flags).flags.c.toNat) :
    let results := chain first next flags xs
    Columns base (flagsAfter flags results).c ((values results).map digit).reverse
      ((values results).map digit).reverse (xs.map left).reverse carryOut := by
  induction xs generalizing first flags carryOut with
  | nil => exact absurd rfl hne
  | cons x xs ih =>
      have hrest : ∀ y ∈ xs, ∀ flags, _ := fun y hy => hnext y (List.mem_cons_of_mem x hy)
      have hcolumn := hfirst x rfl
      cases xs with
      | nil => exact .cons hcolumn (.nil _)
      | cons y ys =>
          -- The column of the greatest digit is the one on top.
          have hbelow := ih (List.cons_ne_nil y ys)
            (fun z hz => hrest z (List.mem_of_mem_head? hz) (first x flags).flags) hrest
          intro results
          have hresults : results =
            first x flags :: chain next next (first x flags).flags (y :: ys) := rfl
          rw [hresults, values, List.map_cons, List.map_cons, List.reverse_cons, List.map_cons,
            List.reverse_cons]
          exact hbelow.concat hcolumn

end Chains

end Columns

end Sm83
