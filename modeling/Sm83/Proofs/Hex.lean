/-
Numbers that are written differ when they are written differently.

Each of the ways in which a number is shown, upper-case hexadecimal of a fixed width and signed
decimal, keeps the number: no two bytes and no two words look alike, and a hexadecimal number can
be read again.
-/
import Mathlib.Algebra.Group.Nat.Defs
import Sm83.Text.Hex

namespace Sm83.Hex

/-! ### Hexadecimal -/

/-- A digit can be read. -/
theorem value?_digit {n : Nat} (h : n < 16) : value? (digit n) = some n := by
  have hall : ∀ k : Fin 16, value? (digit k) = some k.val := by decide
  exact hall ⟨n, h⟩

theorem digit_inj {a b : Nat} (ha : a < 16) (hb : b < 16) (h : digit a = digit b) : a = b := by
  have hvalue : some a = some b := by rw [← value?_digit ha, h, value?_digit hb]
  exact Option.some.inj hvalue

/-- So many digits tell a number from the others that have no more. -/
theorem digits_inj (width : Nat) : ∀ {a b : Nat}, a < 16 ^ width → b < 16 ^ width →
    digits width a = digits width b → a = b := by
  induction width with
  | zero =>
      intro a b ha hb _
      exact (Nat.lt_one_iff.mp ha).trans (Nat.lt_one_iff.mp hb).symm
  | succ width ih =>
      intro a b ha hb h
      have hpow : 16 ^ (width + 1) = 16 ^ width * 16 := Nat.pow_succ 16 width
      obtain ⟨hfront, hlast⟩ := List.append_inj' h rfl
      have hdigit : a % 16 = b % 16 :=
        digit_inj (Nat.mod_lt _ (by decide)) (Nat.mod_lt _ (by decide)) (List.cons.inj hlast).1
      have hrest : a / 16 = b / 16 := ih (by omega) (by omega) hfront
      omega

@[simp] theorem toList_byte (b : Byte) : (byte b).toList = digits 2 b.toNat :=
  String.toList_ofList

@[simp] theorem toList_word (w : Word) : (word w).toList = digits 4 w.toNat :=
  String.toList_ofList

theorem byte_inj {a b : Byte} (h : byte a = byte b) : a = b :=
  UInt8.toNat_inj.mp (digits_inj 2 a.toNat_lt b.toNat_lt (String.ofList_injective h))

theorem word_inj {a b : Word} (h : word a = word b) : a = b :=
  UInt16.toNat_inj.mp (digits_inj 4 a.toNat_lt b.toNat_lt (String.ofList_injective h))

/-! ### Hexadecimal numbers, read again -/

/-- The digits of upper-case hexadecimal, by value. -/
def digitChars : List Char :=
  ['0', '1', '2', '3', '4', '5', '6', '7', '8', '9', 'A', 'B', 'C', 'D', 'E', 'F']

/-- The number that is written in upper-case hexadecimal, if there is nothing else. -/
def number? (text : List Char) : Option Nat :=
  text.foldlM (fun n c => (digitChars.idxOf? c).map (16 * n + ·)) 0

theorem idxOf?_digit {n : Nat} (h : n < 16) : digitChars.idxOf? (digit n) = some n := by
  have hall : ∀ k : Fin 16, digitChars.idxOf? (digit k) = some k.val := by decide
  exact hall ⟨n, h⟩

/-- Digits are read as the number they are of, less what there was no room for. -/
theorem number?_digits (width : Nat) : ∀ n, number? (digits width n) = some (n % 16 ^ width) := by
  induction width with
  | zero => intro n; rw [Nat.pow_zero, Nat.mod_one]; rfl
  | succ width ih =>
      intro n
      have hlast : n % 16 < 16 := Nat.mod_lt n (by decide)
      have hfront := ih (n / 16)
      unfold number? at hfront ⊢
      rw [digits, List.foldlM_append, hfront]
      simp only [Option.bind_eq_bind, Option.bind_some, List.foldlM_cons, List.foldlM_nil,
        idxOf?_digit hlast, Option.map_some]
      rw [Nat.pow_succ, Nat.mul_comm (16 ^ width) 16, Nat.mod_mul, Nat.add_comm]
      rfl

theorem number?_byte (b : Byte) : number? (digits 2 b.toNat) = some b.toNat := by
  have hsmall : b.toNat < 16 ^ 2 := b.toNat_lt
  rw [number?_digits, Nat.mod_eq_of_lt hsmall]

theorem number?_word (w : Word) : number? (digits 4 w.toNat) = some w.toNat := by
  have hsmall : w.toNat < 16 ^ 4 := w.toNat_lt
  rw [number?_digits, Nat.mod_eq_of_lt hsmall]

@[simp] theorem length_digits (width n : Nat) : (digits width n).length = width := by
  induction width generalizing n with
  | zero => rfl
  | succ width ih => rw [digits, List.length_append, List.length_singleton, ih]

/-- A text of four digits that are a word. -/
structure IsWord (w : Word) (text : String) : Prop where
  length : text.toList.length = 4
  number : number? text.toList = some w.toNat

theorem isWord_word (w : Word) : IsWord w (word w) where
  length := by rw [toList_word, length_digits]
  number := by rw [toList_word, number?_word]

/-! ### Signed decimal -/

theorem toDigits_inj {a b : Nat} (h : Nat.toDigits 10 a = Nat.toDigits 10 b) : a = b :=
  calc
    a = Nat.ofDigitChars 10 (Nat.toDigits 10 a) 0 := Nat.ofDigitChars_ten_toDigits.symm
    _ = Nat.ofDigitChars 10 (Nat.toDigits 10 b) 0 := by rw [h]
    _ = b := Nat.ofDigitChars_ten_toDigits

/-- A number of a byte in two's complement is its digits, after a sign if it is negative. -/
theorem toList_signed (b : Byte) : (signed b).toList =
    if b < 0x80 then Nat.toDigits 10 b.toNat else '-' :: Nat.toDigits 10 (256 - b.toNat) := by
  unfold signed
  split
  · rw [Nat.toString_eq_ofList_toDigits, String.toList_ofList]
  · have hsign : "-".toList = ['-'] := by simp
    rw [String.toList_append, hsign, Nat.toString_eq_ofList_toDigits, String.toList_ofList]
    rfl

theorem minus_notMem_toDigits (n : Nat) : '-' ∉ Nat.toDigits 10 n := by
  intro h
  have hdigit := Nat.isDigit_of_mem_toDigits (by decide) (by decide) h
  exact absurd hdigit (by decide)

theorem signed_inj {a b : Byte} (h : signed a = signed b) : a = b := by
  have hchars := congrArg String.toList h
  rw [toList_signed, toList_signed] at hchars
  have ha : a.toNat < 256 := a.toNat_lt
  have hb : b.toNat < 256 := b.toNat_lt
  refine UInt8.toNat_inj.mp ?_
  split at hchars <;> split at hchars
  · exact toDigits_inj hchars
  · -- a sign on one side only
    exact absurd (hchars ▸ List.mem_cons_self) (minus_notMem_toDigits a.toNat)
  · exact absurd (hchars ▸ List.mem_cons_self) (minus_notMem_toDigits b.toNat)
  · have hdigits := toDigits_inj (List.cons.inj hchars).2
    omega

end Sm83.Hex
