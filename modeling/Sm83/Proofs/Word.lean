/-
A word and its two halves.

A word is two hundred and fifty-six times its high half and its low half over.  So the two halves
can be had back from a word that was put together, and a word that is taken apart can be put
together again.
-/
import Sm83.Word

namespace Sm83.Word

theorem toNat_high (w : Word) : w.high.toNat = w.toNat / 256 := by
  have hsmall : w.toNat < 2 ^ 16 := w.toNat_lt
  have hshift : UInt16.toNat 8 % 16 = 8 := rfl
  unfold high
  rw [UInt16.toNat_toUInt8, UInt16.toNat_shiftRight, hshift, Nat.shiftRight_eq_div_pow]
  omega

theorem toNat_low (w : Word) : w.low.toNat = w.toNat % 256 := UInt16.toNat_toUInt8 w

theorem toNat_ofBytes (high low : Byte) :
    (ofBytes high low).toNat = 256 * high.toNat + low.toNat := by
  have hhigh : high.toNat < 2 ^ 8 := high.toNat_lt
  have hlow : low.toNat < 2 ^ 8 := low.toNat_lt
  have hshift : UInt16.toNat 8 % 16 = 8 := rfl
  have hfits : high.toNat <<< 8 % 2 ^ 16 = high.toNat <<< 8 := by
    rw [Nat.shiftLeft_eq]
    omega
  unfold ofBytes
  rw [UInt16.toNat_or, UInt16.toNat_shiftLeft, UInt8.toNat_toUInt16, UInt8.toNat_toUInt16, hshift,
    hfits, ← Nat.shiftLeft_add_eq_or_of_lt hlow, Nat.shiftLeft_eq]
  omega

/-- A word is made of its two halves. -/
theorem ofBytes_high_low (w : Word) : ofBytes w.high w.low = w := by
  refine UInt16.toNat_inj.mp ?_
  rw [toNat_ofBytes, toNat_high, toNat_low]
  omega

theorem high_ofBytes (high low : Byte) : (ofBytes high low).high = high := by
  have hlow : low.toNat < 2 ^ 8 := low.toNat_lt
  refine UInt8.toNat_inj.mp ?_
  rw [toNat_high, toNat_ofBytes]
  omega

theorem low_ofBytes (high low : Byte) : (ofBytes high low).low = low := by
  have hlow : low.toNat < 2 ^ 8 := low.toNat_lt
  refine UInt8.toNat_inj.mp ?_
  rw [toNat_low, toNat_ofBytes]
  omega

/-- A byte is the low half of the word that denotes the same number. -/
theorem low_toUInt16 (b : Byte) : low b.toUInt16 = b := by
  have hb : b.toNat < 2 ^ 8 := b.toNat_lt
  refine UInt8.toNat_inj.mp ?_
  rw [toNat_low, UInt8.toNat_toUInt16]
  omega

/-- A byte is the low half of the word that denotes the same signed number. -/
theorem low_signExtend (b : Byte) : low (signExtend b) = b := by
  unfold signExtend
  split
  · exact low_toUInt16 b
  · have hpage : UInt16.toUInt8 0xFF00 = 0 := rfl
    rw [low, UInt16.toUInt8_or, hpage, UInt8.zero_or, UInt8.toUInt8_toUInt16]

end Sm83.Word
