/-
What is stored in the register file is read back.

A pair keeps the word that is stored in it, but for the pair of A and F: F has no low nibble, so
the word loses that.
-/
import Sm83.Execute
import Sm83.Proofs.Decode
import Sm83.Proofs.Word

namespace Sm83

/-- F keeps the high nibble of what is stored in it. -/
theorem Flags.toByte_ofByte : ∀ b : Byte, (ofByte b).toByte = b &&& 0xF0 :=
  forall_byte (by decide +kernel)

namespace Registers

variable (r : Registers) (w : Word)

@[simp] theorem bc_setBc : (r.setBc w).bc = w := Word.ofBytes_high_low w

@[simp] theorem de_setDe : (r.setDe w).de = w := Word.ofBytes_high_low w

@[simp] theorem hl_setHl : (r.setHl w).hl = w := Word.ofBytes_high_low w

@[simp] theorem af_setAf : (r.setAf w).af = .ofBytes w.high (w.low &&& 0xF0) := by
  rw [← Flags.toByte_ofByte]
  rfl

end Registers

/-- What a pair keeps of a word that is stored in it. -/
def StackPair.keep (w : Word) : StackPair → Word
  | af => .ofBytes w.high (w.low &&& 0xF0)
  | _ => w

theorem Registers.stackPair_setStackPair (r : Registers) (pair : StackPair) (w : Word) :
    (r.setStackPair pair w).stackPair pair = pair.keep w := by
  cases pair with
  | bc => exact bc_setBc r w
  | de => exact de_setDe r w
  | hl => exact hl_setHl r w
  | af => exact af_setAf r w

end Sm83
