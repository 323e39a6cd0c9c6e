/-
What loading leaves in a memory.

Bytes that are loaded lie at consecutive addresses and go on at zero after the last one, so that
data which are longer than the address space go over themselves.  Of all the bytes that land on
an address, the last one stays there.

The proof takes the data from their end.  The last byte is put last and is in its place whatever
came before it; for any other address it is as if the data had ended one byte earlier.
-/
import Mathlib.Data.List.Induction
import Mathlib.Order.Bounds.Basic
import Sm83.Proofs.FlatMemory

namespace Sm83.FlatMemory

/-! ### The byte that stays -/

/-- The positions of the bytes that land on an address, in data of some length. -/
def landings (addr : Word) (length : Nat) (x : Word) : Set Nat :=
  {i | i < length ∧ (addr.toNat + i) % addressSpace = x.toNat}

/-- Counted in numbers or in addresses, a byte lands on the same place. -/
theorem lands_iff (addr x : Word) (i : Nat) :
    (addr.toNat + i) % addressSpace = x.toNat ↔ x = addr + UInt16.ofNat i := by
  have hsum : (addr + UInt16.ofNat i).toNat = (addr.toNat + i) % addressSpace := by
    rw [UInt16.toNat_add, UInt16.toNat_ofNat']
    exact Nat.add_mod_mod _ _ _
  rw [← UInt16.toNat_inj, hsum]
  exact eq_comm

/-- One more byte lands on its own place and on no other. -/
theorem mem_landings_succ {addr x : Word} {length i : Nat} :
    i ∈ landings addr (length + 1) x ↔
      i ∈ landings addr length x ∨ i = length ∧ x = addr + UInt16.ofNat length := by
  show i < length + 1 ∧ _ ↔ (i < length ∧ _) ∨ _
  rw [Nat.lt_succ_iff_lt_or_eq, lands_iff]
  constructor
  · rintro ⟨hlt | rfl, hx⟩
    · exact Or.inl ⟨hlt, hx⟩
    · exact Or.inr ⟨rfl, hx⟩
  · rintro (⟨hlt, hx⟩ | ⟨rfl, hx⟩)
    · exact ⟨Or.inl hlt, hx⟩
    · exact ⟨Or.inr rfl, hx⟩

/-- What an address holds after data have been loaded, of which the last byte there stays. -/
theorem get_load_cases (m : FlatMemory) (addr x : Word) (data : List Byte) :
    (∃ i, IsGreatest (landings addr data.length x) i ∧
      data[i]? = some ((m.load addr data).get x)) ∨
    landings addr data.length x = ∅ ∧ (m.load addr data).get x = m.get x := by
  induction data using List.reverseRecOn with
  | nil =>
      refine Or.inr ⟨Set.eq_empty_of_forall_notMem fun i hi => ?_, rfl⟩
      exact absurd hi.1 (Nat.not_lt_zero i)
  | append_singleton data b ih =>
      rw [List.length_append, List.length_singleton, get_load_concat]
      by_cases hx : x = addr + UInt16.ofNat data.length
      · -- the new byte lands here, and no position is greater than its own
        refine Or.inl ⟨data.length, ⟨mem_landings_succ.mpr (Or.inr ⟨rfl, hx⟩), ?_⟩, ?_⟩
        · exact fun i hi => Nat.le_of_lt_succ hi.1
        · rw [if_pos hx, List.getElem?_concat_length]
      · have hsame : landings addr (data.length + 1) x = landings addr data.length x := by
          ext i
          rw [mem_landings_succ]
          exact or_iff_left fun h => hx h.2
        rw [hsame, if_neg hx]
        obtain ⟨i, hi, hbyte⟩ | ⟨hnone, hget⟩ := ih
        · exact Or.inl ⟨i, hi, by rw [List.getElem?_append_left hi.1.1, hbyte]⟩
        · exact Or.inr ⟨hnone, hget⟩

/--
**Loading puts every byte in its place, and the last one in a place stays.**

After data of any length have been loaded anywhere, read-only or not, an address holds the byte
with the greatest position among those that land on it, counting round the address space as often
as it takes, and what it held before if none does.  So data can be loaded in two pieces, the
second of which goes where the first has ended.
-/
theorem load_exact (m : FlatMemory) (addr : Word) :
    (∀ (data : List Byte) (x : Word),
      (∃ i, IsGreatest (landings addr data.length x) i ∧
        data[i]? = some ((m.load addr data).get x)) ∨
      landings addr data.length x = ∅ ∧ (m.load addr data).get x = m.get x) ∧
    ∀ first rest : List Byte, m.load addr (first ++ rest) =
      (m.load addr first).load
        (UInt16.ofNat ((addr.toNat + first.length) % addressSpace)) rest := by
  refine ⟨fun data x => get_load_cases m addr x data, fun first rest => ?_⟩
  have hend : UInt16.ofNat ((addr.toNat + first.length) % addressSpace) =
      addr + UInt16.ofNat first.length := by
    rw [← lands_iff, UInt16.toNat_ofNat']
    exact (Nat.mod_mod _ _).symm
  rw [hend]
  exact load_append first rest m addr

end Sm83.FlatMemory
