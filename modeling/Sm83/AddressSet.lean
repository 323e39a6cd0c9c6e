/-
Sets of addresses.

A set is the number whose bit `a` says whether `a` is in it, so that two sets with the
same members are equal and the members come in ascending order.
-/
import Sm83.Word

namespace Sm83

/-- A set of addresses. -/
structure AddressSet where
  bits : Nat
  deriving DecidableEq, Repr

namespace AddressSet

def empty : AddressSet := ⟨0⟩

def isEmpty (s : AddressSet) : Bool := s.bits == 0

def contains (s : AddressSet) (addr : Word) : Bool := s.bits.testBit addr.toNat

def insert (s : AddressSet) (addr : Word) : AddressSet := ⟨s.bits ||| (1 <<< addr.toNat)⟩

@[simp] theorem contains_empty (addr : Word) : empty.contains addr = false :=
  Nat.zero_testBit addr.toNat

@[simp] theorem contains_insert (s : AddressSet) (addr x : Word) :
    (s.insert addr).contains x = true ↔ x = addr ∨ s.contains x = true := by
  rw [insert, contains, contains, Nat.testBit_or, Nat.one_shiftLeft, Nat.testBit_two_pow,
    Bool.or_eq_true, decide_eq_true_eq, UInt16.toNat_inj, or_comm, @eq_comm _ addr]

/-- The set of the addresses in a list. -/
def ofList (addrs : List Word) : AddressSet := addrs.foldl insert empty

theorem contains_foldl_insert (addrs : List Word) (x : Word) : ∀ s : AddressSet,
    (addrs.foldl insert s).contains x = true ↔ x ∈ addrs ∨ s.contains x = true := by
  induction addrs with
  | nil => exact fun s => (or_iff_right List.not_mem_nil).symm
  | cons addr rest ih =>
      intro s
      rw [List.foldl_cons, ih, contains_insert, List.mem_cons, or_left_comm, or_assoc]

/-- The set of the addresses in a list has no other members. -/
@[simp] theorem contains_ofList (addrs : List Word) (x : Word) :
    (ofList addrs).contains x = true ↔ x ∈ addrs := by
  rw [ofList, contains_foldl_insert, contains_empty]
  exact or_iff_left Bool.false_ne_true

/-- The members in ascending order. -/
def toList (s : AddressSet) : List Word :=
  ((List.range addressSpace).map fun n => UInt16.ofNat n).filter s.contains

@[simp] theorem mem_toList (s : AddressSet) (x : Word) : x ∈ s.toList ↔ s.contains x = true := by
  rw [toList, List.mem_filter]
  refine and_iff_right (List.mem_map.mpr ⟨x.toNat, List.mem_range.mpr x.toNat_lt, ?_⟩)
  exact UInt16.ofNat_toNat

end AddressSet

end Sm83
