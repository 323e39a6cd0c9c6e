/-
The register file under all of its views.

Eight bytes, two words and four flags can be read and written, and four pairs, which are two bytes
each.  The views overlap: a byte is written by itself or as a half of its pair, a flag by itself or
as a bit of F, and F by itself, as a half of its pair or flag by flag.

What one write does to a byte, a word or a flag is to leave it alone or to give it a value that
does not depend on what was there.  So what they hold after any writes is what the last write gave
that did not leave them alone; this is one induction, whatever is looked at.  The other views are
made of these.
-/
import Sm83.Proofs.FlagEffects
import Sm83.Proofs.Modes

namespace Sm83

/-! ### Views -/

/-- The eight bytes of the register file. -/
inductive ByteRegister where
  | a
  | f
  | b
  | c
  | d
  | e
  | h
  | l
  deriving DecidableEq, Repr

namespace StackPair

/-- The byte that is the high half of a pair. -/
def high : StackPair → ByteRegister
  | bc => .b
  | de => .d
  | hl => .h
  | af => .a

/-- The byte that is the low half of a pair. -/
def low : StackPair → ByteRegister
  | bc => .c
  | de => .e
  | hl => .l
  | af => .f

end StackPair

/-- What can be read and written in the register file. -/
inductive RegisterView where
  | byte (x : ByteRegister)
  | pair (p : StackPair)
  | sp
  | pc
  | flag (flag : Flag)

/-- What is read and written through a view. -/
abbrev RegisterView.Value : RegisterView → Type
  | byte _ => Byte
  | pair _ | sp | pc => Word
  | flag _ => Bool

namespace Registers

def byte (r : Registers) : ByteRegister → Byte
  | .a => r.a
  | .f => r.f
  | .b => r.b
  | .c => r.c
  | .d => r.d
  | .e => r.e
  | .h => r.h
  | .l => r.l

def setByte (r : Registers) (value : Byte) : ByteRegister → Registers
  | .a => { r with a := value }
  | .f => r.setF value
  | .b => { r with b := value }
  | .c => { r with c := value }
  | .d => { r with d := value }
  | .e => { r with e := value }
  | .h => { r with h := value }
  | .l => { r with l := value }

def view (r : Registers) : (v : RegisterView) → v.Value
  | .byte x => r.byte x
  | .pair p => r.stackPair p
  | .sp => r.sp
  | .pc => r.pc
  | .flag flag => r.flag flag

end Registers

/-- A value that is written through a view. -/
structure RegisterWrite where
  view : RegisterView
  value : view.Value

namespace RegisterWrite

/-- The byte that is stored in a register, as such or as its half of a pair. -/
def byte? (x : ByteRegister) : RegisterWrite → Option Byte
  | ⟨.byte y, value⟩ => if y = x then some value else none
  | ⟨.pair p, w⟩ =>
    if p.high = x then some (Word.high w) else if p.low = x then some (Word.low w) else none
  | _ => none

def sp? : RegisterWrite → Option Word
  | ⟨.sp, w⟩ => some w
  | _ => none

def pc? : RegisterWrite → Option Word
  | ⟨.pc, w⟩ => some w
  | _ => none

/-- The value that is given to a flag, by itself or as its bit of the byte stored in F. -/
def flag? (flag : Flag) : RegisterWrite → Option Bool
  | ⟨.flag other, value⟩ => if other = flag then some value else none
  | write => (write.byte? .f).map fun value => value &&& flag.mask != 0

/-- The value that the last write gives of those that give any. -/
def latest {α : Type} (given : RegisterWrite → Option α) (writes : List RegisterWrite) :
    Option α :=
  (writes.filterMap given).getLast?

end RegisterWrite

namespace Registers

open RegisterWrite (latest)

/-- The register file after one write. -/
def written (r : Registers) : RegisterWrite → Registers
  | ⟨.byte x, value⟩ => r.setByte value x
  | ⟨.pair p, w⟩ => r.setStackPair p w
  | ⟨.sp, w⟩ => { r with sp := w }
  | ⟨.pc, w⟩ => { r with pc := w }
  | ⟨.flag flag, value⟩ => r.setFlag flag value

/-- The register file after some writes, one after the other. -/
def writtenAll (r : Registers) (writes : List RegisterWrite) : Registers := writes.foldl written r

/-! ### What one write does -/

variable (r : Registers) (write : RegisterWrite)

theorem byte_setByte {x : ByteRegister} (hx : x ≠ .f) (y : ByteRegister) (value : Byte) :
    (r.setByte value y).byte x = if y = x then value else r.byte x := by
  cases x with
  | f => exact absurd rfl hx
  | _ => cases y <;> rfl

theorem byte_setStackPair {x : ByteRegister} (hx : x ≠ .f) (p : StackPair) (w : Word) :
    (r.setStackPair p w).byte x =
      if p.high = x then w.high else if p.low = x then w.low else r.byte x := by
  cases x with
  | f => exact absurd rfl hx
  | _ => cases p <;> rfl

/-- A byte other than F is what is stored in it, or as it was. -/
theorem byte_written {x : ByteRegister} (hx : x ≠ .f) :
    (r.written write).byte x = (write.byte? x).getD (r.byte x) := by
  obtain ⟨view, value⟩ := write
  cases view with
  | byte y =>
      rw [written, byte_setByte r hx, RegisterWrite.byte?]
      split <;> rfl
  | pair p =>
      rw [written, byte_setStackPair r hx, RegisterWrite.byte?]
      split
      · rfl
      · split <;> rfl
  | sp => cases x <;> rfl
  | pc => cases x <;> rfl
  | flag flag =>
      cases x with
      | f => exact absurd rfl hx
      | _ => rfl

theorem sp_written : (r.written write).sp = write.sp?.getD r.sp := by
  obtain ⟨view, value⟩ := write
  cases view with
  | byte y => cases y <;> rfl
  | pair p => cases p <;> rfl
  | _ => rfl

theorem pc_written : (r.written write).pc = write.pc?.getD r.pc := by
  obtain ⟨view, value⟩ := write
  cases view with
  | byte y => cases y <;> rfl
  | pair p => cases p <;> rfl
  | _ => rfl

/-- A flag is what it is set to, its bit of what is stored in F, or as it was. -/
theorem flag_written (flag : Flag) :
    (r.written write).flag flag = (write.flag? flag).getD (r.flag flag) := by
  obtain ⟨view, value⟩ := write
  cases view with
  | byte y =>
      cases y with
      | f => cases flag <;> rfl
      | _ => rfl
  | pair p =>
      cases p with
      | af => cases flag <;> rfl
      | _ => rfl
  | flag other => cases other <;> cases flag <;> rfl
  | _ => rfl

/-! ### What one write leaves alone -/

end Registers

/-- A byte as the least parts of it that can be written: F has four. -/
def ByteRegister.cells : ByteRegister → List RegisterView
  | .f => Flag.all.map .flag
  | x => [.byte x]

/-- What a view shows, as the least parts of it that can be written. -/
def RegisterView.cells : RegisterView → List RegisterView
  | byte x => x.cells
  | pair p => p.high.cells ++ p.low.cells
  | view => [view]

namespace ByteRegister

theorem cells_of_ne {x : ByteRegister} (hx : x ≠ f) : x.cells = [.byte x] := by
  cases x with
  | f => exact absurd rfl hx
  | _ => rfl

theorem flag_mem_cells (flag : Flag) : .flag flag ∈ cells f := List.mem_map_of_mem flag.mem_all

end ByteRegister

namespace RegisterWrite

variable {write : RegisterWrite}

/-- Nothing is stored in a byte of which a write leaves any part alone. -/
theorem byte?_eq_none {x : ByteRegister} {cell : RegisterView} (hcell : cell ∈ x.cells)
    (h : cell ∉ write.view.cells) : write.byte? x = none := by
  obtain ⟨view, value⟩ := write
  cases view with
  | byte y =>
      have hy : y ≠ x := fun hyx => h (hyx ▸ hcell)
      rw [byte?, if_neg hy]
  | pair p =>
      have hhigh : p.high ≠ x := fun hpx => h (List.mem_append_left _ (hpx ▸ hcell))
      have hlow : p.low ≠ x := fun hpx => h (List.mem_append_right _ (hpx ▸ hcell))
      rw [byte?, if_neg hhigh, if_neg hlow]
  | _ => rfl

theorem flag?_eq_none {flag : Flag} (h : .flag flag ∉ write.view.cells) :
    write.flag? flag = none := by
  have hbyte : write.byte? .f = none := byte?_eq_none (ByteRegister.flag_mem_cells flag) h
  obtain ⟨view, value⟩ := write
  cases view with
  | flag other =>
      have hother : other ≠ flag := fun he => h (he ▸ List.mem_singleton_self _)
      rw [flag?, if_neg hother]
  | _ =>
      rw [flag?, hbyte]
      · rfl
      · intro _ _ he
        cases he

theorem sp?_eq_none (h : .sp ∉ write.view.cells) : write.sp? = none := by
  obtain ⟨view, value⟩ := write
  cases view with
  | sp => exact absurd (List.mem_singleton_self _) h
  | _ => rfl

theorem pc?_eq_none (h : .pc ∉ write.view.cells) : write.pc? = none := by
  obtain ⟨view, value⟩ := write
  cases view with
  | pc => exact absurd (List.mem_singleton_self _) h
  | _ => rfl

/-- A byte that is stored in F gives every flag its bit. -/
theorem flag?_of_byte? {value : Byte} (h : write.byte? .f = some value) (flag : Flag) :
    write.flag? flag = some (value &&& flag.mask != 0) := by
  obtain ⟨view, given⟩ := write
  cases view with
  | flag other => cases h
  | _ =>
      rw [flag?, h]
      · rfl
      · intro _ _ he
        cases he

end RegisterWrite

namespace Registers

open RegisterWrite (latest)

variable (r : Registers) (write : RegisterWrite)

/-- F is made of its flags. -/
theorem f_eq_of_flags {r s : Registers} (h : ∀ flag, r.flag flag = s.flag flag) : r.f = s.f := by
  have hz : r.flags.z = s.flags.z := h .zero
  have hn : r.flags.n = s.flags.n := h .subtract
  have hh : r.flags.h = s.flags.h := h .halfCarry
  have hc : r.flags.c = s.flags.c := h .carry
  unfold f Flags.toByte
  rw [hz, hn, hh, hc]

theorem flag_eq_bit (flag : Flag) : r.flag flag = (r.f &&& flag.mask != 0) := by
  unfold Registers.flag f
  obtain ⟨z, n, h, c⟩ := r.flags
  cases flag <;> cases z <;> cases n <;> cases h <;> cases c <;> rfl

/-- A pair is made of its halves. -/
theorem stackPair_eq (p : StackPair) : r.stackPair p = .ofBytes (r.byte p.high) (r.byte p.low) := by
  cases p <;> rfl

theorem byte_written_of_untouched {x : ByteRegister}
    (h : ∀ cell ∈ x.cells, cell ∉ write.view.cells) : (r.written write).byte x = r.byte x := by
  by_cases hx : x = .f
  · subst hx
    refine f_eq_of_flags fun flag => ?_
    rw [flag_written, RegisterWrite.flag?_eq_none (h _ (ByteRegister.flag_mem_cells flag))]
    rfl
  · have hcell : .byte x ∈ x.cells := by
      rw [ByteRegister.cells_of_ne hx]
      exact List.mem_singleton_self _
    rw [byte_written r write hx, RegisterWrite.byte?_eq_none hcell (h _ hcell)]
    rfl

/-- A view shows the same as before unless some part of it has been written. -/
theorem view_written_of_untouched {v : RegisterView}
    (h : ∀ cell ∈ v.cells, cell ∉ write.view.cells) : (r.written write).view v = r.view v := by
  cases v with
  | byte x => exact byte_written_of_untouched r write h
  | pair p =>
      have hhigh := byte_written_of_untouched r write fun cell hcell =>
        h cell (List.mem_append_left p.low.cells hcell)
      have hlow := byte_written_of_untouched r write fun cell hcell =>
        h cell (List.mem_append_right p.high.cells hcell)
      show (r.written write).stackPair p = r.stackPair p
      rw [stackPair_eq, stackPair_eq, hhigh, hlow]
  | sp =>
      have hnone := RegisterWrite.sp?_eq_none (h _ (List.mem_singleton_self _))
      show (r.written write).sp = r.sp
      rw [sp_written, hnone]
      rfl
  | pc =>
      have hnone := RegisterWrite.pc?_eq_none (h _ (List.mem_singleton_self _))
      show (r.written write).pc = r.pc
      rw [pc_written, hnone]
      rfl
  | flag flag =>
      have hnone := RegisterWrite.flag?_eq_none (h _ (List.mem_singleton_self _))
      show (r.written write).flag flag = r.flag flag
      rw [flag_written, hnone]
      rfl

/-! ### What the writes of a run leave behind -/

/-- What each write replaces or leaves alone is what the last write has put there. -/
theorem eq_latest {α : Type} (shown : Registers → α) (given : RegisterWrite → Option α)
    (hstep : ∀ r write, shown (r.written write) = (given write).getD (shown r))
    (writes : List RegisterWrite) : ∀ r : Registers,
      shown (r.writtenAll writes) = (latest given writes).getD (shown r) := by
  induction writes with
  | nil => exact fun r => rfl
  | cons write rest ih =>
      intro r
      show shown ((r.written write).writtenAll rest) = _
      rw [ih, hstep]
      unfold latest
      cases hgiven : given write with
      | none => rw [List.filterMap_cons_none hgiven]; rfl
      | some value =>
          rw [List.filterMap_cons_some hgiven, List.getLast?_cons]
          rfl

theorem flag_writtenAll (flag : Flag) (writes : List RegisterWrite) :
    (r.writtenAll writes).flag flag =
      (latest (RegisterWrite.flag? flag) writes).getD (r.flag flag) :=
  eq_latest (fun r => r.flag flag) _ (fun r write => flag_written r write flag) writes r

/-- F is the byte last stored in it, but for its low nibble, if no flag has been set since. -/
theorem f_writtenAll {before after : List RegisterWrite} {write : RegisterWrite} {value : Byte}
    (hwrite : write.byte? .f = some value) (hafter : ∀ w ∈ after, ∀ flag, w.flag? flag = none) :
    (r.writtenAll (before ++ write :: after)).f = value &&& 0xF0 := by
  have hflags : ∀ flag, (r.writtenAll (before ++ write :: after)).flag flag =
      (r.setF value).flag flag := by
    intro flag
    have hrest : after.filterMap (RegisterWrite.flag? flag) = [] :=
      List.filterMap_eq_nil_iff.mpr fun w hw => hafter w hw flag
    have hlatest : latest (RegisterWrite.flag? flag) (before ++ write :: after) =
        some (value &&& flag.mask != 0) := by
      rw [latest, List.filterMap_append,
        List.filterMap_cons_some (RegisterWrite.flag?_of_byte? hwrite flag), hrest,
        List.getLast?_concat]
    rw [flag_writtenAll, hlatest]
    cases flag <;> rfl
  rw [f_eq_of_flags hflags]
  exact Flags.toByte_ofByte value

/-- What a register file shows after some writes, made of what was there before them. -/
structure Remembers (start : Registers) (writes : List RegisterWrite) (r : Registers) : Prop where
  /-- A byte is the one last stored in it, as such or as its half of a pair. -/
  byte : ∀ x, x ≠ .f → r.byte x = (latest (·.byte? x) writes).getD (start.byte x)
  /-- So is F, as long as no flag is set, but it has no low nibble. -/
  f : ∀ before write after value, writes = before ++ write :: after →
    write.byte? .f = some value → (∀ w ∈ after, ∀ flag, w.flag? flag = none) →
    r.f = value &&& 0xF0
  lowNibble : r.f &&& 0x0F = 0
  sp : r.sp = (latest (·.sp?) writes).getD start.sp
  pc : r.pc = (latest (·.pc?) writes).getD start.pc
  /-- A flag is what it was last set to, by itself or as its bit of a byte stored in F. -/
  flag : ∀ flag, r.flag flag = (latest (·.flag? flag) writes).getD (start.flag flag)
  bit : ∀ flag, r.flag flag = (r.f &&& flag.mask != 0)
  /-- A pair is its high half, two hundred and fifty-six times, and its low half. -/
  pair : ∀ p, (r.stackPair p).toNat = 256 * (r.byte p.high).toNat + (r.byte p.low).toNat
  /-- One more write changes nothing that has no part in common with what is written. -/
  apart : ∀ write v, (∀ cell ∈ v.cells, cell ∉ write.view.cells) →
    (r.written write).view v = r.view v

/--
**Every register is what was last written to it, whatever it was written as.**

Let a register file be written any number of times, through any of its views.  Then each byte and
each word holds what was last stored there, and each flag what it was last set to, if by a byte
stored in F; the pairs are made of their halves, and F of its flags and a low nibble of zero.  To
write through a view changes no other view but those that share a part with it.
-/
theorem remembers_writtenAll (start : Registers) (writes : List RegisterWrite) :
    Remembers start writes (start.writtenAll writes) where
  byte x hx :=
    eq_latest (fun r => r.byte x) _ (fun r write => byte_written r write hx) writes start
  f before write after value hwrites hwrite hafter := by
    rw [hwrites]
    exact f_writtenAll start hwrite hafter
  lowNibble := Flags.low_toByte _
  sp := eq_latest Registers.sp _ sp_written writes start
  pc := eq_latest Registers.pc _ pc_written writes start
  flag flag := flag_writtenAll start flag writes
  bit flag := flag_eq_bit _ flag
  pair p := by rw [stackPair_eq, Word.toNat_ofBytes]
  apart write v h := view_written_of_untouched _ write h

end Registers

end Sm83
