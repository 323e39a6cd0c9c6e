/-
What was put on the stack last is taken off first.

The operations that use the stack come in pairs: what a PUSH, a CALL or a restart puts there, a
POP or a return takes off.  In a sequence of them that is properly bracketed, each operation that
takes a word off belongs to the last one before it that is still open.

A bracketed piece of such a sequence leaves SP where it was and writes only below it, two bytes for
each level of nesting.  This is all that has to be known of what happens between the two
operations of a pair: the word lies above SP there, so it is still in its place when it is taken
off.  The addresses below SP go around the end of memory, and come back to the word itself only if
the nesting takes up all of memory.
-/
import Sm83.Proofs.FlatMemory
import Sm83.Proofs.Registers

namespace Sm83.Stack

/-! ### Operations on the stack -/

/-- An operation that puts a word on the stack. -/
inductive Opening where
  | push (pair : StackPair)
  | call
  | rst (n : Fin 8)

/-- An operation that takes a word off the stack. -/
inductive Closing where
  | pop (pair : StackPair)
  | ret
  | reti
  deriving DecidableEq

/--
What is there when an operation is carried out.

Of the registers only SP is passed on from one operation to the next.  The others may hold
anything each time, and control may come from anywhere.
-/
structure Setting where
  regs : Registers
  literal : Word
  /-- Where control goes by default, which is what calls put on the stack. -/
  next : Word

/-- An operation on the stack with its setting. -/
inductive Action where
  | opens (o : Opening) (setting : Setting)
  | closes (c : Closing) (setting : Setting)

def Opening.op : Opening → Op
  | push pair => .push pair
  | call => .call none
  | rst n => .rst n

/-- The word that is put on the stack. -/
def Opening.word (setting : Setting) : Opening → Word
  | push pair => setting.regs.stackPair pair
  | call | rst _ => setting.next

def Closing.op : Closing → Op
  | pop pair => .pop pair
  | ret => .ret none
  | reti => .reti

/-- The word that has been taken off the stack. -/
def Closing.obtained (outcome : Outcome) : Closing → Word
  | pop pair => outcome.regs.stackPair pair
  | ret | reti => outcome.next

/-- What a closing operation makes of a word: a pair keeps what it can of it. -/
def Closing.keep (w : Word) : Closing → Word
  | pop pair => pair.keep w
  | ret | reti => w

/-- SP and the memory that it points into. -/
structure State where
  sp : Word
  memory : FlatMemory

namespace Action

def op : Action → Op
  | opens o _ => o.op
  | closes c _ => c.op

def setting : Action → Setting
  | opens _ setting => setting
  | closes _ setting => setting

/-- The action as a program, when SP is given. -/
def program (a : Action) (sp : Word) : Bus Outcome :=
  a.op.execute a.setting.literal { a.setting.regs with sp } a.setting.next

def outcome (a : Action) (s : State) : Outcome := (a.program s.sp).eval s.memory

/-- SP and the memory after an action. -/
def after (a : Action) (s : State) : State :=
  ⟨(a.outcome s).regs.sp, (a.program s.sp).exec s.memory⟩

end Action

/-- SP and the memory after some actions, one after the other. -/
def afterAll (actions : List Action) (s : State) : State :=
  actions.foldl (fun s a => a.after s) s

/-! ### One action -/

theorem after_opens (o : Opening) (setting : Setting) (s : State) :
    (Action.opens o setting).after s =
      ⟨s.sp - 2, (s.memory.write (s.sp - 1) (o.word setting).high).write (s.sp - 2)
        (o.word setting).low⟩ := by
  cases o with
  | push pair => cases pair <;> rfl
  | _ => rfl

theorem after_closes (c : Closing) (setting : Setting) (s : State) :
    (Action.closes c setting).after s = ⟨s.sp + 2, s.memory⟩ := by
  cases c with
  | pop pair => cases pair <;> rfl
  | _ => rfl

/-- A word is taken from the two bytes at SP. -/
theorem obtained_closes (c : Closing) (setting : Setting) (s : State) :
    c.obtained ((Action.closes c setting).outcome s) =
      c.keep (.ofBytes (s.memory.get (s.sp + 1)) (s.memory.get s.sp)) := by
  cases c with
  | pop pair => exact Registers.stackPair_setStackPair _ pair _
  | _ => rfl

/-- No action moves the end of the read-only part. -/
theorem romEnd_after (a : Action) (s : State) :
    (a.after s).memory.romEnd = s.memory.romEnd := by
  cases a with
  | opens o setting => rw [after_opens, FlatMemory.romEnd_write, FlatMemory.romEnd_write]
  | closes c setting => rw [after_closes]

theorem romEnd_afterAll (actions : List Action) : ∀ s : State,
    (afterAll actions s).memory.romEnd = s.memory.romEnd := by
  induction actions with
  | nil => exact fun _ => rfl
  | cons a rest ih => exact fun s => (ih (a.after s)).trans (romEnd_after a s)

theorem afterAll_append (xs ys : List Action) (s : State) :
    afterAll (xs ++ ys) s = afterAll ys (afterAll xs s) := List.foldl_append

/-! ### The bytes below SP -/

/-- The address is that of one of the bytes of the first `n` words below SP. -/
def Below (sp : Word) (n : Nat) (addr : Word) : Prop :=
  ∃ k, 1 ≤ k ∧ k ≤ 2 * n ∧ addr = sp - UInt16.ofNat k

theorem below_first (sp : Word) (n : Nat) : Below sp (n + 1) (sp - 1) :=
  ⟨1, Nat.le_refl 1, by omega, rfl⟩

theorem below_second (sp : Word) (n : Nat) : Below sp (n + 1) (sp - 2) :=
  ⟨2, by omega, by omega, rfl⟩

theorem Below.under {sp addr : Word} {n : Nat} (h : Below (sp - 2) n addr) :
    Below sp (n + 1) addr := by
  obtain ⟨k, hpos, hk, rfl⟩ := h
  refine ⟨k + 2, by omega, by omega, ?_⟩
  have hsum : UInt16.ofNat (k + 2) = UInt16.ofNat k + 2 := UInt16.ofNat_add k 2
  rw [hsum]
  grind

/-- Going down, one comes back to an address only by going all the way around. -/
theorem not_below {sp addr : Word} {n : Nat} (h : 2 * n ≤ (sp - addr - 1).toNat) :
    ¬ Below sp n addr := by
  rintro ⟨k, hpos, hk, rfl⟩
  obtain ⟨k, rfl⟩ := Nat.exists_eq_add_of_le' hpos
  have hsum : UInt16.ofNat (k + 1) = UInt16.ofNat k + 1 := UInt16.ofNat_add k 1
  have hoffset : sp - (sp - UInt16.ofNat (k + 1)) - 1 = UInt16.ofNat k := by
    rw [hsum]
    grind
  rw [hoffset, UInt16.toNat_ofNat'] at h
  have hmod := Nat.mod_le k (2 ^ 16)
  omega

/-! ### Brackets -/

/-- The actions are properly bracketed, no more than so many levels deep. -/
inductive Bracketed : Nat → List Action → Prop
  | nil {n : Nat} : Bracketed n []
  | nest {n : Nat} {inner : List Action} (o : Opening) (setting : Setting) (c : Closing)
      (setting' : Setting) (h : Bracketed n inner) :
      Bracketed (n + 1) (.opens o setting :: (inner ++ [.closes c setting']))
  | append {n : Nat} {xs ys : List Action} (hxs : Bracketed n xs) (hys : Bracketed n ys) :
      Bracketed n (xs ++ ys)

/-- What a bracketed piece of a sequence leaves as it was. -/
structure Restores (n : Nat) (s s' : State) : Prop where
  sp : s'.sp = s.sp
  memory : ∀ addr, ¬ Below s.sp n addr → s'.memory.get addr = s.memory.get addr

theorem Restores.trans {n : Nat} {s s' s'' : State} (h : Restores n s s')
    (h' : Restores n s' s'') : Restores n s s'' where
  sp := h'.sp.trans h.sp
  memory addr haddr := (h'.memory addr (h.sp ▸ haddr)).trans (h.memory addr haddr)

theorem Bracketed.restores {n : Nat} {actions : List Action} (h : Bracketed n actions) :
    ∀ s, Restores n s (afterAll actions s) := by
  induction h with
  | nil => exact fun s => ⟨rfl, fun _ _ => rfl⟩
  | @nest n inner o setting c setting' h ih =>
      intro s
      have hinner := ih ((Action.opens o setting).after s)
      have hlast : afterAll (.opens o setting :: (inner ++ [.closes c setting'])) s =
          (Action.closes c setting').after (afterAll inner ((Action.opens o setting).after s)) :=
        afterAll_append inner [.closes c setting'] _
      rw [hlast, after_closes]
      rw [after_opens] at hinner ⊢
      constructor
      · show _ + 2 = s.sp
        rw [hinner.sp]
        exact UInt16.sub_add_cancel s.sp 2
      · intro addr haddr
        have hunder : ¬ Below (s.sp - 2) n addr := fun hc => haddr hc.under
        have hfirst : addr ≠ s.sp - 1 := fun hc => haddr (hc ▸ below_first s.sp n)
        have hsecond : addr ≠ s.sp - 2 := fun hc => haddr (hc ▸ below_second s.sp n)
        rw [hinner.memory addr hunder, FlatMemory.get_write_of_ne _ _ hsecond,
          FlatMemory.get_write_of_ne _ _ hfirst]
  | append hxs hys ihxs ihys =>
      intro s
      rw [afterAll_append]
      exact (ihxs s).trans (ihys _)

/-- The word that was put on the stack is taken off, if the operations between do not reach it. -/
theorem Bracketed.obtained {n : Nat} {inner : List Action} (h : Bracketed n inner) (hn : n < 32768)
    (o : Opening) (setting : Setting) (c : Closing) (setting' : Setting) {s : State}
    (hwritable : s.memory.romEnd = 0) :
    c.obtained ((Action.closes c setting').outcome
      (afterAll inner ((Action.opens o setting).after s))) = c.keep (o.word setting) := by
  have hinner := h.restores ((Action.opens o setting).after s)
  rw [obtained_closes]
  generalize afterAll inner ((Action.opens o setting).after s) = s' at hinner ⊢
  rw [after_opens] at hinner
  have hlow : ¬ Below (s.sp - 2) n (s.sp - 2) := by
    have hoffset : s.sp - 2 - (s.sp - 2) - 1 = 0xFFFF := by grind
    exact not_below (by rw [hoffset]; show 2 * n ≤ 65535; omega)
  have hhigh : ¬ Below (s.sp - 2) n (s.sp - 1) := by
    have hoffset : s.sp - 2 - (s.sp - 1) - 1 = 0xFFFE := by grind
    exact not_below (by rw [hoffset]; show 2 * n ≤ 65534; omega)
  have hsp : s'.sp = s.sp - 2 := hinner.sp
  have hnext : s.sp - 2 + 1 = s.sp - 1 := by grind
  have hne : s.sp - 1 ≠ s.sp - 2 := by grind
  have hfirst : (s.memory.write (s.sp - 1) (o.word setting).high).romEnd = 0 := by
    rw [FlatMemory.romEnd_write, hwritable]
  rw [hsp, hnext, hinner.memory _ hlow, hinner.memory _ hhigh]
  simp only [FlatMemory.get_write_of_writable hwritable, FlatMemory.get_write_of_writable hfirst,
    if_true, if_neg hne, Word.ofBytes_high_low]

/-! ### Which operations belong together -/

/-- How many more operations open than close. -/
def rise : List Action → Int
  | [] => 0
  | .opens _ _ :: rest => rise rest + 1
  | .closes _ _ :: rest => rise rest - 1

theorem rise_append (xs ys : List Action) : rise (xs ++ ys) = rise xs + rise ys := by
  induction xs with
  | nil => exact (Int.zero_add _).symm
  | cons a rest ih =>
      cases a <;> simp only [List.cons_append, rise, ih] <;> omega

namespace Bracketed

variable {n : Nat} {actions : List Action}

theorem rise_eq_zero (h : Bracketed n actions) : rise actions = 0 := by
  induction h with
  | nil => rfl
  | nest o setting c setting' h ih =>
      simp only [rise, rise_append, ih]
      omega
  | append hxs hys ihxs ihys => rw [rise_append, ihxs, ihys, Int.add_zero]

/-- At no point have more operations closed than opened. -/
theorem rise_nonneg (h : Bracketed n actions) :
    ∀ {front rest : List Action}, actions = front ++ rest → 0 ≤ rise front := by
  induction h with
  | nil =>
      intro front rest heq
      rw [(List.append_eq_nil_iff.mp heq.symm).1]
      exact Int.le_refl 0
  | @nest n inner o setting c setting' h ih =>
      intro front rest heq
      obtain ⟨rfl, -⟩ | ⟨front, rfl, hrest⟩ := List.cons_eq_append_iff.mp heq
      · exact Int.le_refl 0
      · obtain rfl | ⟨rest, last, rfl⟩ := List.eq_nil_or_concat rest
        · rw [List.append_nil] at hrest
          simp only [rise, ← hrest, rise_append, h.rise_eq_zero]
          omega
        · rw [List.concat_eq_append, ← List.append_assoc, List.append_singleton_inj] at hrest
          have hfront := ih hrest.1
          simp only [rise]
          omega
  | append hxs hys ihxs ihys =>
      intro front rest heq
      obtain ⟨front, rfl, hrest⟩ | ⟨later, hfront, -⟩ := List.append_eq_append_iff.mp heq
      · rw [rise_append, hxs.rise_eq_zero, Int.zero_add]
        exact ihys hrest
      · exact ihxs hfront

/-- An operation that is still open has no second one after it. -/
theorem opens_eq {inner before inner' : List Action} {n' : Nat} {o o' : Opening}
    {setting setting' : Setting} (h : Bracketed n inner) (h' : Bracketed n' inner')
    (heq : .opens o setting :: inner = before ++ .opens o' setting' :: inner') :
    o = o' ∧ setting = setting' := by
  obtain ⟨-, htail⟩ | ⟨before, -, htail⟩ := List.cons_eq_append_iff.mp heq
  · simp only [List.cons.injEq, Action.opens.injEq] at htail
    exact ⟨htail.1.1.symm, htail.1.2.symm⟩
  · have hbefore := h.rise_nonneg htail
    have htotal := h.rise_eq_zero
    rw [htail, rise_append, rise, h'.rise_eq_zero] at htotal
    omega

/-- What a closing operation closes was opened before it, and is less deep than the whole. -/
theorem exists_open (h : Bracketed n actions) : ∀ {front rest : List Action} {c : Closing}
    {setting' : Setting}, actions = front ++ .closes c setting' :: rest →
      ∃ before o setting inner k, front = before ++ .opens o setting :: inner ∧
        Bracketed k inner ∧ k < n := by
  induction h with
  | nil =>
      intro front rest c setting' heq
      exact absurd (List.append_eq_nil_iff.mp heq.symm).2 (List.cons_ne_nil _ _)
  | @nest n inner o setting c setting' h ih =>
      intro front rest c setting' heq
      obtain ⟨-, hhead⟩ | ⟨front, rfl, htail⟩ := List.cons_eq_append_iff.mp heq
      · exact absurd hhead (by simp)
      · obtain rfl | ⟨rest, last, rfl⟩ := List.eq_nil_or_concat rest
        · -- the last operation closes the first one
          obtain ⟨rfl, -⟩ := List.append_singleton_inj.mp htail
          exact ⟨[], o, setting, _, n, rfl, h, Nat.lt_succ_self n⟩
        · rw [List.concat_eq_append, ← List.cons_append, ← List.append_assoc,
            List.append_singleton_inj] at htail
          obtain ⟨before, o', setting', inner', k, rfl, hinner, hk⟩ := ih htail.1
          exact ⟨.opens o setting :: before, o', setting', inner', k, rfl, hinner,
            Nat.lt_succ_of_lt hk⟩
  | @append n xs ys hxs hys ihxs ihys =>
      intro front rest c setting' heq
      obtain ⟨front, rfl, hrest⟩ | ⟨later, hfront, hlater⟩ := List.append_eq_append_iff.mp heq
      · obtain ⟨before, o, setting, inner, k, rfl, hinner⟩ := ihys hrest
        exact ⟨xs ++ before, o, setting, inner, k, (List.append_assoc _ _ _).symm, hinner⟩
      · obtain ⟨-, hys'⟩ | ⟨later, rfl, -⟩ := List.cons_eq_append_iff.mp hlater
        · -- a bracketed sequence does not begin with a closing operation
          obtain ⟨before, _, _, _, _, hnil, -⟩ := @ihys [] rest c setting' hys'
          exact absurd (List.append_eq_nil_iff.mp hnil.symm).2 (List.cons_ne_nil _ _)
        · exact ihxs hfront

end Bracketed

/-- The last operation of those that is still open: everything after it is bracketed. -/
def LastOpen (front : List Action) (o : Opening) (setting : Setting) : Prop :=
  ∃ before inner n, front = before ++ .opens o setting :: inner ∧ Bracketed n inner

/-- There is no more than one last open operation. -/
theorem LastOpen.unique {front : List Action} {o o' : Opening} {setting setting' : Setting}
    (h : LastOpen front o setting) (h' : LastOpen front o' setting') :
    o = o' ∧ setting = setting' := by
  obtain ⟨before, inner, n, rfl, hinner⟩ := h
  obtain ⟨before', inner', n', heq, hinner'⟩ := h'
  obtain ⟨between, -, htail⟩ | ⟨between, -, htail⟩ := List.append_eq_append_iff.mp heq
  · exact hinner.opens_eq hinner' htail
  · exact (hinner'.opens_eq hinner htail).imp Eq.symm Eq.symm

/--
**The stack is last in, first out**, wherever it is and also around the end of memory.

Let operations on the stack be properly bracketed, at most as many levels deep as words fit in
memory, and let all of memory be writable.  Then SP ends where it started, and no byte has changed
but the two for each level below that.  For each closing operation there is one that is the last
open one before it; the word that this one has put on the stack is what the closing one obtains.
-/
theorem last_in_first_out {n : Nat} {actions : List Action} (h : Bracketed n actions)
    (hdepth : n ≤ 32768) {s : State} (hwritable : s.memory.romEnd = 0) :
    (afterAll actions s).sp = s.sp ∧
      (∀ addr, ¬ Below s.sp n addr → (afterAll actions s).memory.get addr = s.memory.get addr) ∧
      ∀ front c setting' rest, actions = front ++ .closes c setting' :: rest →
        (∃ o setting, LastOpen front o setting) ∧
        ∀ o setting, LastOpen front o setting →
          c.obtained ((Action.closes c setting').outcome (afterAll front s)) =
            c.keep (o.word setting) := by
  refine ⟨(h.restores s).sp, (h.restores s).memory, fun front c setting' rest heq => ?_⟩
  obtain ⟨before, o, setting, inner, k, rfl, hinner, hk⟩ := h.exists_open heq
  have hopen : LastOpen (before ++ .opens o setting :: inner) o setting :=
    ⟨before, inner, k, rfl, hinner⟩
  refine ⟨⟨o, setting, hopen⟩, fun o' setting'' hopen' => ?_⟩
  obtain ⟨rfl, rfl⟩ := hopen.unique hopen'
  rw [afterAll_append]
  exact hinner.obtained (Nat.lt_of_lt_of_le hk hdepth) o setting c setting'
    ((romEnd_afterAll before s).trans hwritable)

/-- A setting in which BC holds a word, and control goes on to another. -/
def midway : Setting := ⟨{ Registers.zeroed with b := 0x12, c := 0x3F }, 0, 0x4567⟩

/-- What is pushed from BC before a call is popped into AF after it. -/
def aroundCall : List Action :=
  [.opens (.push .bc) midway, .opens .call midway, .closes .ret midway]

/-- The word lies over both ends of memory, and F loses its low nibble. -/
theorem last_in_first_out_around_the_end :
    (Closing.pop .af).obtained ((Action.closes (.pop .af) midway).outcome
      (afterAll aroundCall ⟨1, .zeroed⟩)) = 0x1230 := by
  have hcall : Bracketed 1 [.opens .call midway, .closes .ret midway] :=
    .nest .call midway .ret midway .nil
  have hall : Bracketed 2 (aroundCall ++ [.closes (.pop .af) midway]) :=
    .nest (.push .bc) midway (.pop .af) midway hcall
  obtain ⟨-, -, hclosing⟩ := last_in_first_out hall (by decide) (s := ⟨1, .zeroed⟩) rfl
  exact (hclosing aroundCall (.pop .af) midway [] rfl).2 (.push .bc) midway
    ⟨[], [.opens .call midway, .closes .ret midway], 1, rfl, hcall⟩

end Sm83.Stack
