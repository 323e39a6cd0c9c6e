/-
Reading an operation off a text.

A text is a verb and up to two operands, with a blank and a comma between.  Neither a name nor a
literal holds a blank or a comma, so that the words can be had back.  The verb and the number of
operands leave a few operations to choose from, and an operand is either one of a few names or
begins in a way in which no name does.
-/
import Mathlib.Data.List.Nodup
import Sm83.Mnemonic
import Sm83.Proofs.Decode
import Sm83.Proofs.Hex

namespace Sm83

/-! ### Words -/

/-- Whether a character ends a word. -/
def separates (c : Char) : Bool := c == ' ' || c == ','

/-- The words of a text. -/
def wordsOf (text : List Char) : List (List Char) := text.splitOnP separates

/-- A text that is one word. -/
def Unbroken (text : List Char) : Prop := ∀ c ∈ text, separates c = false

instance (text : List Char) : Decidable (Unbroken text) :=
  List.decidableBAll (fun c => separates c = false) text

@[simp] theorem unbroken_nil : Unbroken [] := fun _ hc => absurd hc List.not_mem_nil

@[simp] theorem unbroken_cons {c : Char} {text : List Char} :
    Unbroken (c :: text) ↔ separates c = false ∧ Unbroken text := List.forall_mem_cons

@[simp] theorem unbroken_append {xs ys : List Char} :
    Unbroken (xs ++ ys) ↔ Unbroken xs ∧ Unbroken ys := List.forall_mem_append

theorem wordsOf_unbroken {word : List Char} (h : Unbroken word) : wordsOf word = [word] :=
  List.splitOnP_eq_singleton h

theorem wordsOf_append_cons {word : List Char} (h : Unbroken word) {c : Char}
    (hc : separates c = true) (text : List Char) :
    wordsOf (word ++ c :: text) = word :: wordsOf text :=
  List.splitOnP_append_cons_of_forall_mem h c hc text

/-! ### Operands -/

/-- An operand, sorted by how it begins. -/
inductive Operand where
  | value (digits : List Char)
  /-- An address in brackets. -/
  | memory
  /-- A displacement from SP. -/
  | offset
  | name (word : List Char)
  deriving DecidableEq

def Operand.of : List Char → Operand
  | '$' :: digits => .value digits
  | '(' :: '$' :: _ => .memory
  | 'S' :: 'P' :: '+' :: _ => .offset
  | word => .name word

/-! ### Names -/

/-- A single word that is not taken for a literal. -/
def IsName (word : List Char) : Prop := Unbroken word ∧ Operand.of word = .name word

instance (word : List Char) : Decidable (IsName word) :=
  instDecidableAnd

/-- Things that go by names, each by one of its own. -/
structure Names (α : Type) where
  name : α → String
  all : List α
  complete : ∀ a, a ∈ all
  distinct : (all.map name).Nodup := by decide +kernel
  isName : ∀ a ∈ all, IsName (name a).toList := by decide +kernel

/-- The thing that goes by a name. -/
def Names.read? {α : Type} (names : Names α) (word : List Char) : Option α :=
  names.all.find? fun a => (names.name a).toList == word

namespace Names

variable {α : Type} (names : Names α) (a : α)

theorem name_inj {a b : α} (h : names.name a = names.name b) : a = b :=
  List.inj_on_of_nodup_map names.distinct (names.complete a) (names.complete b) h

@[simp] theorem read?_name : names.read? (names.name a).toList = some a := by
  cases hfound : names.read? (names.name a).toList with
  | none =>
    have hnot := List.find?_eq_none.mp hfound a (names.complete a)
    exact absurd (beq_self_eq_true _) hnot
  | some b =>
    have hmatches := List.find?_some (p := fun c => (names.name c).toList == (names.name a).toList)
      hfound
    rw [names.name_inj (String.toList_inj.mp (eq_of_beq hmatches))]

@[simp] theorem unbroken_name : Unbroken (names.name a).toList :=
  (names.isName a (names.complete a)).1

@[simp] theorem operand_name : Operand.of (names.name a).toList = .name (names.name a).toList :=
  (names.isName a (names.complete a)).2

end Names

def Slot.names : Names Slot where
  name := name
  all := (List.finRange 8).map ofIndex
  complete s := by cases s <;> decide

def Pair.names : Names Pair where
  name := name
  all := (List.finRange 4).map ofIndex
  complete p := by cases p <;> decide

def StackPair.names : Names StackPair where
  name := name
  all := (List.finRange 4).map ofIndex
  complete p := by cases p <;> decide

def Pointer.names : Names Pointer where
  name := name
  all := (List.finRange 4).map ofIndex
  complete p := by cases p <;> decide

def Cond.names : Names Cond where
  name := name
  all := (List.finRange 4).map ofIndex
  complete cc := by cases cc <;> decide

def AluOp.names : Names AluOp where
  name := mnemonic
  all := (List.finRange 8).map ofIndex
  complete op := by cases op <;> decide

def ShiftOp.names : Names ShiftOp where
  name := mnemonic
  all := (List.finRange 8).map ofIndex
  complete op := by cases op <;> decide

/-- The numbers of the bits of a byte. -/
def bits : Names (Fin 8) where
  name n := toString n.val
  all := List.finRange 8
  complete := List.mem_finRange

/-- The restarts, which go by the addresses that they call. -/
def vectors : Names (Fin 8) where
  name n := Hex.byte (restartVector n)
  all := List.finRange 8
  complete := List.mem_finRange

/-- The verb of a text with operands.  That of an addition to HL or to SP is the one of the ALU. -/
inductive Verb where
  | ld
  | ldh
  | inc
  | dec
  | alu (op : AluOp)
  | shift (op : ShiftOp)
  | bit
  | res
  | set
  | jr
  | jp
  | call
  | ret
  | rst
  | pop
  | push
  deriving DecidableEq

namespace Verb

def name : Verb → String
  | ld => "LD"
  | ldh => "LDH"
  | inc => "INC"
  | dec => "DEC"
  | alu op => op.mnemonic
  | shift op => op.mnemonic
  | bit => "BIT"
  | res => "RES"
  | set => "SET"
  | jr => "JR"
  | jp => "JP"
  | call => "CALL"
  | ret => "RET"
  | rst => "RST"
  | pop => "POP"
  | push => "PUSH"

def all : List Verb :=
  [ld, ldh, inc, dec, bit, res, set, jr, jp, call, ret, rst, pop, push] ++
    AluOp.names.all.map alu ++ ShiftOp.names.all.map shift

def names : Names Verb where
  name := name
  all := all
  complete verb := by
    unfold all
    cases verb with
    | alu op =>
      have hop := List.mem_map_of_mem (f := alu) (AluOp.names.complete op)
      exact List.mem_append_left _ (List.mem_append_right _ hop)
    | shift op =>
      have hop := List.mem_map_of_mem (f := shift) (ShiftOp.names.complete op)
      exact List.mem_append_right _ hop
    | _ => exact List.mem_append_left _ (List.mem_append_left _ (by decide))

end Verb

/-! ### Operations -/

namespace Op

/-- The operations that are written without operands. -/
def bare : List Op :=
  [.nop, .stop, .halt, .di, .ei, .rlca, .rrca, .rla, .rra, .daa, .cpl, .scf, .ccf, .ret none, .reti]

/-- They go by their own forms. -/
def bareNames : Names { op // op ∈ bare } where
  name op := String.join (op.val.form.map Piece.placeholder)
  all := bare.attach
  complete := List.mem_attach bare

/-- An operation with one operand. -/
def readUnary? : Verb → Operand → Option Op
  | .inc, .name x => (Slot.names.read? x).map .inc <|> (Pair.names.read? x).map .incPair
  | .dec, .name x => (Slot.names.read? x).map .dec <|> (Pair.names.read? x).map .decPair
  | .alu op, .name x => (Slot.names.read? x).map (.alu op)
  | .alu op, .value _ => some (.aluImm op)
  | .shift op, .name x => (Slot.names.read? x).map (.shift op)
  | .jr, .value _ => some (.jr none)
  | .jp, .value _ => some (.jp none)
  | .jp, .name _ => some .jpHl
  | .call, .value _ => some (.call none)
  | .ret, .name x => (Cond.names.read? x).map fun cc => .ret (some cc)
  | .rst, .value digits => (vectors.read? digits).map .rst
  | .pop, .name x => (StackPair.names.read? x).map .pop
  | .push, .name x => (StackPair.names.read? x).map .push
  | _, _ => none

/-- A load.  `(HL+)` points to a byte only next to the accumulator, and `SP` takes only HL. -/
def readLoad? : Operand → Operand → Option Op
  | .memory, .name y => if y = "SP".toList then some .storeSp else some .storeAbs
  | .name _, .memory => some .loadAbs
  | .name _, .offset => some .loadHlSp
  | .name x, .value _ => (Slot.names.read? x).map .loadImm <|> (Pair.names.read? x).map .loadPair
  | .name x, .name y =>
    (Pointer.names.read? x).map .storeA <|> (Pointer.names.read? y).map .loadA <|>
      ((Slot.names.read? x).bind fun dst => (Slot.names.read? y).map (.move dst)) <|>
        some .loadSpHl
  | _, _ => none

/-- A load to or from the last page. -/
def readHigh? : Operand → Operand → Option Op
  | .memory, _ => some .storeHigh
  | _, .memory => some .loadHigh
  | .name x, _ => if x = "A".toList then some .loadHighC else some .storeHighC
  | _, _ => none

/-- An operation with two operands. -/
def readBinary? (verb : Verb) (x y : List Char) : Option Op :=
  match verb with
  | .ld => readLoad? (.of x) (.of y)
  | .ldh => readHigh? (.of x) (.of y)
  | .alu _ => if x = "SP".toList then some .addSp else (Pair.names.read? y).map .addHl
  | .jr => (Cond.names.read? x).map fun cc => .jr (some cc)
  | .jp => (Cond.names.read? x).map fun cc => .jp (some cc)
  | .call => (Cond.names.read? x).map fun cc => .call (some cc)
  | .bit => (bits.read? x).bind fun n => (Slot.names.read? y).map (.bit n)
  | .res => (bits.read? x).bind fun n => (Slot.names.read? y).map (.res n)
  | .set => (bits.read? x).bind fun n => (Slot.names.read? y).map (.set n)
  | _ => none

/-- The operation that a text tells of. -/
def read? (text : List Char) : Option Op :=
  match wordsOf text with
  | [word] => (bareNames.read? word).map Subtype.val
  | [word, x] => (Verb.names.read? word).bind fun verb => readUnary? verb (.of x)
  | [word, x, y] => (Verb.names.read? word).bind fun verb => readBinary? verb x y
  | _ => none

end Op

/-! ### Literals are single words -/

theorem separates_digit {n : Nat} (h : n < 16) : separates (Hex.digit n) = false := by
  have hall : ∀ k : Fin 16, separates (Hex.digit k) = false := by decide
  exact hall ⟨n, h⟩

@[simp] theorem Hex.unbroken_digits (width : Nat) : ∀ n, Unbroken (Hex.digits width n) := by
  induction width with
  | zero => exact fun _ _ hc => absurd hc List.not_mem_nil
  | succ width ih =>
      intro n c hc
      obtain hfront | hlast := List.mem_append.mp hc
      · exact ih _ c hfront
      · rw [List.mem_singleton.mp hlast]
        exact separates_digit (Nat.mod_lt n (by decide))

theorem separates_of_isDigit {c : Char} (h : c.isDigit) : separates c = false := by
  unfold separates
  rw [Bool.or_eq_false_iff, beq_eq_false_iff_ne, beq_eq_false_iff_ne]
  constructor <;> rintro rfl <;> exact absurd h (by decide)

@[simp] theorem unbroken_toDigits (n : Nat) : Unbroken (Nat.toDigits 10 n) := fun _ hc =>
  separates_of_isDigit (Nat.isDigit_of_mem_toDigits (by decide) (by decide) hc)

@[simp] theorem Hex.unbroken_signed (b : Byte) : Unbroken (Hex.signed b).toList := by
  rw [Hex.toList_signed]
  split
  · exact unbroken_toDigits _
  · exact List.forall_mem_cons.mpr ⟨by decide, unbroken_toDigits _⟩

/-! ### Texts are read back -/

theorem Slot.name_eq (s : Slot) : s.name = names.name s := rfl

theorem Pair.name_eq (p : Pair) : p.name = names.name p := rfl

theorem StackPair.name_eq (p : StackPair) : p.name = names.name p := rfl

theorem Pointer.name_eq (p : Pointer) : p.name = names.name p := rfl

theorem Cond.name_eq (cc : Cond) : cc.name = names.name cc := rfl

theorem vectors_name (n : Fin 8) : vectors.name n = Hex.byte (restartVector n) := rfl

theorem bitForm_eq (name : String) (n : Fin 8) (slot : Slot) : bitForm name n slot =
    [.text (name ++ " " ++ bits.name n ++ "," ++ slot.name)] := rfl

/-- No pair goes by the name of a slot. -/
@[simp] theorem Slot.read?_pair (p : Pair) : names.read? (Pair.names.name p).toList = none := by
  cases p <;> rfl

/-- No slot goes by the name of a pointer: `(HL)` is not `(HL+)`. -/
@[simp] theorem Pointer.read?_slot (s : Slot) : names.read? (Slot.names.name s).toList = none := by
  cases s <;> rfl

@[simp] theorem Pointer.read?_a : names.read? ['A'] = none := rfl

namespace Operand

@[simp] theorem of_value (digits : List Char) : of ('$' :: digits) = .value digits := rfl

@[simp] theorem of_memory (rest : List Char) : of ('(' :: '$' :: rest) = .memory := rfl

@[simp] theorem of_offset (rest : List Char) : of ('S' :: 'P' :: '+' :: rest) = .offset := rfl

@[simp] theorem of_a : of ['A'] = .name ['A'] := rfl

@[simp] theorem of_sp : of ['S', 'P'] = .name ['S', 'P'] := rfl

@[simp] theorem of_hl : of ['H', 'L'] = .name ['H', 'L'] := rfl

@[simp] theorem of_atHl : of ['(', 'H', 'L', ')'] = .name ['(', 'H', 'L', ')'] := rfl

@[simp] theorem of_atC : of ['(', 'C', ')'] = .name ['(', 'C', ')'] := rfl

end Operand

namespace Op

/-- How an operation is written in an instruction. -/
def written (op : Op) (i : Instruction) : List Char :=
  (String.join (op.form.map (Piece.fill i))).toList

variable (i : Instruction)

theorem fill_bare : ∀ op ∈ bare, op.form.map (Piece.fill i) = op.form.map Piece.placeholder := by
  simp only [bare, List.forall_mem_cons]
  exact ⟨rfl, rfl, rfl, rfl, rfl, rfl, rfl, rfl, rfl, rfl, rfl, rfl, rfl, rfl, rfl,
    List.forall_mem_nil _⟩

theorem read?_bare {op : Op} (h : op ∈ bare) : read? (op.written i) = some op := by
  have hword : Unbroken (String.join (op.form.map Piece.placeholder)).toList :=
    bareNames.unbroken_name ⟨op, h⟩
  rw [written, fill_bare i op h, read?, wordsOf_unbroken hword]
  exact congrArg (Option.map Subtype.val) (bareNames.read?_name ⟨op, h⟩)

theorem read?_unary {op : Op} (verb : Verb) (x : String)
    (htext : op.written i = verb.name.toList ++ ' ' :: x.toList) (hx : Unbroken x.toList)
    (hread : readUnary? verb (.of x.toList) = some op) : read? (op.written i) = some op := by
  have hword : Unbroken verb.name.toList := Verb.names.unbroken_name verb
  have hwords : wordsOf (op.written i) = [verb.name.toList, x.toList] := by
    rw [htext, wordsOf_append_cons hword rfl, wordsOf_unbroken hx]
  have hverb : Verb.names.read? verb.name.toList = some verb := Verb.names.read?_name verb
  rw [read?, hwords]
  exact (congrArg (Option.bind · _) hverb).trans hread

theorem read?_binary {op : Op} (verb : Verb) (x y : String)
    (htext : op.written i = verb.name.toList ++ ' ' :: (x.toList ++ ',' :: y.toList))
    (hx : Unbroken x.toList) (hy : Unbroken y.toList)
    (hread : readBinary? verb x.toList y.toList = some op) : read? (op.written i) = some op := by
  have hword : Unbroken verb.name.toList := Verb.names.unbroken_name verb
  have hwords : wordsOf (op.written i) = [verb.name.toList, x.toList, y.toList] := by
    rw [htext, wordsOf_append_cons hword rfl, wordsOf_append_cons hx rfl, wordsOf_unbroken hy]
  have hverb : Verb.names.read? verb.name.toList = some verb := Verb.names.read?_name verb
  rw [read?, hwords]
  exact (congrArg (Option.bind · _) hverb).trans hread

attribute [local simp] written form branchForm bitForm_eq Piece.fill Verb.name Slot.name_eq
  Pair.name_eq StackPair.name_eq Pointer.name_eq Cond.name_eq separates readUnary? readBinary?
  readLoad? readHigh?

/-- An operation that can be executed is read back from the way it is written. -/
theorem read?_written {op : Op} (h : op.Executable) : read? (op.written i) = some op := by
  -- for each operation its words; that they are words, and what is read off them, is routine
  cases op with
  | escape => exact absurd rfl h.ne_escape
  | undefined byte => exact absurd rfl (h.ne_undefined byte)
  | nop | stop | halt | di | ei | rlca | rrca | rla | rra | daa | cpl | scf | ccf | reti =>
    exact read?_bare i (by decide)
  | inc slot => apply read?_unary i .inc slot.name <;> simp
  | dec slot => apply read?_unary i .dec slot.name <;> simp
  | incPair pair => apply read?_unary i .inc pair.name <;> simp
  | decPair pair => apply read?_unary i .dec pair.name <;> simp
  | alu op slot => apply read?_unary i (.alu op) slot.name <;> simp
  | aluImm op => apply read?_unary i (.alu op) (Piece.fill i .byte) <;> simp
  | shift op slot => apply read?_unary i (.shift op) slot.name <;> simp
  | pop pair => apply read?_unary i .pop pair.name <;> simp
  | push pair => apply read?_unary i .push pair.name <;> simp
  | rst n => apply read?_unary i .rst ("$" ++ vectors.name n) <;> simp [← vectors_name]
  | jpHl => apply read?_unary i .jp "(HL)" <;> simp
  | ret cond =>
    cases cond with
    | none => exact read?_bare i (by decide)
    | some cc => apply read?_unary i .ret cc.name <;> simp
  | jr cond =>
    cases cond with
    | none => apply read?_unary i .jr (Piece.fill i .target) <;> simp
    | some cc => apply read?_binary i .jr cc.name (Piece.fill i .target) <;> simp
  | jp cond =>
    cases cond with
    | none => apply read?_unary i .jp (Piece.fill i .address) <;> simp
    | some cc => apply read?_binary i .jp cc.name (Piece.fill i .address) <;> simp
  | call cond =>
    cases cond with
    | none => apply read?_unary i .call (Piece.fill i .address) <;> simp
    | some cc => apply read?_binary i .call cc.name (Piece.fill i .address) <;> simp
  | storeSp => apply read?_binary i .ld ("(" ++ Piece.fill i .address ++ ")") "SP" <;> simp
  | storeAbs => apply read?_binary i .ld ("(" ++ Piece.fill i .address ++ ")") "A" <;> simp
  | loadAbs => apply read?_binary i .ld "A" ("(" ++ Piece.fill i .address ++ ")") <;> simp
  | storeHigh => apply read?_binary i .ldh ("(" ++ Piece.fill i .highAddress ++ ")") "A" <;> simp
  | loadHigh => apply read?_binary i .ldh "A" ("(" ++ Piece.fill i .highAddress ++ ")") <;> simp
  | storeHighC => apply read?_binary i .ldh "(C)" "A" <;> simp
  | loadHighC => apply read?_binary i .ldh "A" "(C)" <;> simp
  | loadPair pair => apply read?_binary i .ld pair.name (Piece.fill i .word) <;> simp
  | loadImm slot => apply read?_binary i .ld slot.name (Piece.fill i .byte) <;> simp
  | storeA pointer => apply read?_binary i .ld pointer.name "A" <;> simp
  | loadA pointer => apply read?_binary i .ld "A" pointer.name <;> simp
  | move dst src => apply read?_binary i .ld dst.name src.name <;> simp
  | loadHlSp => apply read?_binary i .ld "HL" ("SP+" ++ Piece.fill i .displacement) <;> simp
  | loadSpHl => exact read?_binary i .ld "SP" "HL" (by simp) (by simp) (by simp) rfl
  | addHl pair => apply read?_binary i (.alu .add) "HL" pair.name <;> simp [AluOp.mnemonic]
  | addSp =>
    apply read?_binary i (.alu .add) "SP" (Piece.fill i .displacement) <;> simp [AluOp.mnemonic]
  | bit n slot => apply read?_binary i .bit (bits.name n) slot.name <;> simp
  | res n slot => apply read?_binary i .res (bits.name n) slot.name <;> simp
  | set n slot => apply read?_binary i .set (bits.name n) slot.name <;> simp

end Op

end Sm83
