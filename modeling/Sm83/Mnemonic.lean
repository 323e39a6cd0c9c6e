/-
How instructions are written.

The form of an operation is a list of pieces: fixed text, and places for the literal.
A place can be shown by its placeholder, which gives the form of the opcode, or filled
with the literal of an instruction, which gives the text of the instruction.
-/
import Sm83.Instruction

namespace Sm83

/-- One piece of a written operation. -/
inductive Piece where
  | text (s : String)
  | byte
  | word
  | address
  /-- An offset in the last page, shown as the address it stands for. -/
  | highAddress
  /-- A signed displacement. -/
  | displacement
  /-- A jump distance, shown as the address it leads to. -/
  | target
  deriving DecidableEq, Repr

namespace Piece

/-- A piece of the form of an opcode. -/
def placeholder : Piece → String
  | text s => s
  | byte => "d8"
  | word => "d16"
  | address => "a16"
  | highAddress => "a8"
  | displacement => "e8"
  | target => "r8"

/-- A piece of the text of an instruction. -/
def fill (i : Instruction) : Piece → String
  | text s => s
  | byte => "$" ++ Hex.byte i.literalByte
  | word => "$" ++ Hex.word i.literal
  | address => "$" ++ Hex.word i.literal
  | highAddress => "$FF" ++ Hex.byte i.literalByte
  | displacement => Hex.signed i.literalByte
  | target => "$" ++ Hex.word i.relativeTarget

end Piece

/-- A branch: its name, its condition if there is one, and its destination. -/
def branchForm (name : String) (cond : Option Cond) (destination : List Piece) : List Piece :=
  match cond, destination with
  | none, [] => [.text name]
  | none, d => .text (name ++ " ") :: d
  | some cc, [] => [.text (name ++ " " ++ cc.name)]
  | some cc, d => .text (name ++ " " ++ cc.name ++ ",") :: d

/-- An operation on a bit of a slot. -/
def bitForm (name : String) (n : Fin 8) (slot : Slot) : List Piece :=
  [.text (name ++ " " ++ toString n.val ++ "," ++ slot.name)]

/-- How an operation is written. -/
def Op.form : Op → List Piece
  | nop => [.text "NOP"]
  | stop => [.text "STOP"]
  | halt => [.text "HALT"]
  | di => [.text "DI"]
  | ei => [.text "EI"]
  | storeSp => [.text "LD (", .address, .text "),SP"]
  | loadPair pair => [.text ("LD " ++ pair.name ++ ","), .word]
  | addHl pair => [.text ("ADD HL," ++ pair.name)]
  | storeA pointer => [.text ("LD " ++ pointer.name ++ ",A")]
  | loadA pointer => [.text ("LD A," ++ pointer.name)]
  | incPair pair => [.text ("INC " ++ pair.name)]
  | decPair pair => [.text ("DEC " ++ pair.name)]
  | inc slot => [.text ("INC " ++ slot.name)]
  | dec slot => [.text ("DEC " ++ slot.name)]
  | loadImm slot => [.text ("LD " ++ slot.name ++ ","), .byte]
  | rlca => [.text "RLCA"]
  | rrca => [.text "RRCA"]
  | rla => [.text "RLA"]
  | rra => [.text "RRA"]
  | daa => [.text "DAA"]
  | cpl => [.text "CPL"]
  | scf => [.text "SCF"]
  | ccf => [.text "CCF"]
  | jr cond => branchForm "JR" cond [.target]
  | move dst src => [.text ("LD " ++ dst.name ++ "," ++ src.name)]
  | alu op slot => [.text (op.mnemonic ++ " " ++ slot.name)]
  | aluImm op => [.text (op.mnemonic ++ " "), .byte]
  | ret cond => branchForm "RET" cond []
  | reti => [.text "RETI"]
  | pop pair => [.text ("POP " ++ pair.name)]
  | push pair => [.text ("PUSH " ++ pair.name)]
  | jp cond => branchForm "JP" cond [.address]
  | jpHl => [.text "JP (HL)"]
  | call cond => branchForm "CALL" cond [.address]
  | rst n => [.text ("RST $" ++ Hex.byte (restartVector n))]
  | storeHigh => [.text "LDH (", .highAddress, .text "),A"]
  | loadHigh => [.text "LDH A,(", .highAddress, .text ")"]
  | storeHighC => [.text "LDH (C),A"]
  | loadHighC => [.text "LDH A,(C)"]
  | storeAbs => [.text "LD (", .address, .text "),A"]
  | loadAbs => [.text "LD A,(", .address, .text ")"]
  | addSp => [.text "ADD SP,", .displacement]
  | loadHlSp => [.text "LD HL,SP+", .displacement]
  | loadSpHl => [.text "LD SP,HL"]
  | escape => [.text "PREFIX CB"]
  | shift op slot => [.text (op.mnemonic ++ " " ++ slot.name)]
  | bit n slot => bitForm "BIT" n slot
  | res n slot => bitForm "RES" n slot
  | set n slot => bitForm "SET" n slot
  | undefined byte => [.text ("DB $" ++ Hex.byte byte)]

/-- The form of an opcode, with a placeholder where the literal goes. -/
def Opcode.mnemonic (code : Opcode) : String := String.join (code.op.form.map Piece.placeholder)

/-- The text of an instruction. -/
def Instruction.text (i : Instruction) : String := String.join (i.op.form.map (Piece.fill i))

end Sm83
