/-
Bytes and words.

The processor computes on eight bits and addresses memory with sixteen, and every
operation on either wraps around.  A word is kept as two bytes: in the register
file the high half comes first, in memory the low half does.  What this file gives
is the passage between the two widths.
-/

namespace Sm83

/-- A unit of memory and of arithmetic. -/
abbrev Byte := UInt8

/-- An address, or the contents of a register pair. -/
abbrev Word := UInt16

abbrev addressSpace : Nat := UInt16.size

namespace Word

/-- The word whose halves are `high` and `low`. -/
def ofBytes (high low : Byte) : Word := (high.toUInt16 <<< 8) ||| low.toUInt16

def high (w : Word) : Byte := (w >>> 8).toUInt8

def low (w : Word) : Byte := w.toUInt8

/-- The word that denotes the same number when both are read as two's complement. -/
def signExtend (b : Byte) : Word := if b < 0x80 then b.toUInt16 else 0xFF00 ||| b.toUInt16

/-- The address at offset `b` of the last page, where the hardware registers are. -/
def inHighPage (b : Byte) : Word := 0xFF00 ||| b.toUInt16

end Word

end Sm83
