/-
What can go wrong.

A fault is a cause; its wording is one function of the cause.
-/
import Sm83.Text.Hex

namespace Sm83

/-- Why an operation did not happen. -/
inductive Fault where
  /-- The byte `opcode` at `addr` is one of the undefined opcodes. -/
  | undefinedOpcode (opcode : Byte) (addr : Word)
  /-- No opcode has the number `key`. -/
  | keyOutOfRange (key : Word)
  /-- The far end of the serial cable refused. -/
  | link (reason : String)
  deriving DecidableEq, Repr

def Fault.message : Fault → String
  | .undefinedOpcode opcode addr =>
    "invalid instruction $" ++ Hex.byte opcode ++ " at $" ++ Hex.word addr
  | .keyOutOfRange key => "opcode key $" ++ Hex.word key ++ " is outside the base/CB opcode space"
  | .link reason => "serial transport: " ++ reason

end Sm83
