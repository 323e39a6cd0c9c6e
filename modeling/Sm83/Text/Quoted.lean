/-
Text in quotes, as messages show it.

A quotation mark and a backslash are written with a backslash before them, the common
control characters with a letter, and every other character without a visible shape by
its number.
-/
import Sm83.Text.Hex
import Sm83.Text.Visible

namespace Sm83.Text

/-- A code point in lower-case hexadecimal without leading zeros. -/
def codePoint (c : Char) : List Char := Nat.toDigits 16 c.toNat

/-- One character inside quotes. -/
def quoteChar (c : Char) : List Char :=
  match c with
  | '"' => ['\\', '"']
  | '\\' => ['\\', '\\']
  | '\n' => ['\\', 'n']
  | '\r' => ['\\', 'r']
  | '\t' => ['\\', 't']
  | '\x00' => ['\\', '0']
  | c => if isVisible c then [c] else ['\\', 'u', '\x7b'] ++ codePoint c ++ ['\x7d']

def quote (s : String) : String := String.ofList ('"' :: s.toList.flatMap quoteChar ++ ['"'])

end Sm83.Text
