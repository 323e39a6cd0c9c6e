/-
Addresses as users write them.

An address is a hexadecimal number of either case, with any number of leading zeros, after
an optional sign `$`, `0x` or `0X` and an optional plus.  Blanks around it do not count.
-/
import Sm83.Text.Blank
import Sm83.Text.Quoted

namespace Sm83

/-- Why a text is not a number. -/
inductive NumberError where
  | empty
  | invalidDigit
  | tooLarge
  deriving DecidableEq, Repr

def NumberError.message : NumberError → String
  | .empty => "cannot parse integer from empty string"
  | .invalidDigit => "invalid digit found in string"
  | .tooLarge => "number too large to fit in target type"

/-- Why a text is not an address. -/
structure AddressError where
  /-- The text without the blanks around it. -/
  text : String
  reason : NumberError
  deriving DecidableEq, Repr

def AddressError.message (e : AddressError) : String :=
  "invalid address " ++ Text.quote e.text ++ ": " ++ e.reason.message

namespace Address

/-- Goes on reading a number of which `acc` has been read. -/
def readDigits (acc : Nat) : List Char → Except NumberError Nat
  | [] => .ok acc
  | c :: rest =>
    match Hex.value? c with
    | none => .error .invalidDigit
    | some d =>
      let n := acc * 16 + d
      if n < addressSpace then readDigits n rest else .error .tooLarge

/-- Reads a number, with a plus in front of it or not. -/
def readNumber : List Char → Except NumberError Nat
  | [] => .error .empty
  | ['+'] => .error .invalidDigit
  | '+' :: digits => readDigits 0 digits
  | digits => readDigits 0 digits

/-- A text without the sign that marks it as hexadecimal. -/
def dropSign : List Char → List Char
  | '$' :: rest => rest
  | '0' :: 'x' :: rest => rest
  | '0' :: 'X' :: rest => rest
  | s => s

def parse (s : String) : Except AddressError Word :=
  let text := Text.trim s.toList
  match readNumber (dropSign text) with
  | .ok n => .ok (UInt16.ofNat n)
  | .error reason => .error ⟨String.ofList text, reason⟩

end Address

end Sm83
