/-
Strings: basic and literal, on one line and on several.

A string is read by a machine that takes one character at a time.  Its modes say what the
characters before the present one have begun: an escape, a line end, or a row of quotation
marks that may turn out to be the end.
-/
import Sm83.Text.Hex

namespace Sm83.Toml.Quotation

/-- What ends a string and what is special in it. -/
structure Style where
  quote : Char
  /-- Whether three quotation marks are around the string and it may hold line ends. -/
  multiline : Bool
  deriving DecidableEq, Repr

/-- Whether a backslash begins an escape. -/
def Style.escapes (s : Style) : Bool := s.quote == '"'

/-- What the machine is in the middle of. -/
inductive Mode where
  | plain
  /-- A row of quotation marks, of which there are at least this many. -/
  | quotes (count : Nat)
  /-- A carriage return, which a line feed must follow. -/
  | carriageReturn (joining : Bool)
  | backslash
  /-- The number of a character, of which so many digits are missing. -/
  | number (missing value : Nat)
  /-- White space after a backslash that ends a line, which is left out. -/
  | joining (ended : Bool)
  deriving DecidableEq, Repr

/-- What one character does. -/
inductive Step where
  /-- The string goes on. -/
  | more (mode : Mode) (reversed : List Char)
  /-- The string has ended; the character belongs to it or not. -/
  | finished (reversed : List Char) (consumed : Bool)
  | fault

/-- Whether a string or a comment may not hold a character.  A tab is allowed. -/
def isControl (c : Char) : Bool := (c.toNat < 0x20 && c != '\t') || c.toNat == 0x7F

def plainStep (style : Style) (reversed : List Char) (c : Char) : Step :=
  if c == style.quote then
    if style.multiline then .more (.quotes 1) reversed else .finished reversed true
  else if c == '\\' && style.escapes then .more .backslash reversed
  else if c == '\n' && style.multiline then .more .plain (c :: reversed)
  else if c == '\r' && style.multiline then .more (.carriageReturn false) reversed
  else if isControl c then .fault
  else .more .plain (c :: reversed)

/-- The character that a letter after a backslash stands for. -/
def escape? : Char → Option Char
  | 'b' => some '\x08'
  | 't' => some '\t'
  | 'n' => some '\n'
  | 'f' => some '\x0c'
  | 'r' => some '\r'
  | 'e' => some '\x1b'
  | '"' => some '"'
  | '\\' => some '\\'
  | _ => none

/-- The number of digits that a letter after a backslash announces. -/
def digitsAfter? : Char → Option Nat
  | 'x' => some 2
  | 'u' => some 4
  | 'U' => some 8
  | _ => none

def backslashStep (style : Style) (reversed : List Char) (c : Char) : Step :=
  match escape? c, digitsAfter? c with
  | some d, _ => .more .plain (d :: reversed)
  | none, some count => .more (.number count 0) reversed
  | none, none =>
    if !style.multiline then .fault
    else if c == ' ' || c == '\t' then .more (.joining false) reversed
    else if c == '\n' then .more (.joining true) reversed
    else if c == '\r' then .more (.carriageReturn true) reversed
    else .fault

def numberStep (missing value : Nat) (reversed : List Char) (c : Char) : Step :=
  match Hex.value? c with
  | none => .fault
  | some d =>
    let value := value * 16 + d
    if missing > 1 then .more (.number (missing - 1) value) reversed
    else if value.isValidChar then .more .plain (Char.ofNat value :: reversed)
    else .fault

def step (style : Style) (mode : Mode) (reversed : List Char) (c : Char) : Step :=
  match mode with
  | .plain => plainStep style reversed c
  | .quotes count =>
    if c == style.quote then
      if count == 4 then .finished (style.quote :: style.quote :: reversed) true
      else .more (.quotes (count + 1)) reversed
    else if count < 3 then plainStep style (List.replicate count style.quote ++ reversed) c
    else .finished (List.replicate (count - 3) style.quote ++ reversed) false
  | .carriageReturn joining =>
    if c != '\n' then .fault
    else if joining then .more (.joining true) reversed
    else .more .plain (c :: reversed)
  | .backslash => backslashStep style reversed c
  | .number missing value => numberStep missing value reversed c
  | .joining ended =>
    if c == ' ' || c == '\t' then .more (.joining ended) reversed
    else if c == '\n' then .more (.joining true) reversed
    else if c == '\r' then .more (.carriageReturn true) reversed
    else if ended then plainStep style reversed c
    else .fault

/-- Reads the rest of a string; gives its contents and what comes after it. -/
def scan (style : Style) : Mode → List Char → List Char → Option (String × List Char)
  | .quotes count, reversed, [] =>
    if count < 3 then none
    else some (String.ofList (List.replicate (count - 3) style.quote ++ reversed).reverse, [])
  | _, _, [] => none
  | mode, reversed, c :: rest =>
    match step style mode reversed c with
    | .more mode reversed => scan style mode reversed rest
    | .finished reversed true => some (String.ofList reversed.reverse, rest)
    | .finished reversed false => some (String.ofList reversed.reverse, c :: rest)
    | .fault => none

/-- A text without the line end it begins with. -/
def dropLineEnd : List Char → List Char
  | '\n' :: rest => rest
  | '\r' :: '\n' :: rest => rest
  | rest => rest

/-- Reads a string on one line, from the quotation mark on. -/
def line? : List Char → Option (String × List Char)
  | '"' :: rest => scan ⟨'"', false⟩ .plain [] rest
  | '\'' :: rest => scan ⟨'\'', false⟩ .plain [] rest
  | _ => none

/-- Reads any string, from the quotation mark on. -/
def any? : List Char → Option (String × List Char)
  | '"' :: '"' :: '"' :: rest => scan ⟨'"', true⟩ .plain [] (dropLineEnd rest)
  | '\'' :: '\'' :: '\'' :: rest => scan ⟨'\'', true⟩ .plain [] (dropLineEnd rest)
  | s => line? s

end Sm83.Toml.Quotation
