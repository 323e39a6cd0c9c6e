/-
Reading a document.

A document is a sequence of lines that open a table or set a key.  The reader keeps the
tables read so far and the path of the table that is open.  Its recursions are bounded by
the length of the text, since every round takes at least one character, and the nesting of
values by a depth of its own.
-/
import Sm83.Toml.Quotation
import Sm83.Toml.Scalar

namespace Sm83.Toml

/-- A reader takes characters off the front of a text, or fails. -/
abbrev Reader := StateT (List Char) Option

namespace Reader

/-- How deep arrays and tables in braces may be nested. -/
def maxDepth : Nat := 80

/-- How many parts a key may have. -/
def maxKeyParts : Nat := 80

/-! ### Characters -/

def isSpace (c : Char) : Bool := c == ' ' || c == '\t'

/-- Whether a key can be written with this character and without quotation marks. -/
def isBare (c : Char) : Bool := c.isAlphanum || c == '_' || c == '-'

def isQuote (c : Char) : Bool := c == '"' || c == '\''

/-- Whether a value without brackets and quotation marks may hold a character. -/
def isScalar (c : Char) : Bool :=
  !(c == '\n' || c == '\r' || c == '#' || c == ',' || c == '=' || c == '[' || c == ']' ||
    c == '\x7b' || c == '\x7d')

def expect (c : Char) : Reader Unit := fun s =>
  match s with
  | d :: rest => if c == d then some ((), rest) else none
  | [] => none

def peek : Reader (Option Char) := fun s => some (s.head?, s)

def takeWhile (p : Char → Bool) : Reader (List Char) := fun s => some (s.span p)

def spaces : Reader Unit := do discard (takeWhile isSpace)

/-- A text without the white space, line ends and comments it begins with. -/
def dropGap : (comment : Bool) → List Char → Option (List Char)
  | _, [] => some []
  | _, '\n' :: rest => dropGap false rest
  | _, '\r' :: '\n' :: rest => dropGap false rest
  | true, c :: rest => if Quotation.isControl c then none else dropGap true rest
  | false, '#' :: rest => dropGap true rest
  | false, c :: rest => if isSpace c then dropGap false rest else some (c :: rest)

def gap : Reader Unit := fun s => (dropGap false s).map ((), ·)

/-- Takes the rest of a line, which may hold a comment and nothing else. -/
def endLine : Reader Unit := fun s =>
  let s := s.dropWhile isSpace
  let s := if s.head? == some '#' then s.dropWhile (!Quotation.isControl ·) else s
  match s with
  | [] => some ((), [])
  | '\n' :: rest => some ((), rest)
  | '\r' :: '\n' :: rest => some ((), rest)
  | _ => none

/-! ### Keys -/

/-- One part of a key. -/
def keyPart : Reader String := do
  match ← peek with
  | some '"' | some '\'' => Quotation.line?
  | _ =>
    let name ← takeWhile isBare
    if name.isEmpty then failure else return String.ofList name

/-- The parts of a key, of which at most `limit` are left. -/
def keyParts : Nat → Reader (List String)
  | 0 => failure
  | limit + 1 => do
    let part ← keyPart
    spaces
    if (← peek) == some '.' then
      expect '.'
      spaces
      return part :: (← keyParts limit)
    else return [part]

def key : Reader (List String) := keyParts maxKeyParts

/-- The tables that a key passes through, and its last part. -/
def splitKey (parts : List String) : Reader (List String × String) :=
  match parts.getLast? with
  | some last => return (parts.dropLast, last)
  | none => failure

/-! ### Values -/

/--
Splits a text behind the value without brackets and quotation marks that it begins with.

White space may be in the middle of the value and is left out at its end.  A quotation mark
behind white space begins a string and does not belong to the value; any other does.
-/
def splitScalar (reversed : List Char) : List Char → List Char × List Char
  | [] => ((reversed.dropWhile isSpace).reverse, [])
  | c :: rest =>
    if isScalar c && !(isQuote c && reversed.head?.any isSpace) then
      splitScalar (c :: reversed) rest
    else ((reversed.dropWhile isSpace).reverse, c :: rest)

/-- A value without brackets and quotation marks. -/
def scalar : Reader Value := fun s =>
  let (w, rest) := splitScalar [] s
  (Scalar.parse w).map (·, rest)

mutual

/-- A value, read in at most `limit` rounds, in which so many more levels may be nested. -/
def value : Nat → Nat → Reader Value
  | 0, _ => failure
  | limit + 1, depth => do
    match ← peek, depth with
    | some '"', _ | some '\'', _ => return .string (← Quotation.any?)
    | some '[', depth + 1 =>
      expect '['
      gap
      arrayItems limit depth []
    | some '\x7b', depth + 1 =>
      expect '\x7b'
      gap
      braceEntries limit depth []
    | _, _ => scalar

/-- The rest of an array of which some items have been read. -/
def arrayItems : Nat → Nat → List Value → Reader Value
  | 0, _, _ => failure
  | limit + 1, depth, reversed => do
    if (← peek) == some ']' then
      expect ']'
      return .array reversed.reverse
    else
      let v ← value limit depth
      gap
      if (← peek) == some ',' then
        expect ','
        gap
        arrayItems limit depth (v :: reversed)
      else
        expect ']'
        return .array (v :: reversed).reverse

/-- The rest of a table in braces of which some entries have been read. -/
def braceEntries : Nat → Nat → Entries → Reader Value
  | 0, _, _ => failure
  | limit + 1, depth, entries => do
    if (← peek) == some '\x7d' then
      expect '\x7d'
      return .table .braces entries
    else
      let (path, key) ← splitKey (← key)
      gap
      expect '='
      gap
      let v ← value limit depth
      match entries.addDotted path key v with
      | none => failure
      | some entries =>
        gap
        if (← peek) == some ',' then
          expect ','
          gap
          braceEntries limit depth entries
        else
          expect '\x7d'
          return .table .braces entries

end

/-! ### Lines -/

/-- The tables read so far and the path of the open one. -/
structure Draft where
  root : Entries
  opened : List String

/-- A line that opens a table, or one more table of an array. -/
def headerLine (draft : Draft) : Reader Draft := do
  expect '['
  let item := (← peek) == some '['
  if item then expect '['
  spaces
  let parts ← key
  let (path, key) ← splitKey parts
  expect ']'
  if item then expect ']'
  endLine
  let root := if item then draft.root.openItem path key else draft.root.openTable path key
  match root with
  | some root => return { root, opened := parts }
  | none => failure

/-- A line that sets a key. -/
def entryLine (limit : Nat) (draft : Draft) : Reader Draft := do
  let (path, key) ← splitKey (← key)
  expect '='
  spaces
  let v ← value limit maxDepth
  endLine
  match draft.root.modifyOpen (·.addDotted path key v) draft.opened with
  | some root => return { draft with root }
  | none => failure

/-- All lines, of which there are at most `limit`. -/
def lines (limit : Nat) : Nat → Draft → Reader Entries
  | 0, _ => failure
  | count + 1, draft => do
    gap
    match ← peek with
    | none => return draft.root
    | some '[' => lines limit count (← headerLine draft)
    | some _ => lines limit count (← entryLine limit draft)

end Reader

/-- A text without the mark that may stand at its beginning. -/
def dropMark : List Char → List Char
  | '\ufeff' :: rest => rest
  | s => s

def parse (text : String) : Option Entries :=
  let s := dropMark text.toList
  -- A nested value takes two rounds for each of its characters at most.
  let limit := 2 * s.length + 2
  ((Reader.lines limit limit ⟨[], []⟩).run s).map Prod.fst

end Sm83.Toml
