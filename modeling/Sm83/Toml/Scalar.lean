/-
Values that are written without brackets and quotation marks: truth values, numbers and
points in time.

A number is recognised by its shape first: its underscores have to stand between digits,
and a decimal number must not begin with a zero it does not need.  Whether there is a
number of that shape is another question.  After an underscore in a decimal integer any
text that begins with a digit and has no blank in it will do, with A to F as digits, so
that `1_a` has the shape of a number and is none.
-/
import Sm83.Text.Hex
import Sm83.Toml.Value

namespace Sm83.Toml.Scalar

/-! ### Characters -/

/-- The value of a digit below `radix`. -/
def digit? (radix : Nat) (c : Char) : Option Nat := (Hex.value? c).filter (· < radix)

def isDigit (radix : Nat) (c : Char) : Bool := (digit? radix c).isSome

def ofDigits (radix : Nat) (digits : List Nat) : Nat :=
  digits.foldl (fun n d => n * radix + d) 0

/-- Takes a sign off a text. -/
def sign : List Char → Option Char × List Char
  | '-' :: w => (some '-', w)
  | '+' :: w => (some '+', w)
  | w => (none, w)

/-- The number with a given distance from zero. -/
def applySign (sign : Option Char) (n : Nat) : Int := if sign == some '-' then -n else n

/--
Whether every underscore stands between two digits below `radix`.

`afterDigit` says whether a digit stands in front of the text.
-/
def separates (radix : Nat) : (afterDigit : Bool) → List Char → Bool
  | _, [] => true
  | _, ['_'] => false
  | afterDigit, '_' :: c :: w => afterDigit && isDigit radix c && separates radix true w
  | _, c :: w => separates radix (isDigit radix c) w

/-! ### Integers -/

/-- Whether an integer has a place in 128 bits, with a sign or without one. -/
def fits (n : Int) : Bool :=
  if n < 0 then n.natAbs ≤ Nat.pow 2 127 else n.natAbs < Nat.pow 2 128

/-- The integer that a text stands for, leaving underscores out. -/
def integer (radix : Nat) (sign : Option Char) (w : List Char) : Value :=
  match (w.filter (· != '_')).mapM (digit? radix) with
  | none | some [] => .illegible
  | some digits =>
    let n := applySign sign (ofDigits radix digits)
    if fits n then .integer n else .illegible

def radixInteger? (radix : Nat) (w : List Char) : Option Value :=
  if w.all (fun c => c == '_' || isDigit radix c) && separates radix false w then
    some (integer radix none w)
  else none

/-- Reads a decimal integer, of which `w` is what comes after the sign. -/
def decimalInteger? (sign : Option Char) (w : List Char) : Option Value :=
  let rest := w.dropWhile (isDigit 10)
  let isShaped := rest.isEmpty || (rest.head? == some '_' && !rest.contains ' ')
  if w.isEmpty || !isShaped then none
  else if w.head? == some '0' && w != ['0'] then none
  else if separates 16 false w then some (integer 10 sign w)
  else none

/-! ### Floats -/

/--
Whether `n * 10 ^ exponent` is nearer to a finite double than to infinity.

The first number that is not lies half a unit above the largest double.
-/
def isFinite (n : Nat) (exponent : Int) : Bool :=
  let size := (Nat.toDigits 10 n).length
  let bound := Nat.pow 2 1024 - Nat.pow 2 970
  if n == 0 || size + exponent < 309 then true
  else if size + exponent > 309 then false
  else n * Nat.pow 10 exponent.toNat < bound * Nat.pow 10 (-exponent).toNat

/-- Takes a run of digits and underscores off a text; at least one of them is a digit. -/
def digits? (w : List Char) : Option (List Nat × List Char) :=
  let (run, w) := w.span fun c => c == '_' || isDigit 10 c
  let digits := run.filterMap (digit? 10)
  if digits.isEmpty then none else some (digits, w)

/-- Takes the digits after a point off a text, if it begins with a point. -/
def fraction? : List Char → Option (List Nat × List Char)
  | '.' :: w => digits? w
  | w => some ([], w)

def isExponentMark (c : Char) : Bool := c == 'e' || c == 'E'

/-- Takes an exponent off a text, which is zero if there is none. -/
def exponent? : List Char → Option (Int × List Char)
  | [] => some (0, [])
  | c :: w =>
    if isExponentMark c then do
      let (sign, w) := sign w
      let (digits, w) ← digits? w
      return (applySign sign (ofDigits 10 digits), w)
    else some (0, c :: w)

/-- Whether a text after its sign has a point or an exponent, so that it can be a float only. -/
def isFloatLike (w : List Char) : Bool := w.any fun c => c == '.' || isExponentMark c

/-- Reads a float without its sign. -/
def float? (w : List Char) : Option Value := do
  let (whole, rest) ← digits? w
  let (fraction, rest) ← fraction? rest
  let (exponent, rest) ← exponent? rest
  if whole.length > 1 && w.head? == some '0' then none
  else if !rest.isEmpty || !separates 10 false w then none
  else if isFinite (ofDigits 10 (whole ++ fraction)) (exponent - fraction.length) then
    some .float
  else some .illegible

def decimal? (w : List Char) : Option Value :=
  let (sign, w) := sign w
  if w == ['i', 'n', 'f'] || w == ['n', 'a', 'n'] then some .float
  else if isFloatLike w then float? w
  else decimalInteger? sign w

/-! ### Points in time -/

/-- Reads a number of exactly `count` digits. -/
def fixed? (count : Nat) (w : List Char) : Option (Nat × List Char) :=
  if (w.take count).length < count then none
  else do
    let digits ← (w.take count).mapM (digit? 10)
    return (ofDigits 10 digits, w.drop count)

/-- Takes one character of a given kind off a word. -/
def skip? (p : Char → Bool) : List Char → Option (List Char)
  | [] => none
  | c :: w => if p c then some w else none

/-- The number of days of a month. -/
def daysIn (year month : Nat) : Nat :=
  if month == 2 then
    if year % 4 == 0 && (year % 100 != 0 || year % 400 == 0) then 29 else 28
  else if month == 4 || month == 6 || month == 9 || month == 11 then 30
  else 31

def date? (w : List Char) : Option (List Char) := do
  let (year, w) ← fixed? 4 w
  let (month, w) ← fixed? 2 (← skip? (· == '-') w)
  let (day, w) ← fixed? 2 (← skip? (· == '-') w)
  if 1 ≤ month && month ≤ 12 && 1 ≤ day && day ≤ daysIn year month then some w else none

/-- Takes the seconds off a word, if there are any. -/
def seconds? (w : List Char) : Option (List Char) :=
  match w with
  | ':' :: w => do
    let (second, w) ← fixed? 2 w
    if second ≤ 60 then
      match w with
      | '.' :: w =>
        let (fraction, w) := w.span (digit? 10 · |>.isSome)
        if fraction.isEmpty then none else some w
      | w => some w
    else none
  | w => some w

def time? (w : List Char) : Option (List Char) := do
  let (hour, w) ← fixed? 2 w
  let (minute, w) ← fixed? 2 (← skip? (· == ':') w)
  if hour ≤ 23 && minute ≤ 59 then seconds? w else none

/-- Whether a word is the distance of a time zone, or nothing. -/
def isZone (w : List Char) : Bool :=
  match w with
  | [] | ['Z'] | ['z'] => true
  | _ =>
    let rest : Option (List Char) := do
      let w ← skip? (fun c => c == '+' || c == '-') w
      let (hour, w) ← fixed? 2 w
      let (minute, w) ← fixed? 2 (← skip? (· == ':') w)
      if hour ≤ 23 && minute ≤ 59 then some w else none
    rest == some []

def isDateMark (c : Char) : Bool := c == 'T' || c == 't' || c == ' '

/-- Whether a word is a date, a time of day or both. -/
def isDatetime (w : List Char) : Bool :=
  match date? w with
  | some [] => true
  | some (c :: w) => isDateMark c && ((time? w).any isZone)
  | none => time? w == some []

def parse : List Char → Option Value
  | ['t', 'r', 'u', 'e'] => some (.boolean true)
  | ['f', 'a', 'l', 's', 'e'] => some (.boolean false)
  | '0' :: 'x' :: w => radixInteger? 16 w
  | '0' :: 'o' :: w => radixInteger? 8 w
  | '0' :: 'b' :: w => radixInteger? 2 w
  | w => if isDatetime w then some .datetime else decimal? w

end Sm83.Toml.Scalar
