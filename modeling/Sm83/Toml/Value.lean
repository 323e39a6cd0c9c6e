/-
Values of the configuration format TOML, and the rules for building tables.

A table can come into being in four ways, and how it did decides who may add to it.  A
header gives a table its contents once.  A header or a dotted key passes through tables
that it names on the way, and makes those that are missing.  A table in braces is complete
when it is written.
-/

namespace Sm83.Toml

/-- How a table came into being. -/
inductive Origin where
  /-- A header named it. -/
  | header
  /-- A longer header passed through it. -/
  | passed
  /-- A dotted key passed through it. -/
  | dotted
  /-- It was written in braces. -/
  | braces
  deriving DecidableEq, Repr

/-- A value.  The entries of a table are in the order they were written. -/
inductive Value where
  | string (s : String)
  | integer (n : Int)
  | float
  /-- A number in form, but too large or not of digits alone: an error if it is looked at. -/
  | illegible
  | boolean (b : Bool)
  | datetime
  | array (items : List Value)
  | table (origin : Origin) (entries : List (String × Value))
  /-- An array of tables, each written under a header of its own, the latest one first. -/
  | tables (latestFirst : List (List (String × Value)))

abbrev Entries := List (String × Value)

namespace Value

/-- The items of an array, however it was written. -/
def items? : Value → Option (List Value)
  | array items => some items
  | tables latestFirst => some (latestFirst.reverse.map (table .header))
  | _ => none

end Value

mutual

/-- Whether every number in a value can be read. -/
def Value.isLegible : Value → Bool
  | .illegible => false
  | .array items => areLegible items
  | .table _ entries => haveLegible entries
  | .tables latestFirst => haveAllLegible latestFirst
  | _ => true

/-- Whether every number in some values can be read. -/
def areLegible : List Value → Bool
  | [] => true
  | v :: rest => v.isLegible && areLegible rest

/-- Whether every number in the values of a table can be read. -/
def haveLegible : List (String × Value) → Bool
  | [] => true
  | (_, v) :: rest => v.isLegible && haveLegible rest

/-- Whether every number in the values of some tables can be read. -/
def haveAllLegible : List (List (String × Value)) → Bool
  | [] => true
  | entries :: rest => haveLegible entries && haveAllLegible rest

end

namespace Entries

def get? (entries : Entries) (key : String) : Option Value := List.lookup key entries

/-- Replaces the value of a key that is there, or adds the key at the end. -/
def put : Entries → String → Value → Entries
  | [], key, v => [(key, v)]
  | (k, old) :: rest, key, v => if k == key then (k, v) :: rest else (k, old) :: put rest key v

/--
Changes the contents of the table at a path with `f`.

The path goes through tables and through the latest table of an array of tables; it makes
tables of the given origin where there are none.  A dotted key does not pass through a
table that a header gave its contents.
-/
def modifyAt (made : Origin) (f : Origin → Entries → Option Entries) :
    Origin → List String → Entries → Option Entries
  | here, [], entries => f here entries
  | _, key :: path, entries =>
    match get? entries key with
    | none => do
      let inner ← modifyAt made f made path []
      return put entries key (.table made inner)
    | some (.table origin inner) =>
      if origin == .braces || (made == .dotted && origin == .header) then none
      else do
        let inner ← modifyAt made f origin path inner
        return put entries key (.table origin inner)
    | some (.tables (inner :: earlier)) => do
      let inner ← modifyAt made f .header path inner
      return put entries key (.tables (inner :: earlier))
    | some _ => none

/-- Adds a key that must be new. -/
def addNew (entries : Entries) (key : String) (v : Value) : Option Entries :=
  match get? entries key with
  | none => some (put entries key v)
  | some _ => none

/-- Adds the value of a dotted key.  Only dotted keys may add to the table they have named. -/
def addDotted (entries : Entries) (path : List String) (key : String) (v : Value) :
    Option Entries :=
  modifyAt .dotted
    (fun origin entries =>
      if !path.isEmpty && origin != .dotted then none else addNew entries key v)
    .header path entries

/-- Lets a header give a table its contents. -/
def openTable (entries : Entries) (path : List String) (key : String) : Option Entries :=
  modifyAt .passed
    (fun _ entries =>
      match get? entries key with
      | none => some (put entries key (.table .header []))
      | some (.table .passed inner) => some (put entries key (.table .header inner))
      | some _ => none)
    .header path entries

/-- Lets a header begin one more table of an array. -/
def openItem (entries : Entries) (path : List String) (key : String) : Option Entries :=
  modifyAt .passed
    (fun _ entries =>
      match get? entries key with
      | none => some (put entries key (.tables [[]]))
      | some (.tables latestFirst) => some (put entries key (.tables ([] :: latestFirst)))
      | some _ => none)
    .header path entries

/-- Changes the contents of the table that the latest header opened. -/
def modifyOpen (f : Entries → Option Entries) (entries : Entries) (path : List String) :
    Option Entries :=
  modifyAt .passed (fun _ entries => f entries) .header path entries

end Entries

end Sm83.Toml
