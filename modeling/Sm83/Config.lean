/-
The configuration of a debugging session.

It comes from a document whose known keys are all optional and whose unknown keys do not
count.  Loading is all or nothing: if the document cannot be read, or any known key holds
something it must not hold, the whole configuration is the default one.
-/
import Sm83.Address
import Sm83.Breakpoint
import Sm83.Text.Utf8
import Sm83.Toml.Document

namespace Sm83

/-- The choices a user can make in the configuration file. -/
structure Config where
  /-- Where to start instead of the address after start-up. -/
  start : Option Word
  /-- The number of steps after which a run ends. -/
  steps : Nat
  /-- Whether a listing follows both ways out of a conditional branch. -/
  permissive : Bool
  /-- The breakpoints, in the order they are listed. -/
  breakpoints : Breakpoints
  deriving DecidableEq, Repr

namespace Config

open Toml (Value Entries)

/-- What holds where nothing is configured. -/
def default : Config :=
  { start := none, steps := 10000000, permissive := true, breakpoints := .none }

/-! ### Reading values -/

/-- An address, written as a number or as a text. -/
def address? : Value → Option Word
  | .integer n => if 0 ≤ n && n < addressSpace then some (UInt16.ofNat n.toNat) else none
  | .string s => (Address.parse s).toOption
  | _ => none

def steps? : Value → Option Nat
  | .integer n => if 0 ≤ n && n.toNat < UInt64.size then some n.toNat else none
  | _ => none

def boolean? : Value → Option Bool
  | .boolean b => some b
  | _ => none

def addresses? (v : Value) : Option (List Word) := do (← v.items?).mapM address?

/-- What `read` makes of a value that may be missing. -/
def orDefault {α : Type} (read : Value → Option α) (default : α) : Option Value → Option α
  | none => some default
  | some v => read v

/-- The lists of breakpoints, each of which may be missing. -/
def lists? (read write jump : Option Value) : Option Breakpoints := do
  return {
    read := ← orDefault addresses? [] read
    write := ← orDefault addresses? [] write
    jump := ← orDefault addresses? [] jump }

/--
The breakpoints: a table of lists, or an array of lists in the order of the keys.

A point in time counts as a table that has none of the keys.
-/
def breakpoints? : Value → Option Breakpoints
  | .table _ entries =>
    lists? (Entries.get? entries "read") (Entries.get? entries "write")
      (Entries.get? entries "jump")
  | .datetime => some .none
  | v => do
    let items ← v.items?
    lists? items[0]? items[1]? items[2]?

/-- The configuration that a document holds. -/
def ofEntries? (entries : Entries) : Option Config := do
  return {
    start := ← orDefault (fun v => (address? v).map some) default.start (entries.get? "start")
    steps := ← orDefault steps? default.steps (entries.get? "steps")
    permissive := ← orDefault boolean? default.permissive (entries.get? "permissive")
    breakpoints := ← orDefault breakpoints? default.breakpoints (entries.get? "breakpoints") }

/-! ### Loading -/

/--
Whether every number that is looked at can be read.

In an array of breakpoints nobody looks at what follows the three lists.
-/
def isLegible (entries : Entries) : Bool :=
  entries.all fun (key, v) =>
    match v with
    | .array items => Toml.areLegible (if key == "breakpoints" then items.take 3 else items)
    | v => v.isLegible

/-- Reads a document, if it is one and all numbers in it that are looked at can be read. -/
def document? (text : String) : Option Entries := do
  let entries ← Toml.parse text
  if isLegible entries then return entries else none

/-- The configuration in the bytes of a file, of which `read` makes a document. -/
def ofBytes? (read : String → Option Entries) (bytes : List Byte) : Option Config := do
  ofEntries? (← read (← Utf8.decode bytes))

/-- The configuration in a file, or the default one if there is no file or anything is wrong. -/
def loadWith (read : String → Option Entries) (file : Option (List Byte)) : Config :=
  (file.bind (ofBytes? read)).getD default

def load (file : Option (List Byte)) : Config := loadWith document? file

/-! ### Where the file is -/

/-- A path below another one, which may be empty. -/
def join (base name : String) : String :=
  if base.isEmpty || base.endsWith "/" then base ++ name else base ++ "/" ++ name

/-- The file that is used if none is named, given the directories of the environment. -/
def defaultPath (configHome home : Option String) : String :=
  match configHome, home with
  | some dir, _ => join (join dir "lr35902") "debugger.toml"
  | none, some dir => join (join (join dir ".config") "lr35902") "debugger.toml"
  | none, none => "debugger.toml"

end Config

end Sm83
