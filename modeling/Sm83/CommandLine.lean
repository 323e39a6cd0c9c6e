/-
The command line.

The first word names what to do, and the other words are the path of the image and
options.  An option is given once at most, with its value after an equals sign or in the
next word; a word that looks like an option is no value.
-/
import Sm83.Session

namespace Sm83

/-- What a command line asks for. -/
structure Invocation where
  /-- The path of the cartridge image. -/
  rom : String
  /-- The path of the configuration file, if it is not the usual one. -/
  config : Option String
  action : Session.Action
  deriving DecidableEq, Repr

namespace CommandLine

/-! ### Words -/

/-- Whether a word can only be an option.  A lone hyphen is not. -/
def isOption (word : String) : Bool := word.startsWith "-" && word != "-"

/-- Whether an option is one of those known, and then whether it has a value. -/
abbrev Known := String → Option Bool

/-- The words of a command line, sorted. -/
structure Words where
  /-- The options with their values, in order. -/
  options : List (String × Option String)
  /-- All other words, in order. -/
  others : List String
  deriving DecidableEq, Repr

namespace Words

def none : Words := ⟨[], []⟩

def option (name : String) (value : Option String) (w : Words) : Words :=
  { w with options := (name, value) :: w.options }

def other (word : String) (w : Words) : Words := { w with others := word :: w.others }

def has (w : Words) (name : String) : Bool := w.options.any (·.1 == name)

def value? (w : Words) (name : String) : Option String := (w.options.lookup name).join

/-- Whether no option was given twice. -/
def isProper (w : Words) : Bool := decide (w.options.map Prod.fst).Nodup

end Words

/-- Takes a long option apart: its name and the value after the equals sign, if there is one. -/
def splitOption (word : String) : Option (String × Option String) :=
  match word.toList with
  | '-' :: '-' :: rest =>
    match rest.span (· != '=') with
    | (name, []) => some (String.ofList name, none)
    | (name, _ :: value) => some (String.ofList name, some (String.ofList value))
  | _ => none

/--
Sorts words.  The first one is the value of the option `awaiting`, if there is one.

After a lone double hyphen no word is an option.
-/
def sort (known : Known) : (awaiting : Option String) → List String → Option Words
  | none, [] => some .none
  | some _, [] => none
  | some name, word :: rest =>
    if isOption word then none else (sort known none rest).map (.option name (some word))
  | none, "--" :: rest => some { options := [], others := rest }
  | none, word :: rest =>
    if !isOption word then (sort known none rest).map (.other word)
    else
      match splitOption word with
      | none => none
      | some (name, attached) =>
        match known name, attached with
        | some false, none => (sort known none rest).map (.option name none)
        | some true, some value => (sort known none rest).map (.option name (some value))
        | some true, none => sort known (some name) rest
        | _, _ => none

/-! ### Values -/

/-- Reads a number of steps: decimal digits, with a plus in front of them or not. -/
def steps? (s : String) : Option Nat :=
  let digits := match s.toList with
    | '+' :: digits => digits
    | digits => digits
  if digits.isEmpty || !digits.all Char.isDigit then none
  else
    let n := digits.foldl (fun n c => n * 10 + (c.toNat - 0x30)) 0
    if n < UInt64.size then some n else none

/-- A path, which is not empty. -/
def path? (s : String) : Option String := if s.isEmpty then none else some s

/-- What `read` makes of the value of an option; an option that was not given stays so. -/
def optional {α : Type} (read : String → Option α) : Option String → Option (Option α)
  | none => some none
  | some s => (read s).map some

/-! ### Commands -/

/-- The option that asks for more messages, which every command has. -/
def isCommon (name : String) : Bool := name == "debug"

def listOptions : Known := fun name =>
  if name == "start" || name == "config" then some true
  else if name == "strict" || isCommon name then some false
  else none

def runOptions : Known := fun name =>
  if name == "steps" || name == "config" || name == "link" then some true
  else if name == "no-breakpoints" || isCommon name then some false
  else none

/-- What the words of a command ask for. -/
def invocation? (known : Known) (words : List String) (action? : Words → Option Session.Action) :
    Option Invocation := do
  let w ← sort known none words
  if !w.isProper then none
  else
    let [rom] := w.others | none
    return {
      rom := ← path? rom
      config := ← optional path? (w.value? "config")
      action := ← action? w }

def listAction? (w : Words) : Option Session.Action := do
  let start ← (Address.parse ((w.value? "start").getD "0100")).toOption
  return .list start (w.has "strict")

def runAction? (w : Words) : Option Session.Action := do
  let steps ← optional steps? (w.value? "steps")
  return .run steps (w.value? "link") (w.has "no-breakpoints")

/-- What a command line without common options in front asks for. -/
def command? : List String → Option Invocation
  | "disasm" :: words => invocation? listOptions words listAction?
  | "run" :: words => invocation? runOptions words runAction?
  | _ => none

/-- What a command line asks for, or nothing if it is not a proper one. -/
def parse : List String → Option Invocation
  | "--debug" :: words => command? words
  | words => command? words

end CommandLine

namespace Invocation

/-- The path of the configuration file, given the directories of the environment. -/
def configPath (i : Invocation) (configHome home : Option String) : String :=
  i.config.getD (Config.defaultPath configHome home)

end Invocation

end Sm83
