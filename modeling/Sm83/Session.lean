/-
Debugging sessions: what is done with a cartridge image, and what is printed about it.

A session lists the code of the image or runs it.  A run takes steps until it reaches its
limit, a breakpoint, a fault or the stop mode.  At the end it prints the breakpoint that
was hit, the text that was sent over the serial interface and the state of the processor.
-/
import Sm83.Config
import Sm83.Disassembly
import Sm83.FlatMemory
import Sm83.OpenCable

namespace Sm83

/-- How a session ends for whoever started it. -/
inductive ExitStatus where
  | success
  | failure
  | usage
  deriving DecidableEq, Repr

def ExitStatus.code : ExitStatus → UInt32
  | .success => 0
  | .failure => 1
  | .usage => 2

/-- What a session leaves behind. -/
structure Report where
  status : ExitStatus
  output : String
  deriving DecidableEq, Repr

namespace Session

/-! ### Running -/

/-- Why a run ended. -/
inductive Ending where
  | limit
  | stopped
  | hit (hit : Hit)
  | fault (fault : Fault)
  deriving DecidableEq, Repr

/-- What a run leaves behind. -/
structure Finish (M C : Type) where
  cpu : Cpu
  serial : SerialInterface M C
  ending : Ending

variable {M C : Type} [Memory M] [Cable C]

/-- The cycles that the cable is told of after a step, which is told of 255 at most. -/
def ticksBetween (before after : Cpu) : Byte :=
  UInt8.ofNat (min (after.cycles - before.cycles) 255)

/--
Takes up to `limit` steps, as long as no breakpoint is in the way.

The cable is told how long each step took.
-/
@[specialize] def run (sets : Breakpoints) (ignored : Bool) :
    (limit : Nat) → Cpu → SerialInterface M C → Finish M C
  | 0, cpu, serial => ⟨cpu, serial, .limit⟩
  | limit + 1, cpu, serial =>
    match (cpu.obstacle sets ignored).run serial with
    | (.error fault, serial) => ⟨cpu, serial, .fault fault⟩
    | (.ok (some hit), serial) => ⟨cpu, serial, .hit hit⟩
    | (.ok none, serial) =>
      match cpu.step.run serial with
      | (.error fault, serial) => ⟨cpu, serial, .fault fault⟩
      | (.ok after, serial) =>
        let serial := serial.tick (ticksBetween cpu after)
        if after.stopped then ⟨after, serial, .stopped⟩ else run sets ignored limit after serial

/-- Looks for peers at the far end and tries to connect to one, which may fail. -/
def link (serial : SerialInterface M C) (name : String) : SerialInterface M C :=
  let (_, cable) := Cable.discover serial.cable
  let (_, cable) := Cable.connect cable name
  { serial with cable }

/-- The line about a breakpoint that was hit. -/
def hitLine (hit : Hit) : String :=
  "Breakpoint (" ++ hit.kind.name ++ ") on $" ++ Hex.word hit.addr ++ " at PC=$" ++
    Hex.word hit.pc ++ "\n"

/-- The text sent over the serial interface, on lines of its own, if there is any. -/
def serialLines (sent : Array Byte) : String :=
  if sent.isEmpty then "" else Utf8.lossy sent.toList ++ "\n"

def report (finish : Finish M C) : Report :=
  let hit := match finish.ending with
    | .hit hit => hitLine hit
    | _ => ""
  let status := match finish.ending with
    | .fault _ => .failure
    | _ => .success
  { status, output := hit ++ serialLines finish.serial.sent ++ finish.cpu.describe ++ "\n" }

/-! ### Requests -/

/-- What is to be done with the image. -/
inductive Action where
  /-- Lists the code reachable from an address, with one way out of conditional branches or two. -/
  | list (start : Word) (strict : Bool)
  /-- Runs the image from the address after start-up. -/
  | run (steps : Option Nat) (peer : Option String) (ignoreBreakpoints : Bool)
  deriving DecidableEq, Repr

def initialCpu (config : Config) : Cpu :=
  match config.start with
  | some start => { Cpu.powerOn with regs := { Registers.powerOn with pc := start } }
  | none => .powerOn

def initialSerial (rom : List Byte) (peer : Option String) : SerialInterface FlatMemory OpenCable :=
  let serial := SerialInterface.plug (FlatMemory.ofRom rom) OpenCable.unplugged
  match peer with
  | some name => link serial name
  | none => serial

/-- Does what was asked for with an image and a configuration. -/
def performOn (rom : List Byte) (config : Config) : Action → Report
  | .list start strict =>
    let permissive := config.permissive && !strict
    ⟨.success, Disassembly.listing (FlatMemory.ofRom rom) start permissive⟩
  | .run steps peer ignoreBreakpoints =>
    report (run config.breakpoints ignoreBreakpoints (steps.getD config.steps)
      (initialCpu config) (initialSerial rom peer))

/-- Does what was asked for with a configuration and an image, which may be missing. -/
def performWith (config : Config) (action : Action) : Option (List Byte) → Report
  | none => ⟨.failure, ""⟩
  | some rom => performOn rom config action

/-- Does what was asked for, given the contents of the two files, either of which may be missing. -/
def perform (action : Action) (rom config : Option (List Byte)) : Report :=
  performWith (Config.load config) action rom

end Session

end Sm83
