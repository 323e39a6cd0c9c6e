/-
Breakpoints.

A breakpoint is an address in one of three sets: reads, writes or jumps.  Before an
instruction runs, the addresses it is going to touch are predicted from the registers
and, for returns, from the stack; the first of them that is in its set is a hit, and
the instruction does not run.
-/
import Sm83.AddressSet
import Sm83.Cpu

namespace Sm83

/-! ### Prediction -/

/-- The addresses an instruction is going to read and write, in order, and where it jumps. -/
structure Accesses where
  reads : List Word
  writes : List Word
  jump : Option Word
  deriving DecidableEq, Repr

namespace Accesses

def none : Accesses := ⟨[], [], .none⟩

def reading (addr : Word) : Accesses := { none with reads := [addr] }

def writing (addr : Word) : Accesses := { none with writes := [addr] }

/-- One byte read and written back. -/
def modifying (addr : Word) : Accesses := { none with reads := [addr], writes := [addr] }

def jumping (target : Word) : Accesses := { none with jump := some target }

/-- A call, which puts a word on the stack. -/
def calling (sp target : Word) : Accesses :=
  { reads := [], writes := [sp - 1, sp - 2], jump := some target }

/-- The slot, where it is in memory. -/
def slotAddress (r : Registers) : Slot → List Word
  | .atHl => [r.hl]
  | _ => []

end Accesses

namespace Instruction

/-- A return that is taken: its destination is the word on the stack. -/
def returnAccesses (r : Registers) : Bus Accesses := do
  let target ← Bus.readWord r.sp
  return { reads := [r.sp, r.sp + 1], writes := [], jump := some target }

/--
Predicts the accesses of an instruction with the present registers.

A restart is predicted as the call it stands for, unless `depth` says that this has been
done already.  An opcode that cannot be executed is a fault.
-/
def accesses (i : Instruction) (r : Registers) (depth : Nat) : Bus (Except Fault Accesses) :=
  let op := i.op
  match op with
  | .undefined byte => return .error (.undefinedOpcode byte i.addr)
  | .escape => return .error (.keyOutOfRange i.opcode.key)
  | .storeA pointer => return .ok (.writing (r.pointer pointer))
  | .loadA pointer => return .ok (.reading (r.pointer pointer))
  | .loadImm slot => return .ok { Accesses.none with writes := Accesses.slotAddress r slot }
  | .move dst src =>
    return .ok
      { Accesses.none with
        reads := Accesses.slotAddress r src
        writes := Accesses.slotAddress r dst }
  | .alu _ slot | .bit _ slot =>
    return .ok { Accesses.none with reads := Accesses.slotAddress r slot }
  | .inc .atHl | .dec .atHl | .shift _ .atHl | .res _ .atHl | .set _ .atHl =>
    return .ok (.modifying r.hl)
  | .storeSp => return .ok { Accesses.none with writes := [i.literal, i.literal + 1] }
  | .storeHigh => return .ok (.writing (Word.inHighPage i.literalByte))
  | .loadHigh => return .ok (.reading (Word.inHighPage i.literalByte))
  | .storeHighC => return .ok (.writing (Word.inHighPage r.c))
  | .loadHighC => return .ok (.reading (Word.inHighPage r.c))
  | .storeAbs => return .ok (.writing i.literal)
  | .loadAbs => return .ok (.reading i.literal)
  | .push _ => return .ok { Accesses.none with writes := [r.sp - 1, r.sp - 2] }
  | .pop _ => return .ok { Accesses.none with reads := [r.sp, r.sp + 1] }
  | .jr _ => return .ok (if op.branches r.flags then .jumping i.relativeTarget else .none)
  | .jp _ => return .ok (if op.branches r.flags then .jumping i.literal else .none)
  | .jpHl => return .ok (.jumping r.hl)
  | .call _ => return .ok (if op.branches r.flags then .calling r.sp i.literal else .none)
  | .rst n => return .ok (if depth == 0 then .calling r.sp (restartVector n).toUInt16 else .none)
  | .ret _ | .reti =>
    if op.branches r.flags then do return .ok (← returnAccesses r) else return .ok .none
  | _ => return .ok .none

end Instruction

/-! ### Hits -/

/-- What a breakpoint reacted to. -/
inductive BreakpointKind where
  | none
  | read
  | write
  | jump
  deriving DecidableEq, Repr

def BreakpointKind.name : BreakpointKind → String
  | .none => "None"
  | .read => "Read"
  | .write => "Write"
  | .jump => "Jump"

/-- A breakpoint that stopped an instruction. -/
structure Hit where
  kind : BreakpointKind
  addr : Word
  /-- Where the stopped instruction is. -/
  pc : Word
  deriving DecidableEq, Repr

/-- The addresses where reads, writes and jumps are to be stopped, in any order. -/
structure Breakpoints where
  read : List Word
  write : List Word
  jump : List Word
  deriving DecidableEq, Repr

namespace Breakpoints

def none : Breakpoints := ⟨[], [], []⟩

def isEmpty (sets : Breakpoints) : Bool :=
  sets.read.isEmpty && sets.write.isEmpty && sets.jump.isEmpty

/-- The same breakpoints in ascending order, each of them once. -/
def canonical (sets : Breakpoints) : Breakpoints where
  read := (AddressSet.ofList sets.read).toList
  write := (AddressSet.ofList sets.write).toList
  jump := (AddressSet.ofList sets.jump).toList

/-- The first access that is in its set: reads come before writes, and writes before the jump. -/
def firstMatch (sets : Breakpoints) (acc : Accesses) : Option (BreakpointKind × Word) :=
  match acc.reads.find? sets.read.contains with
  | some addr => some (.read, addr)
  | .none =>
    match acc.writes.find? sets.write.contains with
    | some addr => some (.write, addr)
    | .none => (acc.jump.filter sets.jump.contains).map (.jump, ·)

/-- The hit on an instruction, if there is one. -/
def hit (sets : Breakpoints) (i : Instruction) (r : Registers) :
    Bus (Except Fault (Option Hit)) := do
  match ← i.accesses r 0 with
  | .error fault => return .error fault
  | .ok acc => return .ok ((sets.firstMatch acc).map fun (kind, addr) => ⟨kind, addr, i.addr⟩)

/-- The kind of hit on an instruction; a fault shows even if breakpoints are ignored. -/
def check (sets : Breakpoints) (i : Instruction) (r : Registers) (ignored : Bool) :
    Bus (Except Fault BreakpointKind) := do
  match ← i.accesses r 0 with
  | .error fault => return .error fault
  | .ok acc =>
    return .ok (if ignored then .none else (sets.firstMatch acc).elim .none Prod.fst)

end Breakpoints

namespace Cpu

/-- The kind of hit on the instruction that the next step would execute. -/
def check (cpu : Cpu) (sets : Breakpoints) (ignored : Bool) : Bus (Except Fault BreakpointKind) :=
  cpu.withCurrent fun
    | .error fault => return .error fault
    | .ok i => sets.check i cpu.regs ignored

/--
The hit that keeps the processor from taking a step, if there is one.

Breakpoints are looked at only where an instruction is about to be executed.
-/
def obstacle (cpu : Cpu) (sets : Breakpoints) (ignored : Bool) :
    Bus (Except Fault (Option Hit)) :=
  if ignored || cpu.halted || cpu.stopped || sets.isEmpty then return .ok none
  else
    cpu.withCurrent fun
      | .error fault => return .error fault
      | .ok i => sets.hit i cpu.regs

/-- What came of a step that breakpoints can prevent. -/
inductive Progress where
  | stepped (cpu : Cpu)
  | stoppedAt (hit : Hit)
  deriving DecidableEq, Repr

/-- Takes a step unless a breakpoint is in its way. -/
def stepUnlessHit (cpu : Cpu) (sets : Breakpoints) (ignored : Bool) :
    Bus (Except Fault Progress) := do
  match ← cpu.obstacle sets ignored with
  | .error fault => return .error fault
  | .ok (some hit) => return .ok (.stoppedAt hit)
  | .ok none => return (← cpu.step).map .stepped

end Cpu

end Sm83
