/-
Static disassembly.

From an entry point the walk follows every way control can go that the instructions
themselves tell.  It holds a stack of addresses still to visit and the set of all
addresses ever put on it, so that no address is visited twice.  An address where no
instruction can be decoded ends its path.
-/
import Sm83.AddressSet
import Sm83.Cpu
import Sm83.Mnemonic

namespace Sm83

/-- The addresses control can go to from an instruction, in the order they are queued. -/
def Instruction.successors (permissive : Bool) (i : Instruction) : List Word :=
  match i.flow with
  | .next => [i.next]
  | .jump target | .call target | .restart target => [target]
  | .conditionalJump target | .conditionalCall target =>
    if permissive then [target, i.next] else [i.next]
  | .stop => []

/-- A walk that is under way. -/
structure Walk where
  /-- Whether both ways out of a conditional branch are followed. -/
  permissive : Bool
  /-- The addresses still to visit; the first one is next. -/
  work : List Word
  /-- Every address that was ever put in `work`. -/
  queued : AddressSet
  deriving DecidableEq, Repr

namespace Walk

def start (entry : Word) (permissive : Bool) : Walk :=
  { permissive, work := [entry], queued := AddressSet.empty.insert entry }

/-- Puts an address on the stack unless it was there before. -/
def enqueue (w : Walk) (addr : Word) : Walk :=
  if w.queued.contains addr then w
  else { w with work := addr :: w.work, queued := w.queued.insert addr }

def follow (w : Walk) (i : Instruction) : Walk := (i.successors w.permissive).foldl enqueue w

variable {M : Type} [Memory M]

/-- The instruction at an address of a memory. -/
def instructionAt (m : M) (addr : Word) : Except Fault Instruction := (Cpu.fetch addr).eval m

/-- Pops addresses from `work` until one has an instruction. -/
def nextFrom (m : M) (permissive : Bool) (queued : AddressSet) :
    List Word → Option (Instruction × Walk)
  | [] => none
  | addr :: work =>
    match instructionAt m addr with
    | .ok i => some (i, follow { permissive, work, queued } i)
    | .error _ => nextFrom m permissive queued work

/-- Visits one more instruction. -/
def next (w : Walk) (m : M) : Option (Instruction × Walk) :=
  nextFrom m w.permissive w.queued w.work

/-- Visits up to `n` more instructions. -/
def take (m : M) : Nat → Walk → List Instruction × Walk
  | 0, w => ([], w)
  | n + 1, w =>
    match w.next m with
    | none => ([], w)
    | some (i, w) =>
      let (rest, w) := take m n w
      (i :: rest, w)

/-- Visits all that is left.  There are no more instructions than addresses. -/
def rest (w : Walk) (m : M) : List Instruction := (w.take m addressSpace).1

end Walk

namespace Disassembly

variable {M : Type} [Memory M]

/-- The instructions reachable from an entry point, in the order the walk finds them. -/
def discovered (m : M) (entry : Word) (permissive : Bool) : List Instruction :=
  (Walk.start entry permissive).rest m

/-- The instructions reachable from an entry point, by address. -/
def instructions (m : M) (entry : Word) (permissive : Bool) : List Instruction :=
  (discovered m entry permissive).mergeSort fun i j => i.addr ≤ j.addr

/-! ### Listing -/

/-- The bytes of a memory from an address on, each in two digits, with blanks between. -/
def formatBytes (addr : Word) (count : Nat) : Bus String := do
  let bytes ← (List.range count).mapM fun n => Bus.readByte (addr + UInt16.ofNat n)
  return " ".intercalate (bytes.map Hex.byte)

def bytesWidth : Nat := 9

/-- A text with blanks after it up to a width. -/
def padTo (width : Nat) (s : String) : String :=
  s ++ String.ofList (List.replicate (width - s.length) ' ')

/-- One line: the address, the bytes and the text of an instruction. -/
def line (m : M) (i : Instruction) : String :=
  let bytes := (formatBytes i.addr i.length).eval m
  Hex.word i.addr ++ ": " ++ padTo bytesWidth bytes ++ " " ++ i.text ++ "\n"

/-- The lines of all instructions reachable from an entry point, by address. -/
def listing (m : M) (entry : Word) (permissive : Bool) : String :=
  String.join ((instructions m entry permissive).map (line m))

end Disassembly

end Sm83
