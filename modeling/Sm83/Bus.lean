/-
Programs that use memory.

What the processor does to memory is written as a program: a tree of byte reads,
each with its continuations, and byte writes.  The program does not know what it runs
on.  Run on a memory it gives a result and the memory after it; run for its trace it
also tells which bytes were touched, and in which order.  So "the step reads nothing
else" and "the step makes exactly these writes" are statements about one value.
-/
import Sm83.Word

namespace Sm83

/-- Something that holds a byte at every address, and may react to being written. -/
class Memory (M : Type) where
  read : M → Word → Byte
  write : M → Word → Byte → M

/-- A program of reads and writes with a result. -/
inductive Bus (α : Type) where
  | done (result : α)
  | read (addr : Word) (rest : Byte → Bus α)
  | write (addr : Word) (value : Byte) (rest : Bus α)

/-- One byte moved over the bus. -/
inductive Transfer where
  | read (addr : Word)
  | write (addr : Word) (value : Byte)
  deriving DecidableEq, Repr

namespace Bus

variable {α β : Type}

/-- Runs `p`, then the program its result chooses. -/
@[specialize] def bind : Bus α → (α → Bus β) → Bus β
  | done a, f => f a
  | read addr rest, f => read addr fun b => (rest b).bind f
  | write addr value rest, f => write addr value (rest.bind f)

instance : Monad Bus where
  pure := done
  bind := bind

/-! ### Small programs -/

def readByte (addr : Word) : Bus Byte := read addr done

def writeByte (addr : Word) (value : Byte) : Bus Unit := write addr value (done ())

/-- Reads a word, the low byte first. -/
def readWord (addr : Word) : Bus Word := do
  let low ← readByte addr
  let high ← readByte (addr + 1)
  return Word.ofBytes high low

/-- Writes a word, the low byte first. -/
def writeWord (addr : Word) (value : Word) : Bus Unit := do
  writeByte addr (Word.low value)
  writeByte (addr + 1) (Word.high value)

/-! ### Running -/

/-- The result of a program on a memory, and the memory after it. -/
@[specialize] def run {M : Type} [Memory M] : Bus α → M → α × M
  | done a, m => (a, m)
  | read addr rest, m => run (rest (Memory.read m addr)) m
  | write addr value rest, m => run rest (Memory.write m addr value)

/-- The bytes a program moves when it runs on a memory, in order, and what `run` gives. -/
@[specialize] def record {M : Type} [Memory M] : Bus α → M → List Transfer × α × M
  | done a, m => ([], a, m)
  | read addr rest, m =>
    let (log, after) := record (rest (Memory.read m addr)) m
    (.read addr :: log, after)
  | write addr value rest, m =>
    let (log, after) := record rest (Memory.write m addr value)
    (.write addr value :: log, after)

/-- The bytes a program moves when it runs on a memory, in order. -/
def trace {M : Type} [Memory M] (p : Bus α) (m : M) : List Transfer := (p.record m).1

/-- The result of a program alone. -/
def eval {M : Type} [Memory M] (p : Bus α) (m : M) : α := (p.run m).1

/-- The memory after a program alone. -/
def exec {M : Type} [Memory M] (p : Bus α) (m : M) : M := (p.run m).2

end Bus

namespace Transfer

def read? : Transfer → Option Word
  | read addr => some addr
  | write _ _ => none

/-- The address and the value, if the transfer is a write. -/
def write? : Transfer → Option (Word × Byte)
  | read _ => none
  | write addr value => some (addr, value)

end Transfer

/-- The addresses a trace reads, in order. -/
def readsOf (log : List Transfer) : List Word := log.filterMap Transfer.read?

/-- The writes of a trace, in order. -/
def writesOf (log : List Transfer) : List (Word × Byte) := log.filterMap Transfer.write?

end Sm83
