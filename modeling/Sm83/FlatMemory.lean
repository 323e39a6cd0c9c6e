/-
A memory of 65536 bytes, the lower part of which can be read-only.

A cartridge image fills the lower half and cannot be written by a program; whoever
prepares the memory can still load bytes anywhere.
-/
import Sm83.Bus

namespace Sm83

/-- One byte per address, and the address below which writes have no effect. -/
structure FlatMemory where
  bytes : Vector Byte addressSpace
  romEnd : Word

namespace FlatMemory

/-- The size of the part that a cartridge image fills. -/
def romSize : Nat := 0x8000

def zeroed : FlatMemory := ⟨Vector.replicate addressSpace 0, 0⟩

def get (m : FlatMemory) (addr : Word) : Byte := m.bytes.get addr.toFin

/-- Puts a byte at an address, read-only or not. -/
def put (m : FlatMemory) (addr : Word) (value : Byte) : FlatMemory :=
  { m with bytes := m.bytes.set addr.toFin value addr.toFin.isLt }

/-- Writes a byte, which has no effect in the read-only part. -/
def write (m : FlatMemory) (addr : Word) (value : Byte) : FlatMemory :=
  if addr < m.romEnd then m else m.put addr value

instance : Memory FlatMemory where
  read := get
  write := write

/-- Puts bytes at consecutive addresses, going on at zero after the last address. -/
def load (m : FlatMemory) (addr : Word) : List Byte → FlatMemory
  | [] => m
  | b :: rest => load (m.put addr b) (addr + 1) rest

/-- A memory with a cartridge image in its read-only lower half; what does not fit is left out. -/
def ofRom (rom : List Byte) : FlatMemory :=
  { zeroed.load 0 (rom.take romSize) with romEnd := UInt16.ofNat romSize }

end FlatMemory

end Sm83
