/-
Interrupts: the sources, the two memory-mapped registers that request and allow them,
and the master switch with its delay.
-/
import Sm83.Bus

namespace Sm83

/-! ### Sources -/

/-- What can interrupt the processor, the most urgent first. -/
inductive Interrupt where
  | vblank
  | lcdStat
  | timer
  | serial
  | joypad
  deriving DecidableEq, Repr

namespace Interrupt

/-- The address of the register of requested interrupts. -/
def requestAddr : Word := 0xFF0F

/-- The address of the register of allowed interrupts. -/
def enableAddr : Word := 0xFFFF

/-- The bits that stand for a source. -/
def sourceMask : Byte := 0x1F

/-- The sources, the most urgent first. -/
def all : List Interrupt := [vblank, lcdStat, timer, serial, joypad]

def bit : Interrupt → Byte
  | vblank => 0x01
  | lcdStat => 0x02
  | timer => 0x04
  | serial => 0x08
  | joypad => 0x10

/-- The address of the handler of a source. -/
def vector : Interrupt → Word
  | vblank => 0x40
  | lcdStat => 0x48
  | timer => 0x50
  | serial => 0x58
  | joypad => 0x60

/-- The most urgent source whose bit is set. -/
def highest (mask : Byte) : Option Interrupt := all.find? fun irq => mask &&& irq.bit != 0

/-- The sources that are both requested and allowed. -/
def pending : Bus Byte := do
  let enabled ← Bus.readByte enableAddr
  let requested ← Bus.readByte requestAddr
  return enabled &&& requested &&& sourceMask

def request (irq : Interrupt) : Bus Unit := do
  let requested ← Bus.readByte requestAddr
  Bus.writeByte requestAddr (requested ||| irq.bit)

def acknowledge (irq : Interrupt) : Bus Unit := do
  let requested ← Bus.readByte requestAddr
  Bus.writeByte requestAddr (requested &&& ~~~irq.bit)

end Interrupt

/-! ### The master switch -/

/--
The master switch, and how many instructions have still to retire until it turns on.

Zero says that nobody asked for it to turn on.
-/
structure MasterEnable where
  on : Bool
  delay : Nat
  deriving DecidableEq, Repr

namespace MasterEnable

/-- Off, and going to stay off. -/
def off : MasterEnable := ⟨false, 0⟩

/-- Turns the switch at once, whatever was under way. -/
def set (value : Bool) : MasterEnable := ⟨value, 0⟩

/-- Whether the switch is off and about to turn on. -/
def isPending (m : MasterEnable) : Bool := m.delay > 0

/-- Lets the switch turn on with the instruction after the present one. -/
def arm (m : MasterEnable) : MasterEnable := if m.on then m else { m with delay := 2 }

/-- Counts one retired instruction. -/
def retire (m : MasterEnable) : MasterEnable :=
  match m.delay with
  | 0 => m
  | 1 => ⟨true, 0⟩
  | n + 1 => { m with delay := n }

end MasterEnable

end Sm83
