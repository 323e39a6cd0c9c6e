/-
The serial interface.

Writing the control register with its top bit set sends the data register over the
cable and receives a byte in exchange.  The transfer is over at once: the received byte
is in the data register, the top bit is clear again, and the serial interrupt is
requested.  Every byte sent is also kept, since programs print their results this way.
-/
import Sm83.Fault
import Sm83.Interrupt

namespace Sm83

/-! ### Cables -/

/-- What is at the far end of the serial interface. -/
class Cable (C : Type) where
  /-- The names of the peers that a connection could be made to. -/
  discover : C → List String × C
  /-- Tries to connect to a peer. -/
  connect : C → String → Except Fault Unit × C
  /-- Lets clock cycles pass. -/
  tick : C → Byte → C
  /-- Takes the byte sent and gives the byte received. -/
  exchange : C → Byte → Byte × C

/-! ### The interface -/

/-- A memory with a serial interface in it. -/
structure SerialInterface (M C : Type) where
  memory : M
  cable : C
  sent : Array Byte

namespace SerialInterface

variable {M C : Type} [Memory M] [Cable C]

/-- The address of the data register. -/
def dataAddr : Word := 0xFF01

/-- The address of the control register. -/
def controlAddr : Word := 0xFF02

/-- The bit of the control register that starts a transfer. -/
def startBit : Byte := 0x80

/-- An interface that has sent nothing. -/
def plug (memory : M) (cable : C) : SerialInterface M C := ⟨memory, cable, #[]⟩

/-- Whether a write starts a transfer. -/
def starts (addr : Word) (value : Byte) : Bool := addr == controlAddr && value &&& startBit != 0

/-- Exchanges the data register for a byte from the cable. -/
def transfer (serial : SerialInterface M C) (control : Byte) : SerialInterface M C :=
  let ⟨memory, cable, sent⟩ := serial
  let outgoing := Memory.read memory dataAddr
  let (incoming, cable) := Cable.exchange cable outgoing
  let memory := Memory.write memory dataAddr incoming
  let memory := Memory.write memory controlAddr (control &&& ~~~startBit)
  let requested := Memory.read memory Interrupt.requestAddr
  let memory := Memory.write memory Interrupt.requestAddr (requested ||| Interrupt.serial.bit)
  ⟨memory, cable, sent.push outgoing⟩

/-- Writes a byte, which starts a transfer if it is a control byte with the start bit. -/
def write (serial : SerialInterface M C) (addr : Word) (value : Byte) : SerialInterface M C :=
  if starts addr value then serial.transfer value
  else
    let ⟨memory, cable, sent⟩ := serial
    ⟨Memory.write memory addr value, cable, sent⟩

instance : Memory (SerialInterface M C) where
  read serial addr := Memory.read serial.memory addr
  write := write

/-- Lets clock cycles pass at the far end. -/
def tick (serial : SerialInterface M C) (cycles : Byte) : SerialInterface M C :=
  let ⟨memory, cable, sent⟩ := serial
  ⟨memory, Cable.tick cable cycles, sent⟩

end SerialInterface

end Sm83
