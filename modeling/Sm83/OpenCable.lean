/-
A serial cable without a peer.

Nobody drives the line, so that every received bit is a one; with the line looped back
every byte comes back as it was sent.
-/
import Sm83.Serial
import Sm83.Text.Quoted

namespace Sm83

/-- A cable that leads nowhere, or back to where it came from. -/
structure OpenCable where
  loopback : Bool
  deriving DecidableEq, Repr

namespace OpenCable

def unplugged : OpenCable := ⟨false⟩

/-- The byte received for a byte sent. -/
def reply (cable : OpenCable) (sent : Byte) : Byte := if cable.loopback then sent else 0xFF

instance : Cable OpenCable where
  discover cable := ([], cable)
  connect cable name := (.error (.link ("no link peer named " ++ Text.quote name)), cable)
  tick cable _ := cable
  exchange cable sent := (cable.reply sent, cable)

end OpenCable

end Sm83
