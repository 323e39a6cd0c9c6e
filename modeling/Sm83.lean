import Sm83.Main
import Sm83.Run
import Sm83.Proofs.Bus
import Sm83.Proofs.FlatMemory
import Sm83.Proofs.Decode
import Sm83.Proofs.Execute
import Sm83.Proofs.Dispatch
import Sm83.Proofs.Accesses
import Sm83.Proofs.EnableDelay
import Sm83.Proofs.Prediction
import Sm83.Proofs.Hits
import Sm83.Proofs.Reachable
import Sm83.Proofs.HaltBug
import Sm83.Proofs.Dependence
import Sm83.Proofs.RepeatedByte
import Sm83.Proofs.Walk
import Sm83.Proofs.StaticFlow
import Sm83.Proofs.GuardedStep
import Sm83.Proofs.InPlace
import Sm83.Proofs.Faults
import Sm83.Proofs.Halt
import Sm83.Proofs.Modes
import Sm83.Proofs.Drain
import Sm83.Proofs.Cycles
import Sm83.Proofs.StoppingPoint
import Sm83.Proofs.Meter
import Sm83.Proofs.Operations
import Sm83.Proofs.Transparency
import Sm83.Proofs.Transfers
import Sm83.Proofs.Cartridge
import Sm83.Proofs.Footprint
import Sm83.Proofs.Encoding
import Sm83.Proofs.Hex
import Sm83.Proofs.Reading
import Sm83.Proofs.Texts
import Sm83.Proofs.Carry
import Sm83.Proofs.Columns
import Sm83.Proofs.Binary
import Sm83.Proofs.Decimal
import Sm83.Proofs.Shifts
import Sm83.Proofs.Registers
import Sm83.Proofs.Slots
import Sm83.Proofs.FlagEffects
import Sm83.Proofs.Stack
import Sm83.Proofs.Listing
import Sm83.Proofs.RegisterFile
import Sm83.Proofs.Loading
import Sm83.Proofs.AddressText
import Sm83.Proofs.Configuration
