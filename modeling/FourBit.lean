import FourBit.Action
import FourBit.Cells
import FourBit.Class
import FourBit.Clock
import FourBit.Command.Assignment
import FourBit.Command.Folder
import FourBit.Command.Report
import FourBit.Command.Request
import FourBit.Command.Switches
import FourBit.Error
import FourBit.Event
import FourBit.Instruction
import FourBit.Instruction.Hex
import FourBit.Instruction.Listing
import FourBit.Json
import FourBit.Json.Reader
import FourBit.Json.Token
import FourBit.Json.Writer
import FourBit.Machine
import FourBit.Machine.Assign
import FourBit.Machine.Execute
import FourBit.Machine.Load
import FourBit.Main
import FourBit.Numeral.Binary64
import FourBit.Numeral.Digit
import FourBit.Numeral.Fixed
import FourBit.Numeral.Format
import FourBit.Numeral.Literal
import FourBit.Numeral.Scientific
import FourBit.Numeral.Shortest
import FourBit.Program
import FourBit.Program.Numeric
import FourBit.Register
import FourBit.Runner
import FourBit.Snapshot
import FourBit.Snapshot.Layout
import FourBit.Status
import FourBit.Store.Decode
import FourBit.Store.Encode
import FourBit.Store.Names
import FourBit.Text.Blank
import FourBit.Text.Capital
import FourBit.Text.CodePoint
import FourBit.Text.Lines
import FourBit.Text.Printable
import FourBit.Text.Quoted
import FourBit.Value
import FourBit.Value.Display
import FourBit.Value.Equality
import FourBit.Variant
import FourBit.Proofs.Machine.Effect
import FourBit.Proofs.Machine.Invariant
import FourBit.Proofs.Machine.Load
import FourBit.Proofs.Machine.Session
import FourBit.Proofs.Machine.Run
import FourBit.Proofs.Runner.Loop
import FourBit.Proofs.Runner.Quiet
import FourBit.Proofs.Clock.Rate
import FourBit.Proofs.Machine.Stack
import FourBit.Proofs.Machine.Flag
import FourBit.Proofs.Machine.Frame
import FourBit.Proofs.Machine.Return
import FourBit.Proofs.Machine.Addressing
import FourBit.Proofs.Machine.Fault
import FourBit.Proofs.Machine.Counter
import FourBit.Proofs.Machine.Straight
import FourBit.Proofs.Machine.Lockstep
import FourBit.Proofs.Machine.Twin
import FourBit.Proofs.Machine.Relocation
import FourBit.Proofs.Numeral.Decimal
import FourBit.Proofs.Text.CodePoint
import FourBit.Proofs.Json.Token
import FourBit.Proofs.Json.RoundTrip
import FourBit.Proofs.Store.RoundTrip
import FourBit.Proofs.Store.Snapshot
import FourBit.Proofs.Machine.Display
import FourBit.Proofs.Store.Unambiguous
import FourBit.Proofs.Text.Lines
import FourBit.Proofs.Instruction.Listing
import FourBit.Proofs.Program.Literal
import FourBit.Proofs.Program.Grammar
import FourBit.Proofs.Program.Composition
import FourBit.Proofs.Program.Rendering
import FourBit.Proofs.Program.Numeric
import FourBit.Proofs.Command.Refusal
import FourBit.Proofs.Command.Arguments
import FourBit.Proofs.Command.Run
import FourBit.Proofs.Command.Presentation
import FourBit.Proofs.Command.Listing
import FourBit.Proofs.Machine.Registers
import FourBit.Proofs.Snapshot.Difference
import FourBit.Proofs.Machine.Accumulation
import FourBit.Proofs.Runner.Record
import FourBit.Proofs.Command.Trace
import FourBit.Proofs.Clock.Bounds
import FourBit.Proofs.Clock.Shift
import FourBit.Proofs.Instruction.Hex
import FourBit.Proofs.Numeral.Format
import FourBit.Proofs.Snapshot.Text
import FourBit.Proofs.Numeral.Literal
import FourBit.Proofs.Command.Assignment
