import NetStack.Simulation.Pair
import NetStack.Simulation.Network
import NetStack.Proofs.Tcp.Accounting
import NetStack.Proofs.Tcp.Fidelity
import NetStack.Proofs.Tcp.Following
import NetStack.Proofs.Tcp.Halves
import NetStack.Proofs.Session.Conveyance
import NetStack.Proofs.Session.Agreement
import NetStack.Proofs.Session.FlowControl
import NetStack.Proofs.Tcp.Renumbering
import NetStack.Proofs.Tcp.Nearness
import NetStack.Proofs.Stream.Acceptance
import NetStack.Proofs.Stream.Queue
import NetStack.Proofs.Tcp.InboundEnd
import NetStack.Proofs.Tcp.Linger
import NetStack.Proofs.Tcp.Spelling
import NetStack.Proofs.Tcp.InFlight
import NetStack.Proofs.Tcp.Advertising
import NetStack.Proofs.Session.Quiescence
import NetStack.Proofs.Tcp.Marks
import NetStack.Proofs.Tcp.Arrivals
import NetStack.Proofs.Tcp.History
import NetStack.Proofs.Tcp.Timekeeping
import NetStack.Proofs.Tcp.Exhaustion
import NetStack.Proofs.Tcp.Filling
import NetStack.Proofs.Tcp.Repetition
import NetStack.Proofs.Tcp.Succession
import NetStack.Proofs.Tcp.Acknowledging
import NetStack.Proofs.Tcp.Finality
import NetStack.Proofs.Tcp.Patience
import NetStack.Proofs.Tcp.Listening
import NetStack.Proofs.Tcp.Placement
import NetStack.Proofs.Tcp.Sizing
import NetStack.Proofs.Session.Lockstep
import NetStack.Proofs.Session.Completion
import NetStack.Proofs.Machine.Word
import NetStack.Proofs.Machine.Stream
import NetStack.Proofs.Machine.Reassembler
import NetStack.Proofs.Machine.Sender
import NetStack.Proofs.Machine.Connection
import NetStack.Proofs.Machine.Execution
import NetStack.Proofs.Wire.OnesComplement
import NetStack.Proofs.Wire.Datagram
import NetStack.Proofs.Wire.Segment
import NetStack.Proofs.Wire.Carriage
import NetStack.Proofs.Wire.Sendable
import NetStack.Proofs.Wire.Reproduction
import NetStack.Proofs.Wire.Frame
import NetStack.Proofs.Wire.Residue
import NetStack.Proofs.Wire.Corruption
import NetStack.Proofs.Link.SlotTable
import NetStack.Proofs.Link.Traffic
import NetStack.Proofs.Link.Custody
import NetStack.Proofs.Link.Journey
import NetStack.Proofs.Link.Chronicle
import NetStack.Proofs.Link.Resolution
import NetStack.Proofs.Link.Inquiry
import NetStack.Proofs.Machine.Field
import NetStack.Proofs.Tcp.Admission
import NetStack.Proofs.Machine.Format
import NetStack.Proofs.Machine.Intake
import NetStack.Proofs.Text.Numerals
import NetStack.Proofs.Text.Addresses
import NetStack.Proofs.Machine.Text
import NetStack.Proofs.Link.Handover
import NetStack.Proofs.Routing.Ports
import NetStack.Proofs.Routing.Log
import NetStack.Proofs.Routing.Selection
import NetStack.Proofs.Routing.Precedence
import NetStack.Proofs.Routing.Crossing
import NetStack.Proofs.Routing.Forwarding
import NetStack.Proofs.Link.Exchange
import NetStack.Proofs.Network.Junction
import NetStack.Proofs.Network.Transit
import NetStack.Proofs.Network.Passing
import NetStack.Proofs.Network.Transparency
import NetStack.Proofs.Stream.Canonicity
