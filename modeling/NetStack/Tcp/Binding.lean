import NetStack.Ipv4.Datagram
import NetStack.Ipv4.Endpoint
import NetStack.Tcp.Packet

namespace NetStack.Tcp

/-- One connection between two endpoints. Without a peer, the sender of the first SYN becomes it. -/
structure Binding where
  own : Ipv4.Endpoint
  peer : Option Ipv4.Endpoint := none
  policy : Checksum.Policy := {}
  hopLimit : UInt8 := Ipv4.defaultHopLimit
  deriving DecidableEq

namespace Binding

def enclose? (binding : Binding) (segment : Segment) : Option Ipv4.Datagram :=
  binding.peer.map fun peer =>
    let stamped := { segment with sourcePort := binding.own.port, destinationPort := peer.port }
    { source := binding.own.address
      destination := peer.address
      protocol := .tcp
      hopLimit := binding.hopLimit
      payload := stamped.toBytes binding.own.address peer.address binding.policy }

def arriving? (binding : Binding) (datagram : Ipv4.Datagram) :
    Option (Ipv4.Endpoint × Segment) := do
  guard (datagram.protocol = .tcp ∧ datagram.destination = binding.own.address)
  let packet : Packet := ⟨datagram.payload⟩
  let segment ← packet.segment? datagram.source datagram.destination binding.policy
  guard (segment.destinationPort = binding.own.port)
  return (⟨datagram.source, segment.sourcePort⟩, segment)

/-- The segment in a datagram, if it belongs to this connection, and the binding after it. -/
def accept (binding : Binding) (datagram : Ipv4.Datagram) : Option Segment × Binding :=
  match binding.arriving? datagram with
  | none => (none, binding)
  | some (source, segment) =>
    match binding.peer with
    | some peer => (if peer = source then some segment else none, binding)
    | none =>
      if segment.flags.syn then (some segment, { binding with peer := some source })
      else (none, binding)

end Binding

end NetStack.Tcp
