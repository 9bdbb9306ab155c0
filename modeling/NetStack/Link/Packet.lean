import NetStack.Arp.Message
import NetStack.Ipv4.Datagram

namespace NetStack.Link

inductive Packet where
  | arp (message : Arp.Message)
  | ipv4 (datagram : Ipv4.Datagram)
  deriving DecidableEq

namespace Packet

def type : Packet → Ethernet.EtherType
  | arp _ => .arp
  | ipv4 _ => .ipv4

def toBytes (policy : Checksum.Policy) : Packet → Except Ipv4.Datagram.TooLong Bytes
  | arp message => .ok message.toBytes
  | ipv4 datagram => datagram.toBytes policy

def toFrame (packet : Packet) (policy : Checksum.Policy) (source destination : Ethernet.Address) :
    Except Ipv4.Datagram.TooLong Ethernet.Frame := do
  let payload ← packet.toBytes policy
  return { destination, source, type := packet.type, payload }

/-- The packet that a frame carries. Frames of other types and malformed ones carry none. -/
def ofFrame? (policy : Checksum.Policy) (frame : Ethernet.Frame) : Option Packet :=
  if frame.type = .arp then (Arp.Message.ofBytes? frame.payload).map arp
  else if frame.type = .ipv4 then (Ipv4.Datagram.ofBytes? policy frame.payload).map ipv4
  else none

end Packet

end NetStack.Link
