import NetStack.Ipv4.Header

namespace NetStack.Ipv4

def defaultHopLimit : UInt8 := 64

structure Datagram where
  source : Address
  destination : Address
  protocol : Protocol
  hopLimit : UInt8 := defaultHopLimit
  payload : Bytes
  deriving DecidableEq

namespace Datagram

def maxLength : Nat := 0xffff

structure TooLong where
  length : Nat
  deriving DecidableEq

def header (datagram : Datagram) : Header where
  source := datagram.source
  destination := datagram.destination
  protocol := datagram.protocol
  payloadLength := datagram.payload.length
  hopLimit := datagram.hopLimit

def length (datagram : Datagram) : Nat := headerLength + datagram.payload.length

def toBytes (datagram : Datagram) (policy : Checksum.Policy) : Except TooLong Bytes :=
  if datagram.length ≤ maxLength then
    .ok (datagram.header.toBytes policy ++ datagram.payload)
  else
    .error ⟨datagram.length⟩

/-- The datagram that a packet carries. Octets past its total length are dropped. -/
def ofBytes? (policy : Checksum.Policy) (bytes : Bytes) : Option Datagram :=
  let packet : Packet := ⟨bytes⟩
  (packet.header? policy).map fun header => {
    source := header.source
    destination := header.destination
    protocol := header.protocol
    hopLimit := header.hopLimit
    payload := packet.payload }

instance : ToString Datagram :=
  ⟨fun datagram => s!"{datagram.header} ttl={datagram.hopLimit} len={datagram.payload.length}"⟩

end Datagram

end NetStack.Ipv4
