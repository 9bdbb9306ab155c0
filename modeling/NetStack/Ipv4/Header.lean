import NetStack.Ipv4.Packet

namespace NetStack.Ipv4

structure Header where
  source : Address
  destination : Address
  protocol : Protocol
  payloadLength : Nat
  hopLimit : UInt8
  deriving DecidableEq

namespace Header

/-- The twenty octets of the header around a given checksum field. The total length is kept modulo
    `0x10000`. -/
def image (header : Header) (checksum : UInt16) : Bytes :=
  [0x45, 0] ++ Bytes.ofWord16 (.ofNat (headerLength + header.payloadLength)) ++
    Bytes.ofWord16 0 ++ Bytes.ofWord16 0x4000 ++ [header.hopLimit, header.protocol.code] ++
    Bytes.ofWord16 checksum ++ header.source.octets ++ header.destination.octets

def toBytes (header : Header) (policy : Checksum.Policy) : Bytes :=
  let blank := header.image 0
  if policy.ipv4.computes then header.image (~~~ Checksum.sum blank) else blank

def emit? (header : Header) (policy : Checksum.Policy) (buffer : Bytes) : Option Bytes :=
  buffer.overwrite? 0 (header.toBytes policy)

instance : ToString Header :=
  ⟨fun header => s!"IPv4 src={header.source} dst={header.destination} proto={header.protocol}"⟩

@[simp] theorem image_length (header : Header) (checksum : UInt16) :
    (header.image checksum).length = headerLength := rfl

@[simp] theorem toBytes_length (header : Header) (policy : Checksum.Policy) :
    (header.toBytes policy).length = headerLength := by
  unfold toBytes
  split <;> rfl

end Header

namespace Packet

def header? (packet : Packet) (policy : Checksum.Policy) : Option Header :=
  if packet.Fits ∧ packet.version = 4 ∧ (policy.ipv4.verifies → packet.checksumHolds) ∧
      !packet.isFragment then
    some {
      source := packet.source
      destination := packet.destination
      protocol := packet.protocol
      payloadLength := packet.payload.length
      hopLimit := packet.hopLimit }
  else
    none

def describe (packet : Packet) : String :=
  match packet.header? .ignored with
  | some header => toString header
  | none =>
    if packet.Fits then
      s!"IPv4 (unsupported) ver={packet.version} src={packet.source} dst={packet.destination}" ++
        s!" id={packet.identification} fragment={packet.isFragment}"
    else
      "IPv4 (truncated)"

end Packet

end NetStack.Ipv4
