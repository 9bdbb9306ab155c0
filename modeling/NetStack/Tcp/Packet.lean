import NetStack.Checksum
import NetStack.Ipv4.Address
import NetStack.Ipv4.Protocol
import NetStack.Tcp.Segment

namespace NetStack.Tcp

def headerLength : Nat := 20

/-- The sum over the pseudo header of a packet between two addresses. The length is kept modulo
    `0x10000`. -/
def pseudoHeaderSum (source destination : Ipv4.Address) (length : Nat) : UInt16 :=
  Checksum.combine [Checksum.sum source.octets, Checksum.sum destination.octets,
    Checksum.sum ([0, Ipv4.Protocol.tcp.code] ++ Bytes.ofWord16 (.ofNat length))]

structure Packet where
  bytes : Bytes
  deriving DecidableEq

namespace Packet

def sourcePort (packet : Packet) : UInt16 := packet.bytes.word16At 0

def destinationPort (packet : Packet) : UInt16 := packet.bytes.word16At 2

def seqno (packet : Packet) : SeqNo := ⟨packet.bytes.word32At 4⟩

def ackno (packet : Packet) : SeqNo := ⟨packet.bytes.word32At 8⟩

def headerLength (packet : Packet) : Nat := (packet.bytes.octet 12).toNat / 16 * 4

def flags (packet : Packet) : Flags := .ofByte (packet.bytes.octet 13)

def window (packet : Packet) : UInt16 := packet.bytes.word16At 14

def checksum (packet : Packet) : UInt16 := packet.bytes.word16At 16

def urgent (packet : Packet) : UInt16 := packet.bytes.word16At 18

/-- The header lies inside the buffer, and the fixed part of it inside the header. -/
def Fits (packet : Packet) : Prop :=
  Tcp.headerLength ≤ packet.bytes.length ∧ Tcp.headerLength ≤ packet.headerLength ∧
    packet.headerLength ≤ packet.bytes.length

instance (packet : Packet) : Decidable packet.Fits := by unfold Fits; infer_instance

def payload (packet : Packet) : Bytes := packet.bytes.drop packet.headerLength

def sum (packet : Packet) (source destination : Ipv4.Address) : UInt16 :=
  Checksum.combine [pseudoHeaderSum source destination packet.bytes.length,
    Checksum.sum packet.bytes]

def checksumHolds (packet : Packet) (source destination : Ipv4.Address) : Bool :=
  packet.sum source destination == Checksum.intact

inductive Edit where
  | sourcePort (value : UInt16)
  | destinationPort (value : UInt16)
  | seqno (value : SeqNo)
  | ackno (value : SeqNo)
  | headerLength (octets : UInt8)
  | flags (value : Flags)
  | window (value : UInt16)
  | checksum (value : UInt16)
  | urgent (value : UInt16)
  | fillChecksum (source destination : Ipv4.Address)
  | fillPayload (octet : UInt8)

def put? (packet : Packet) (start : Nat) (patch : Bytes) : Option Packet :=
  (packet.bytes.overwrite? start patch).map Packet.mk

def setChecksum? (packet : Packet) (value : UInt16) : Option Packet :=
  packet.put? 16 (.ofWord16 value)

/-- Store the complement of the sum that is taken with a zero checksum field. -/
def fillChecksum? (packet : Packet) (source destination : Ipv4.Address) : Option Packet := do
  let cleared ← packet.setChecksum? 0
  cleared.setChecksum? (~~~ cleared.sum source destination)

def fillPayload? (packet : Packet) (octet : UInt8) : Option Packet := do
  guard (12 < packet.bytes.length ∧ packet.headerLength ≤ packet.bytes.length)
  packet.put? packet.headerLength (List.replicate packet.payload.length octet)

def edit? (packet : Packet) : Edit → Option Packet
  | .sourcePort value => packet.put? 0 (.ofWord16 value)
  | .destinationPort value => packet.put? 2 (.ofWord16 value)
  | .seqno value => packet.put? 4 (.ofWord32 value.value)
  | .ackno value => packet.put? 8 (.ofWord32 value.value)
  | .headerLength octets => packet.put? 12 [(octets / 4) <<< 4]
  | .flags value => packet.put? 13 [value.toByte]
  | .window value => packet.put? 14 (.ofWord16 value)
  | .checksum value => packet.setChecksum? value
  | .urgent value => packet.put? 18 (.ofWord16 value)
  | .fillChecksum source destination => packet.fillChecksum? source destination
  | .fillPayload octet => packet.fillPayload? octet

/-- The segment that a packet between two addresses carries. Options are skipped. A packet with a
    port of zero is refused and, where the policy asks for it, one with a wrong checksum. -/
def segment? (packet : Packet) (source destination : Ipv4.Address) (policy : Checksum.Policy) :
    Option Segment :=
  if packet.Fits ∧ packet.sourcePort ≠ 0 ∧ packet.destinationPort ≠ 0 ∧
      (policy.tcp.verifies → packet.checksumHolds source destination) then
    some {
      sourcePort := packet.sourcePort
      destinationPort := packet.destinationPort
      seqno := packet.seqno
      ackno := packet.ackno
      flags := packet.flags
      window := packet.window
      urgent := packet.urgent
      checksum := packet.checksum
      payload := packet.payload }
  else
    none

end Packet

namespace Segment

def wireLength (segment : Segment) : Nat := headerLength + segment.payload.length

def headerImage (segment : Segment) (checksum : UInt16) : Bytes :=
  Bytes.ofWord16 segment.sourcePort ++ Bytes.ofWord16 segment.destinationPort ++
    Bytes.ofWord32 segment.seqno.value ++ Bytes.ofWord32 segment.ackno.value ++
    [0x50, segment.flags.toByte] ++ Bytes.ofWord16 segment.window ++ Bytes.ofWord16 checksum ++
    Bytes.ofWord16 segment.urgent

/-- Write the segment over the start of a buffer; `none` if the buffer is too short. Octets after
    the segment stay and are covered by the checksum. -/
def emit? (segment : Segment) (source destination : Ipv4.Address) (policy : Checksum.Policy)
    (buffer : Bytes) : Option Bytes := do
  let blank ← buffer.overwrite? 0 (segment.headerImage 0 ++ segment.payload)
  if policy.tcp.computes then
    buffer.overwrite? 0
      (segment.headerImage (~~~ Packet.sum ⟨blank⟩ source destination) ++ segment.payload)
  else
    return blank

def toBytes (segment : Segment) (source destination : Ipv4.Address) (policy : Checksum.Policy) :
    Bytes :=
  let blank := segment.headerImage 0 ++ segment.payload
  if policy.tcp.computes then
    segment.headerImage (~~~ Packet.sum ⟨blank⟩ source destination) ++ segment.payload
  else
    blank

@[simp] theorem headerImage_length (segment : Segment) (checksum : UInt16) :
    (segment.headerImage checksum).length = headerLength := rfl

end Segment

end NetStack.Tcp
