import NetStack.Checksum
import NetStack.Ipv4.Address
import NetStack.Ipv4.Protocol

namespace NetStack.Ipv4

def headerLength : Nat := 20

structure Packet where
  bytes : Bytes
  deriving DecidableEq

namespace Packet

def version (packet : Packet) : Nat := (packet.bytes.octet 0).toNat / 16

def headerLength (packet : Packet) : Nat := (packet.bytes.octet 0).toNat % 16 * 4

def totalLength (packet : Packet) : Nat := (packet.bytes.word16At 2).toNat

def identification (packet : Packet) : UInt16 := packet.bytes.word16At 4

def fragmentWord (packet : Packet) : UInt16 := packet.bytes.word16At 6

def dontFragment (packet : Packet) : Bool := packet.fragmentWord &&& 0x4000 != 0

/-- More fragments follow, or this one does not start at offset zero. -/
def isFragment (packet : Packet) : Bool :=
  packet.fragmentWord &&& 0x2000 != 0 || packet.fragmentWord &&& 0x1fff != 0

def hopLimit (packet : Packet) : UInt8 := packet.bytes.octet 8

def protocol (packet : Packet) : Protocol := ⟨packet.bytes.octet 9⟩

def checksum (packet : Packet) : UInt16 := packet.bytes.word16At 10

def source (packet : Packet) : Address := ⟨packet.bytes.word32At 12⟩

def destination (packet : Packet) : Address := ⟨packet.bytes.word32At 16⟩

/-- Header and payload lie inside the buffer, in this order. Octets after them are allowed. -/
def Fits (packet : Packet) : Prop :=
  Ipv4.headerLength ≤ packet.bytes.length ∧ Ipv4.headerLength ≤ packet.headerLength ∧
    packet.headerLength ≤ packet.totalLength ∧ packet.totalLength ≤ packet.bytes.length

instance (packet : Packet) : Decidable packet.Fits := by unfold Fits; infer_instance

/-- The payload, without options before it and padding after it. -/
def payload (packet : Packet) : Bytes :=
  (packet.bytes.take packet.totalLength).drop packet.headerLength

def headerSum (packet : Packet) : UInt16 := Checksum.sum (packet.bytes.take packet.headerLength)

def checksumHolds (packet : Packet) : Bool := packet.headerSum == Checksum.intact

inductive Edit where
  | headerLength (octets : UInt8)
  | trafficClass (value : UInt8)
  | totalLength (value : UInt16)
  | identification (value : UInt16)
  | unfragmented (dontFragment : Bool)
  | hopLimit (value : UInt8)
  | protocol (value : Protocol)
  | checksum (value : UInt16)
  | source (address : Address)
  | destination (address : Address)
  | fillChecksum
  | fillPayload (octet : UInt8)

def put? (packet : Packet) (start : Nat) (patch : Bytes) : Option Packet :=
  (packet.bytes.overwrite? start patch).map Packet.mk

def setChecksum? (packet : Packet) (value : UInt16) : Option Packet :=
  packet.put? 10 (.ofWord16 value)

/-- Store the complement of the sum over the header with a zero checksum field. -/
def fillChecksum? (packet : Packet) : Option Packet := do
  let cleared ← packet.setChecksum? 0
  guard (cleared.headerLength ≤ cleared.bytes.length)
  cleared.setChecksum? (~~~ cleared.headerSum)

def fillPayload? (packet : Packet) (octet : UInt8) : Option Packet := do
  guard (4 ≤ packet.bytes.length ∧ packet.headerLength ≤ packet.totalLength)
  packet.put? packet.headerLength (List.replicate (packet.totalLength - packet.headerLength) octet)

def edit? (packet : Packet) : Edit → Option Packet
  | .headerLength octets => packet.put? 0 [0x40 ||| (octets / 4 &&& 0x0f)]
  | .trafficClass value => packet.put? 1 [value]
  | .totalLength value => packet.put? 2 (.ofWord16 value)
  | .identification value => packet.put? 4 (.ofWord16 value)
  | .unfragmented dontFragment => packet.put? 6 (.ofWord16 (if dontFragment then 0x4000 else 0))
  | .hopLimit value => packet.put? 8 [value]
  | .protocol value => packet.put? 9 [value.code]
  | .checksum value => packet.setChecksum? value
  | .source address => packet.put? 12 address.octets
  | .destination address => packet.put? 16 address.octets
  | .fillChecksum => packet.fillChecksum?
  | .fillPayload octet => packet.fillPayload? octet

end Packet

end NetStack.Ipv4
