import NetStack.Ethernet.Address

namespace NetStack.Ethernet

structure EtherType where
  code : UInt16
  deriving DecidableEq, Inhabited

namespace EtherType

def ipv4 : EtherType := ⟨0x0800⟩
def arp : EtherType := ⟨0x0806⟩
def ipv6 : EtherType := ⟨0x86dd⟩

def name (type : EtherType) : String :=
  if type = ipv4 then "IPv4"
  else if type = arp then "ARP"
  else if type = ipv6 then "IPv6"
  else String.ofList ('0' :: 'x' :: Text.hex 4 type.code.toNat)

instance : ToString EtherType := ⟨name⟩

end EtherType

structure Frame where
  destination : Address
  source : Address
  type : EtherType
  payload : Bytes
  deriving DecidableEq

namespace Frame

def headerLength : Nat := 14

def lengthFor (payloadLength : Nat) : Nat := headerLength + payloadLength

def toBytes (frame : Frame) : Bytes :=
  frame.destination.octets ++ frame.source.octets ++ Bytes.ofWord16 frame.type.code ++ frame.payload

def ofBytes? (bytes : Bytes) : Option Frame :=
  if headerLength ≤ bytes.length then
    some {
      destination := Address.readAt bytes 0
      source := Address.readAt bytes 6
      type := ⟨bytes.word16At 12⟩
      payload := bytes.drop headerLength }
  else
    none

instance : ToString Frame :=
  ⟨fun frame => s!"EthernetII src={frame.source} dst={frame.destination} type={frame.type}"⟩

theorem ofBytes?_toBytes (frame : Frame) : ofBytes? frame.toBytes = some frame := by
  have type := Bytes.word16_ofWord16 frame.type.code
  simp [ofBytes?, toBytes, headerLength, Address.octets, Address.readAt, Bytes.octet,
    Bytes.word16At, Bytes.ofWord16] at type ⊢
  rw [type]

end Frame

end NetStack.Ethernet
