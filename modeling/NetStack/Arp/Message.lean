import NetStack.Ethernet.Frame
import NetStack.Ipv4.Address

namespace NetStack.Arp

structure Operation where
  code : UInt16
  deriving DecidableEq, Inhabited

namespace Operation

def request : Operation := ⟨1⟩
def reply : Operation := ⟨2⟩

def isKnown (operation : Operation) : Bool := operation == request || operation == reply

end Operation

def ethernetHardware : UInt16 := 1

structure Message where
  operation : Operation
  senderHardware : Ethernet.Address
  senderAddress : Ipv4.Address
  targetHardware : Ethernet.Address
  targetAddress : Ipv4.Address
  deriving DecidableEq

namespace Message

def length : Nat := 28

def request (senderHardware : Ethernet.Address) (senderAddress targetAddress : Ipv4.Address) :
    Message :=
  ⟨.request, senderHardware, senderAddress, .unknown, targetAddress⟩

def replyTo (asked : Message) (hardware : Ethernet.Address) : Message :=
  ⟨.reply, hardware, asked.targetAddress, asked.senderHardware, asked.senderAddress⟩

def pairing : Bytes :=
  Bytes.ofWord16 ethernetHardware ++ Bytes.ofWord16 Ethernet.EtherType.ipv4.code ++ [6, 4]

def toBytes (message : Message) : Bytes :=
  pairing ++ Bytes.ofWord16 message.operation.code ++
    message.senderHardware.octets ++ message.senderAddress.octets ++
    message.targetHardware.octets ++ message.targetAddress.octets

def Fits (bytes : Bytes) : Prop := length ≤ bytes.length

instance (bytes : Bytes) : Decidable (Fits bytes) := by unfold Fits; infer_instance

def hasPairing (bytes : Bytes) : Bool := bytes.take 6 == pairing

/-- Read a message. Octets after it are dropped. -/
def ofBytes? (bytes : Bytes) : Option Message :=
  if Fits bytes ∧ hasPairing bytes then
    some {
      operation := ⟨bytes.word16At 6⟩
      senderHardware := .readAt bytes 8
      senderAddress := ⟨bytes.word32At 14⟩
      targetHardware := .readAt bytes 18
      targetAddress := ⟨bytes.word32At 24⟩ }
  else
    none

def emit? (message : Message) (buffer : Bytes) : Option Bytes :=
  buffer.overwrite? 0 message.toBytes

def text (message : Message) : String :=
  if message.operation = .request then
    s!"ARP who-has {message.targetAddress} tell {message.senderAddress}" ++
      s!" ({message.senderHardware})"
  else if message.operation = .reply then
    s!"ARP {message.senderAddress} is-at {message.senderHardware} (to {message.targetAddress})"
  else
    s!"ARP op={message.operation.code} {message.senderHardware}/{message.senderAddress}" ++
      s!" -> {message.targetHardware}/{message.targetAddress}"

instance : ToString Message := ⟨text⟩

def describe (bytes : Bytes) : String :=
  match ofBytes? bytes with
  | some message => toString message
  | none => "ARP (unsupported)"

@[simp] theorem toBytes_length (message : Message) : message.toBytes.length = length := rfl

end Message

end NetStack.Arp
