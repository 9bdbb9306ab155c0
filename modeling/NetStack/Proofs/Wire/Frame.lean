import NetStack.Link.Packet
import NetStack.Proofs.Wire.Datagram

namespace NetStack

theorem Ethernet.Frame.ofBytes?_toBytes_append (frame : Frame) (padding : Bytes) :
    ofBytes? (frame.toBytes ++ padding) =
      some { frame with payload := frame.payload ++ padding } := by
  have padded : frame.toBytes ++ padding =
      { frame with payload := frame.payload ++ padding }.toBytes := by
    unfold toBytes
    rw [List.append_assoc]
  rw [padded, ofBytes?_toBytes]

namespace Arp.Message

variable (message : Message) (padding : Bytes)

theorem ofBytes?_toBytes_append : ofBytes? (message.toBytes ++ padding) = some message := by
  have fits : Fits (message.toBytes ++ padding) := by
    unfold Fits
    rw [List.length_append, toBytes_length]
    exact Nat.le_add_right _ _
  have paired : hasPairing (message.toBytes ++ padding) = true := rfl
  have code : (message.toBytes ++ padding).word16At 6 = message.operation.code :=
    Bytes.word16_ofWord16 _
  have sender : (message.toBytes ++ padding).word32At 14 = message.senderAddress.bits :=
    Bytes.word32_ofWord32 _
  have target : (message.toBytes ++ padding).word32At 24 = message.targetAddress.bits :=
    Bytes.word32_ofWord32 _
  unfold ofBytes?
  rw [if_pos ⟨fits, paired⟩, code, sender, target]
  rfl

end Arp.Message

namespace Link.Packet

variable {packet : Packet}

/-- The header of an IPv4 packet can say how long it is. -/
def Fits : Packet → Prop
  | arp _ => True
  | ipv4 datagram => datagram.length ≤ Ipv4.Datagram.maxLength

theorem exists_toBytes (fits : packet.Fits) (policy : Checksum.Policy) :
    ∃ payload, packet.toBytes policy = .ok payload := by
  cases packet with
  | arp message => exact ⟨_, rfl⟩
  | ipv4 datagram => exact ⟨_, Ipv4.Datagram.toBytes_of_le fits policy⟩

theorem toFrame_eq_ok_iff {policy : Checksum.Policy} {source destination : Ethernet.Address}
    {frame : Ethernet.Frame} : packet.toFrame policy source destination = .ok frame ↔
      ∃ payload, packet.toBytes policy = .ok payload ∧
        frame = { destination, source, type := packet.type, payload } := by
  unfold toFrame
  cases packet.toBytes policy with
  | error refusal => exact ⟨nofun, nofun⟩
  | ok payload =>
    constructor
    · rintro ⟨⟩
      exact ⟨payload, rfl, rfl⟩
    · rintro ⟨_, ⟨⟩, rfl⟩
      rfl

theorem ofFrame?_written {outgoing incoming : Checksum.Policy} {payload : Bytes}
    (written : packet.toBytes outgoing = .ok payload)
    (checked : incoming.ipv4.verifies → outgoing.ipv4.computes)
    (source destination : Ethernet.Address) (padding : Bytes) :
    ofFrame? incoming { destination, source, type := packet.type, payload := payload ++ padding } =
      some packet := by
  cases packet with
  | arp message =>
    cases written
    exact congrArg (Option.map arp) (Arp.Message.ofBytes?_toBytes_append message padding)
  | ipv4 datagram =>
    exact congrArg (Option.map ipv4) (Ipv4.Datagram.ofBytes?_toBytes written checked padding)

/-- Every address resolution message, and every datagram with a payload that its header can tell the
    length of, goes into a frame. With any padding behind it, that frame is read: between the same
    addresses, of the type of the packet, and with the packet in it. -/
theorem toFrame_readable (source destination : Ethernet.Address) (policy : Checksum.Policy)
    (checked : policy.ipv4.verifies → policy.ipv4.computes) (packet : Packet)
    (short : ∀ datagram, packet = .ipv4 datagram → datagram.payload.length ≤ 65515) :
    ∃ frame, packet.toFrame policy source destination = .ok frame ∧ ∀ padding, ∃ read,
      Ethernet.Frame.ofBytes? (frame.toBytes ++ padding) = some read ∧ read.source = source ∧
        read.destination = destination ∧ read.type = packet.type ∧
        ofFrame? policy read = some packet := by
  have fits : packet.Fits := by
    cases packet with
    | arp message => trivial
    | ipv4 datagram =>
      have bound := short datagram rfl
      show Ipv4.headerLength + datagram.payload.length ≤ Ipv4.Datagram.maxLength
      unfold Ipv4.headerLength Ipv4.Datagram.maxLength
      omega
  obtain ⟨payload, written⟩ := exists_toBytes fits policy
  refine ⟨_, toFrame_eq_ok_iff.mpr ⟨payload, written, rfl⟩, fun padding => ?_⟩
  refine ⟨_, Ethernet.Frame.ofBytes?_toBytes_append _ padding, rfl, rfl, rfl, ?_⟩
  exact ofFrame?_written written checked source destination padding

theorem toFrame_readable_padded :
    let datagram : Ipv4.Datagram :=
      { source := .ofOctets 10 0 0 1, destination := .ofOctets 10 0 0 2, protocol := .tcp,
        payload := [1, 2, 3, 4, 5] }
    let source : Ethernet.Address := ⟨2, 0, 0, 0, 0, 1⟩
    datagram.payload.length ≤ 65515 ∧
      ∃ frame, (Packet.ipv4 datagram).toFrame {} source .broadcast = .ok frame ∧ ∃ read,
        Ethernet.Frame.ofBytes? (frame.toBytes ++ List.replicate 21 0) = some read ∧
          read.source = source ∧ read.destination = .broadcast ∧ read.type = .ipv4 ∧
          ofFrame? {} read = some (.ipv4 datagram) := by
  intro datagram source
  have short : datagram.payload.length ≤ 65515 := by decide
  obtain ⟨frame, framed, read⟩ := toFrame_readable source .broadcast {} (fun verifies => verifies)
    (.ipv4 datagram) (by rintro _ ⟨⟩; exact short)
  exact ⟨short, frame, framed, read (List.replicate 21 0)⟩

end Link.Packet

end NetStack
