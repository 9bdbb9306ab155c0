import NetStack.Proofs.Wire.Datagram
import NetStack.Proofs.Wire.Segment
import NetStack.Tcp.Binding

namespace NetStack.Tcp

/-- The longest payload of a segment that a datagram can carry: what both headers leave of
    `Datagram.maxLength`. -/
def longestPayload : Nat := 65495

def Segment.between (segment : Segment) (source destination : Ipv4.Endpoint) : Segment :=
  { segment with sourcePort := source.port, destinationPort := destination.port }

namespace Binding

def parcel (binding : Binding) (peer : Ipv4.Endpoint) (segment : Segment) : Ipv4.Datagram where
  source := binding.own.address
  destination := peer.address
  protocol := .tcp
  hopLimit := binding.hopLimit
  payload := (segment.between binding.own peer).toBytes binding.own.address peer.address
    binding.policy

variable {binding : Binding} {peer : Ipv4.Endpoint}

theorem enclose?_eq_parcel (known : binding.peer = some peer) (segment : Segment) :
    binding.enclose? segment = some (binding.parcel peer segment) := by
  rw [enclose?, known]
  rfl

section Length

variable (binding peer) (segment : Segment)

theorem parcel_length :
    (binding.parcel peer segment).length =
      Ipv4.headerLength + (headerLength + segment.payload.length) := by
  unfold Ipv4.Datagram.length parcel
  rw [Segment.toBytes_length]
  rfl

theorem parcel_length_le :
    (binding.parcel peer segment).length ≤ Ipv4.Datagram.maxLength ↔
      segment.payload.length ≤ longestPayload := by
  rw [parcel_length]
  unfold Ipv4.headerLength headerLength Ipv4.Datagram.maxLength longestPayload
  omega

end Length

theorem arriving?_of_segment? {datagram : Ipv4.Datagram} {segment : Segment}
    (tcp : datagram.protocol = .tcp) (address : datagram.destination = binding.own.address)
    (read : Packet.segment? ⟨datagram.payload⟩ datagram.source datagram.destination
      binding.policy = some segment)
    (port : segment.destinationPort = binding.own.port) :
    binding.arriving? datagram = some (⟨datagram.source, segment.sourcePort⟩, segment) := by
  have passes {condition : Prop} [Decidable condition] (holds : condition) :
      (guard condition : Option Unit) = some () := if_pos holds
  unfold arriving?
  rw [passes ⟨tcp, address⟩]
  dsimp only [Option.bind_eq_bind, Option.bind_some]
  rw [read]
  dsimp only [Option.bind_some]
  rw [passes port]
  rfl

theorem arriving?_parcel (binding other : Binding) {segment : Segment}
    (ownSet : binding.own.port ≠ 0) (otherSet : other.own.port ≠ 0)
    (short : segment.payload.length ≤ longestPayload)
    (checked : other.policy.tcp.verifies → binding.policy.tcp.computes) :
    other.arriving? (binding.parcel other.own segment) =
      some (binding.own, { segment.between binding.own other.own with
        checksum := Packet.checksum ⟨(binding.parcel other.own segment).payload⟩ }) := by
  have sourceSet : (segment.between binding.own other.own).sourcePort ≠ 0 := ownSet
  have destinationSet : (segment.between binding.own other.own).destinationPort ≠ 0 := otherSet
  have bound : (segment.between binding.own other.own).payload.length ≤ 0xffff :=
    Nat.le_trans short (by decide)
  have read := Segment.segment?_toBytes sourceSet destinationSet bound checked
    binding.own.address other.own.address
  have wire : Packet.checksum ⟨(binding.parcel other.own segment).payload⟩ =
      (segment.between binding.own other.own).sentChecksum binding.own.address other.own.address
        binding.policy := by
    unfold parcel
    rw [Segment.toBytes_eq, Packet.checksum_image]
  have tcp : (binding.parcel other.own segment).protocol = .tcp := rfl
  have address : (binding.parcel other.own segment).destination = other.own.address := rfl
  rw [wire]
  exact arriving?_of_segment? tcp address read rfl

/-- A segment that one binding sends to another is the one that arrives there, whether the other is
    connected already or takes its peer from a SYN. The datagram between them can be written and read
    with anything behind it. -/
theorem accept_enclosed (own peer : Ipv4.Endpoint) (ownSet : own.port ≠ 0) (peerSet : peer.port ≠ 0)
    (segment : Segment) (short : segment.payload.length ≤ longestPayload)
    (sending hearing : Checksum.Policy) (checked : hearing.tcp.verifies → sending.tcp.computes)
    (known : Option Ipv4.Endpoint)
    (awaited : known = some own ∨ known = none ∧ segment.flags.syn) (hopLimit hopLimit' : UInt8) :
    ∃ datagram, enclose? ⟨own, some peer, sending, hopLimit⟩ segment = some datagram ∧
      (∀ writing reading : Checksum.Policy, (reading.ipv4.verifies → writing.ipv4.computes) →
        ∃ bytes, datagram.toBytes writing = .ok bytes ∧
          ∀ tail, Ipv4.Datagram.ofBytes? reading (bytes ++ tail) = some datagram) ∧
      accept ⟨peer, known, hearing, hopLimit'⟩ datagram =
        (some { segment with
            sourcePort := own.port
            destinationPort := peer.port
            checksum := Packet.checksum ⟨datagram.payload⟩ },
          ⟨peer, some own, hearing, hopLimit'⟩) := by
  let sender : Binding := ⟨own, some peer, sending, hopLimit⟩
  refine ⟨sender.parcel peer segment, enclose?_eq_parcel rfl segment, ?_, ?_⟩
  · intro writing reading compatible
    have written := Ipv4.Datagram.toBytes_of_le
      ((sender.parcel_length_le peer segment).mpr short) writing
    exact ⟨_, written, Ipv4.Datagram.ofBytes?_toBytes written compatible⟩
  · have arrived := arriving?_parcel sender ⟨peer, known, hearing, hopLimit'⟩ ownSet peerSet short
      checked
    unfold accept
    rw [arrived]
    rcases awaited with rfl | ⟨rfl, syn⟩
    · exact congrArg (·, _) (if_pos rfl)
    · exact if_pos syn

theorem accept_enclosed_listening :
    let own : Ipv4.Endpoint := ⟨.ofOctets 10 0 0 1, 49152⟩
    let peer : Ipv4.Endpoint := ⟨.ofOctets 10 0 0 2, 80⟩
    let segment : Segment := { seqno := ⟨7⟩, flags := { syn := true }, payload := [1, 2, 3] }
    ∃ datagram, enclose? ⟨own, some peer, {}, 64⟩ segment = some datagram ∧
      (∃ bytes, datagram.toBytes {} = .ok bytes ∧
        Ipv4.Datagram.ofBytes? {} (bytes ++ [0, 0]) = some datagram) ∧
      accept ⟨peer, none, {}, 1⟩ datagram =
        (some { segment with
            sourcePort := 49152
            destinationPort := 80
            checksum := Packet.checksum ⟨datagram.payload⟩ },
          ⟨peer, some own, {}, 1⟩) := by
  intro own peer segment
  obtain ⟨datagram, enclosed, carried, accepted⟩ := accept_enclosed own peer (by decide) (by decide)
    segment (by decide) {} {} (fun verifies => verifies) none (.inr ⟨rfl, rfl⟩) 64 1
  obtain ⟨bytes, written, read⟩ := carried {} {} fun verifies => verifies
  exact ⟨datagram, enclosed, ⟨bytes, written, read [0, 0]⟩, accepted⟩

end Binding

end NetStack.Tcp
