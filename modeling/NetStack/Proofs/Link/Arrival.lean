import NetStack.Proofs.Link.Traffic

namespace NetStack.Link.Interface

/-- A frame for this interface or for everyone brings a datagram, whole and with a checksum that
    holds where it is looked at. -/
structure Brings (interface : Interface) (frame : Ethernet.Frame) (datagram : Ipv4.Datagram) :
    Prop where
  addressed : frame.destination = interface.hardware ∨ frame.destination = .broadcast
  type : frame.type = .ipv4
  version : Ipv4.Packet.version ⟨frame.payload⟩ = 4
  fits : Ipv4.Packet.Fits ⟨frame.payload⟩
  whole : Ipv4.Packet.isFragment ⟨frame.payload⟩ = false
  intact : interface.policy.ipv4.verifies → Ipv4.Packet.checksumHolds ⟨frame.payload⟩
  fields : datagram = {
    source := Ipv4.Packet.source ⟨frame.payload⟩
    destination := Ipv4.Packet.destination ⟨frame.payload⟩
    protocol := Ipv4.Packet.protocol ⟨frame.payload⟩
    hopLimit := Ipv4.Packet.hopLimit ⟨frame.payload⟩
    payload := Ipv4.Packet.payload ⟨frame.payload⟩ }

variable {interface : Interface} {bytes : Bytes}

theorem ofFrame?_eq_ipv4_iff {policy : Checksum.Policy} {frame : Ethernet.Frame}
    {datagram : Ipv4.Datagram} : Packet.ofFrame? policy frame = some (.ipv4 datagram) ↔
      frame.type = .ipv4 ∧ Ipv4.Datagram.ofBytes? policy frame.payload = some datagram := by
  unfold Packet.ofFrame?
  split
  · rename_i arp
    have other : frame.type ≠ .ipv4 := by
      rw [arp]
      decide
    simp [other]
  · split
    · rename_i type
      simp [type]
    · rename_i other
      simp [other]

theorem arriving?_eq_ipv4_iff {datagram : Ipv4.Datagram} :
    interface.arriving? bytes = some (.ipv4 datagram) ↔
      ∃ frame, Ethernet.Frame.ofBytes? bytes = some frame ∧ interface.Brings frame datagram := by
  unfold arriving? Ethernet.Address.isBroadcast
  simp only [Option.bind_eq_bind, Option.bind_eq_some_iff, Option.guard_eq_some', beq_iff_eq,
    ofFrame?_eq_ipv4_iff, Ipv4.Datagram.ofBytes?, Ipv4.Packet.header?, Option.map_eq_some_iff,
    Option.ite_none_right_eq_some]
  constructor
  · rintro ⟨frame, framed, _, addressed, type, _, ⟨⟨fits, version, intact, whole⟩, ⟨⟩⟩, rfl⟩
    exact ⟨frame, framed, addressed, type, version, fits, by simpa using whole, intact, rfl⟩
  · rintro ⟨frame, framed, addressed, type, version, fits, whole, intact, rfl⟩
    have unbroken : (!Ipv4.Packet.isFragment ⟨frame.payload⟩) = true := by simpa using whole
    exact ⟨frame, framed, (), addressed, type, _, ⟨⟨fits, version, intact, unbroken⟩, rfl⟩, rfl⟩

theorem Brings.length_le {frame : Ethernet.Frame} {datagram : Ipv4.Datagram}
    (brings : interface.Brings frame datagram) : datagram.length ≤ Ipv4.Datagram.maxLength := by
  obtain ⟨_, header, order, _⟩ := brings.fits
  have total : Ipv4.Packet.totalLength ⟨frame.payload⟩ < 0x10000 := UInt16.toNat_lt _
  rw [brings.fields]
  unfold Ipv4.Datagram.length Ipv4.Datagram.maxLength Ipv4.Packet.payload
  rw [List.length_drop, List.length_take]
  omega

def brought? (interface : Interface) (bytes : Bytes) : Option Ipv4.Datagram :=
  match interface.arriving? bytes with
  | some (.ipv4 datagram) => some datagram
  | _ => none

theorem brought?_eq_some_iff {datagram : Ipv4.Datagram} :
    interface.brought? bytes = some datagram ↔
      interface.arriving? bytes = some (.ipv4 datagram) := by
  unfold brought?
  split
  · rename_i arrived
    simp [arrived]
  · rename_i other
    exact ⟨nofun, fun arrived => absurd arrived (other datagram)⟩

theorem brought?_of_receive {delivered : Option Ipv4.Datagram} {after : Interface}
    (received : interface.receive bytes = .ok (delivered, after)) :
    interface.brought? bytes = delivered := by
  unfold receive at received
  unfold brought?
  split at received
  · rename_i nothing
    cases received
    rw [nothing]
  · rename_i arrived
    cases received
    rw [arrived]
  · rename_i arrived
    obtain ⟨between, _, rest⟩ := exists_of_bind_eq_ok received
    cases rest
    rw [arrived]

theorem length_le_of_brought? {datagram : Ipv4.Datagram}
    (brought : interface.brought? bytes = some datagram) :
    datagram.length ≤ Ipv4.Datagram.maxLength := by
  obtain ⟨frame, _, brings⟩ := arriving?_eq_ipv4_iff.mp (brought?_eq_some_iff.mp brought)
  exact brings.length_le

end NetStack.Link.Interface
