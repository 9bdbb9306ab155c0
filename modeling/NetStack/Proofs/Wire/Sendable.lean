import NetStack.Link.Interface
import NetStack.Proofs.Tcp.InboundEnd
import NetStack.Proofs.Tcp.Sizing
import NetStack.Proofs.Wire.Carriage

namespace NetStack

namespace Link.Interface

variable (interface : Interface) {datagram : Ipv4.Datagram}

theorem send_of_written {bytes : Bytes} (written : datagram.toBytes interface.policy = .ok bytes)
    (nextHop : Ipv4.Address) : ∃ after, interface.send datagram nextHop = .ok after := by
  unfold send
  cases interface.neighbors.lookup nextHop interface.now with
  | found hardware =>
    unfold emit Packet.toFrame Packet.toBytes
    dsimp only
    rw [written]
    exact ⟨_, rfl⟩
  | askedLately => exact ⟨_, rfl⟩
  | unknown => exact ⟨_, rfl⟩

theorem send_of_refused {refusal : Ipv4.Datagram.TooLong}
    (refused : datagram.toBytes interface.policy = .error refusal) {nextHop : Ipv4.Address}
    {hardware : Ethernet.Address}
    (known : interface.neighbors.lookup nextHop interface.now = .found hardware) :
    interface.send datagram nextHop = .error refusal := by
  unfold send
  rw [known]
  unfold emit Packet.toFrame Packet.toBytes
  dsimp only
  rw [refused]
  rfl

end Link.Interface

namespace Tcp.Connection

/-- Every queued segment goes into a datagram. Without a payload that is too long it can be written,
    read back and sent, whatever is done about checksums. With one it cannot be written at all: that
    takes a limit and a storage beyond `longestPayload`, and a window as wide from the peer. -/
theorem queued_sendable (config : Config) (inbound outbound : Array UInt8) (ops : List Op)
    (own peer : Ipv4.Endpoint) (policy : Checksum.Policy) (hopLimit : UInt8) {segment : Segment}
    (queued : segment ∈ ((ofStorage config inbound outbound).run ops).queue) :
    ∃ datagram, Binding.enclose? ⟨own, some peer, policy, hopLimit⟩ segment = some datagram ∧
      (segment.payload.length ≤ longestPayload →
        (∀ writing, ∃ bytes, datagram.toBytes writing = .ok bytes ∧
          Ipv4.Datagram.ofBytes? .ignored bytes = some datagram) ∧
        ∀ (interface : Link.Interface) (nextHop : Ipv4.Address),
          ∃ after, interface.send datagram nextHop = .ok after) ∧
      (longestPayload < segment.payload.length →
        (∀ writing, datagram.toBytes writing = .error ⟨datagram.length⟩) ∧
        (∀ (interface : Link.Interface) (nextHop : Ipv4.Address) (hardware : Ethernet.Address),
          interface.neighbors.lookup nextHop interface.now = .found hardware →
            interface.send datagram nextHop = .error ⟨datagram.length⟩) ∧
        longestPayload < config.maxPayload ∧ longestPayload < outbound.size ∧
        ∃ heard, .receive heard ∈ ops ∧ longestPayload < heard.window.toNat) := by
  let binding : Binding := ⟨own, some peer, policy, hopLimit⟩
  have fits := binding.parcel_length_le peer segment
  refine ⟨binding.parcel peer segment, Binding.enclose?_eq_parcel rfl segment, ?_, ?_⟩
  · intro short
    have written (writing : Checksum.Policy) :=
      Ipv4.Datagram.toBytes_of_le (fits.mpr short) writing
    constructor
    · intro writing
      refine ⟨_, written writing, ?_⟩
      have unchecked : Checksum.Policy.ignored.ipv4.verifies → writing.ipv4.computes := nofun
      have read := Ipv4.Datagram.ofBytes?_toBytes (written writing) unchecked []
      rwa [List.append_nil] at read
    · intro interface nextHop
      exact interface.send_of_written (written interface.policy) nextHop
  · intro long
    have tooLong : Ipv4.Datagram.maxLength < (binding.parcel peer segment).length :=
      Nat.lt_of_not_le fun short => Nat.not_le_of_lt long (fits.mp short)
    have refused (writing : Checksum.Policy) := Ipv4.Datagram.toBytes_of_lt tooLong writing
    have causes := exists_window_of_queued queued (by decide) long
    exact ⟨refused, fun interface nextHop hardware known =>
      interface.send_of_refused (refused interface.policy) known, causes⟩

theorem queued_sendable_short :
    let answered : Op :=
      .receive { ackno := ⟨1⟩, flags := { syn := true, ack := true }, window := 4 }
    let data : Segment :=
      { seqno := ⟨1⟩, ackno := ⟨1⟩, flags := { ack := true }, window := 4, payload := [1, 2, 3] }
    let ops : List Op := [.connect, answered, .write [1, 2, 3]]
    data ∈ (small.run ops).queue ∧ ∃ datagram, Binding.enclose?
        ⟨⟨.ofOctets 10 0 0 2, 49152⟩, some ⟨.ofOctets 192 168 0 2, 80⟩, {}, 64⟩ data =
          some datagram ∧
      ∃ bytes, datagram.toBytes {} = .ok bytes ∧
        Ipv4.Datagram.ofBytes? .ignored bytes = some datagram := by
  intro answered data ops
  have queued : data ∈ (small.run ops).queue := by decide +kernel
  obtain ⟨datagram, enclosed, carried, _⟩ := queued_sendable
    { receiveCapacity := 4, sendCapacity := 4, isn := some ⟨0⟩ } (Array.replicate 4 0)
    (Array.replicate 4 0) ops ⟨.ofOctets 10 0 0 2, 49152⟩ ⟨.ofOctets 192 168 0 2, 80⟩ {} 64 queued
  exact ⟨queued, datagram, enclosed, (carried (by decide)).1 {}⟩

theorem queued_of_write {c : Connection} (active : c.active = true)
    (opened : c.isUnopened = false) (answered : c.sender.acked ≠ 0)
    (unended : c.outbound.inputEnded = false) (unfailed : c.outbound.failed = false)
    (empty : c.outbound.toList = []) {data : Bytes} {room : Nat} (length : data.length = room + 1)
    (fits : data.length ≤ c.outbound.room) (allowed : room + 1 ≤ c.sender.maxPayload)
    (edge : c.sender.rightEdge = c.sender.next + (room + 1)) :
    ∃ segment ∈ (c.step (.write data)).2.queue, segment.payload = data := by
  let filled : Sender := { c.sender with stream := (c.outbound.write data).2 }
  have held : filled.stream.toList = data := by
    show (c.outbound.write data).2.toList = data
    rw [ByteStream.toList_write, ByteStream.write_of_fits unended fits, List.take_length, empty,
      List.nil_append]
  have size : filled.stream.size = room + 1 := by
    rw [← ByteStream.toList_length, held, length]
  have nonzero : filled.next ≠ 0 := by
    intro zero
    have unopened : c.isUnopened = true := beq_iff_eq.mpr zero
    rw [opened] at unopened
    cases unopened
  have full := Sender.transmit_of_full (s := filled) answered nonzero edge allowed
    (Nat.le_of_eq size.symm)
  have written : (c.step (.write data)).2 = { c with sender := filled.transmit }.flush := by
    rw [step_write]
    simp only [active, unended, unfailed, opened, Bool.not_false, Bool.and_self, if_true,
      Bool.false_eq_true, if_false]
    rfl
  have cut : filled.stream.peek (room + 1) = data := by
    rw [ByteStream.peek_eq, held, ← length, List.take_length]
  rw [written, full, cut]
  refine ⟨_, List.mem_append_right _ (List.mem_map_of_mem (a := filled.fresh {} data) ?_), ?_⟩
  · exact List.mem_append_right _ List.mem_cons_self
  · rw [stamp_payload]
    rfl

/-- A connection that may send one octet more in a segment than a datagram can carry. -/
def roomy : Config :=
  { receiveCapacity := 4, sendCapacity := 65496, maxPayload := 65496, isn := some ⟨0⟩ }

def opening : List Op :=
  [.connect, .receive { ackno := ⟨1⟩, flags := { syn := true, ack := true }, window := 65496 }]

def filling : List Op := opening ++ [.write (List.replicate 65496 0)]

theorem filling_queued : ∃ segment ∈ ((ofConfig roomy).run filling).queue,
    segment.payload.length = 65496 := by
  have storage : ((ofConfig roomy).run opening).outbound =
      .ofStorage (Array.replicate 65496 0) := rfl
  have room : ((ofConfig roomy).run opening).outbound.room = 65496 := by
    rw [storage, ByteStream.room_ofStorage, Array.size_replicate]
  have unended : ((ofConfig roomy).run opening).outbound.inputEnded = false := by
    rw [storage, ByteStream.inputEnded_ofStorage]
  have unfailed : ((ofConfig roomy).run opening).outbound.failed = false := by
    rw [storage, ByteStream.failed_ofStorage]
  have empty : ((ofConfig roomy).run opening).outbound.toList = [] := by
    rw [storage, ByteStream.toList_ofStorage]
  have length : (List.replicate 65496 (0 : UInt8)).length = 65495 + 1 := List.length_replicate
  obtain ⟨segment, queued, payload⟩ := queued_of_write (c := (ofConfig roomy).run opening)
    (by decide +kernel) (by decide +kernel) (by decide +kernel) unended unfailed empty length
    (by omega) (by decide +kernel) (by decide +kernel)
  unfold filling
  rw [step_last]
  exact ⟨segment, queued, by rw [payload, length]⟩

theorem filling_not_sendable :
    ∃ segment ∈ ((ofConfig roomy).run filling).queue, ∃ datagram, Binding.enclose?
        ⟨⟨.ofOctets 10 0 0 2, 49152⟩, some ⟨.ofOctets 192 168 0 2, 80⟩, {}, 64⟩ segment =
          some datagram ∧
      ∀ policy, datagram.toBytes policy = .error ⟨65536⟩ := by
  obtain ⟨segment, queued, length⟩ := filling_queued
  let peer : Ipv4.Endpoint := ⟨.ofOctets 192 168 0 2, 80⟩
  let binding : Binding := ⟨⟨.ofOctets 10 0 0 2, 49152⟩, some peer, {}, 64⟩
  have total : (binding.parcel peer segment).length = 65536 := by
    rw [Binding.parcel_length, length]
    rfl
  refine ⟨segment, queued, _, Binding.enclose?_eq_parcel rfl segment, ?_⟩
  intro policy
  rw [← total]
  apply Ipv4.Datagram.toBytes_of_lt
  rw [total]
  decide

end Tcp.Connection

end NetStack
