import NetStack.Proofs.Session.Delivery
import NetStack.Proofs.Tcp.Closing

namespace NetStack.Simulation

open Tcp

namespace Party

variable {p q : Party}

theorem Conveys.assembled (conveys : p.Conveys q) {sent : Sent}
    (covers : p.transcript.Covers sent.start sent.segment)
    (acknowledged : sent.stop ≤ p.connection.sender.acked) :
    sent.segment.payload <+: q.received.drop (sent.start - 1) ∧
      (sent.segment.flags.fin = true → q.connection.inbound.inputEnded = true) := by
  have reads := conveys.follows.reads
  have written := conveys.received.1
  have reached : sent.start + sent.segment.space ≤
      q.connection.inbound.totalWritten + 1 + q.connection.inbound.inputEnded.toNat :=
    Nat.le_trans acknowledged conveys.acked_le
  have received : q.received <+: p.transcript.text := reads.received
  cases ended : q.connection.inbound.inputEnded with
  | true =>
    have all : q.received = p.transcript.text := (reads.ended ended).2
    rw [all]
    exact ⟨covers.payload, fun _ => rfl⟩
  | false =>
    rw [ended] at reached
    unfold Segment.space at reached
    constructor
    · by_cases start : sent.start = 0
      · rw [start] at covers
        rw [covers.payload_of_start]
        exact List.nil_prefix
      · refine List.prefix_of_prefix_length_le covers.payload (received.drop _) ?_
        rw [List.length_drop, written]
        rw [Bool.toNat_false] at reached
        omega
    · intro fin
      obtain ⟨_, last⟩ := covers.fin fin
      have front := received.length_le
      rw [fin, Bool.toNat_true, Bool.toNat_false] at reached
      omega

theorem Conveys.complete (conveys : p.Conveys q) (complete : p.connection.outboundComplete = true) :
    q.received = p.accepted ∧ q.connection.inbound.inputEnded = true := by
  simp only [Connection.outboundComplete, Bool.and_eq_true, beq_iff_eq] at complete
  obtain ⟨⟨atEnd, sent⟩, landed⟩ := complete
  have acked := conveys.accounted.acked_eq_next landed
  have read : p.connection.outbound.totalWritten = p.connection.outbound.totalRead := by
    rw [← ByteStream.totalRead_add_length, (ByteStream.atEnd_iff _).mp atEnd |>.2]
    rfl
  have written := conveys.follows.written_le
  have heard := conveys.acked_le
  have ended : q.connection.inbound.inputEnded = true := by
    by_contra unended
    have text : p.transcript.text.length = p.connection.outbound.totalRead :=
      conveys.faithful.text_length
    have position : q.connection.receiver.ackPosition = q.connection.inbound.totalWritten + 1 + 0 := by
      rw [← Bool.toNat_false, ← eq_false_of_ne_true unended]
      rfl
    unfold Sender.endPosition at sent
    unfold Connection.inbound at position
    unfold Connection.outbound at read text
    omega
  exact ⟨(conveys.received.2.2 ended).2, ended⟩

end Party

namespace Session

theorem run_concluded (a b : Setup) (events : List Event) (side : Side) :
    (((start a b).run events).party side).connection.Concluded := by
  apply run_induction (P := fun session => ∀ side, (session.party side).connection.Concluded)
  · intro side
    cases side <;> exact Connection.concluded_of_active rfl
  · intro before event concluded side
    rcases before.step_party event side with same | ⟨op, acted, _⟩
    · rw [same]
      exact concluded side
    · rw [acted]
      exact (concluded side).step op

/-- A segment leaves a sender only after the other side has assembled all of it; and a side that is
    done without an error has delivered all that it accepted, has received all that the other side
    accepted, and both of them know it. -/
theorem acknowledged_arrived (a b : Setup) (before after : List Event)
    (short : ((start a b).run (before ++ after)).Short) (side : Side) :
    let earlier := ((start a b).run before).party side
    let speaker := ((start a b).run (before ++ after)).party side
    let listener := ((start a b).run (before ++ after)).party side.other
    (∀ sent ∈ earlier.connection.sender.outstanding,
      sent ∉ speaker.connection.sender.outstanding →
        sent.segment.payload <+: listener.received.drop (sent.start - 1) ∧
          (sent.segment.flags.fin = true → listener.connection.inbound.inputEnded = true)) ∧
      (speaker.connection.active = false → speaker.connection.inbound.failed = false →
        speaker.connection.outbound.failed = false →
        (listener.received = speaker.accepted ∧ listener.connection.inbound.inputEnded = true) ∧
          speaker.received = listener.accepted ∧
          speaker.connection.inbound.inputEnded = true) := by
  intro earlier speaker listener
  have conveys := (conveys_start a b).run short
  have speaks : speaker.Conveys listener := conveys side
  have listens : listener.Conveys speaker := by
    have back := conveys side.other
    rw [Side.other_other] at back
    exact back
  constructor
  · have start_short : ((start a b).run before).Short := by
      rw [run_append] at short
      exact Short.start short
    have began := (conveys_start a b).run start_short
    rw [run_append] at short
    obtain ⟨extension, advances⟩ := began.run_extends short side
    rw [← run_append] at extension advances
    intro sent outstanding left
    have covers := ((began side).faithful.outstanding sent outstanding).1.extend extension
    rcases advances.kept sent outstanding with stays | acknowledged
    · exact absurd stays left
    · exact speaks.assembled covers acknowledged
  · intro inactive inbound outbound
    rcases run_concluded a b (before ++ after) side inactive with failed | ⟨inward, outward⟩
    · have failed : speaker.connection.inbound.failed = true := failed.1
      rw [inbound] at failed
      cases failed
    · have ended : speaker.connection.inbound.inputEnded = true := by
        simp only [Connection.inboundComplete, Bool.and_eq_true] at inward
        exact inward.2
      exact ⟨speaks.complete outward, (listens.received.2.2 ended).2, ended⟩

def exchange : List Event :=
  [.call .a .connect, .deliver .a 0, .deliver .b 0, .call .a (.write [7, 8]), .call .a .finish,
    .deliver .a 3, .deliver .a 2, .call .b (.write [9]), .call .b .finish]

def farewell : List Event := [.deliver .b 4, .deliver .b 3, .deliver .a 5]

theorem acknowledged_arrived_farewell :
    let setup := Setup.ofConfig { receiveCapacity := 4, sendCapacity := 4, isn := some ⟨0xfffffffe⟩ }
    let last := (start setup setup).run (exchange ++ farewell)
    let sent : Sent := ⟨1, { seqno := ⟨0xffffffff⟩, payload := [9] }⟩
    last.Short ∧
      sent ∈ (((start setup setup).run exchange).party .b).connection.sender.outstanding ∧
      sent ∉ (last.party .b).connection.sender.outstanding ∧
      sent.segment.payload <+: (last.party .a).received.drop (sent.start - 1) ∧
      (last.party .b).connection.active = false ∧
      (last.party .a).received = (last.party .b).accepted ∧
      (last.party .b).received = (last.party .a).accepted := by
  intro setup last sent
  have short : last.Short := by
    intro side
    cases side <;> decide +kernel
  obtain ⟨arrived, agreed⟩ := acknowledged_arrived setup setup exchange farewell short .b
  obtain ⟨payload, _⟩ := arrived sent (by decide +kernel) (by decide +kernel)
  obtain ⟨⟨delivered, _⟩, received, _⟩ :=
    agreed (by decide +kernel) (by decide +kernel) (by decide +kernel)
  exact ⟨short, by decide +kernel, by decide +kernel, payload, by decide +kernel, delivered,
    received⟩

end Session

end NetStack.Simulation
