import NetStack.Proofs.Session.Conveyance

namespace NetStack

namespace Simulation

open Tcp

theorem Party.inputEnded_act {p : Party} (ready : p.Ready) {op : Connection.Op} :
    (p.act op).connection.outbound.inputEnded = true ↔
      p.connection.outbound.inputEnded = true ∨ op = .finish := by
  have asks {asked : List Sender.Op} {fed : List Receiver.Op} {reply : Connection.Reply}
      (carries : p.connection.Carries op reply asked fed)
      (sender : (p.act op).connection.sender = { p.connection.sender.run asked with queue := [] }) :
      (p.act op).connection.outbound.inputEnded = true ↔
        p.connection.outbound.inputEnded = true ∨ .input .endInput ∈ asked := by
    unfold Connection.outbound
    rw [sender]
    exact Sender.inputEnded_run_iff fun request member => (carries.warrants request member).leaves
  constructor
  · intro ended
    obtain ⟨asked, fed, performs⟩ := act_performs ready op
    exact ((asks performs.carries performs.sender).mp ended).imp_right (performs.carries.warrants _)
  · rintro (already | rfl)
    · obtain ⟨asked, fed, performs⟩ := act_performs ready op
      exact (asks performs.carries performs.sender).mpr (.inl already)
    · have does := p.connection.finish_does ready.sender
      refine (asks .finish ?_).mpr (.inr List.mem_cons_self)
      show { p.connection.finish with queue := [] }.sender = _
      exact does.sender

namespace Session

theorem inputEnded_step {session : Session} {event : Event} {side : Side}
    (ready : (session.party side).Ready) :
    ((session.step event).party side).connection.outbound.inputEnded = true ↔
      (session.party side).connection.outbound.inputEnded = true ∨ event = .call side .finish := by
  constructor
  · intro ended
    rcases session.step_party event side with same | ⟨op, acted, _, finishes⟩
    · rw [same] at ended
      exact .inl ended
    · rw [acted, Party.inputEnded_act ready] at ended
      exact ended.imp_right finishes
  · rintro (already | rfl)
    · rcases session.step_party event side with same | ⟨op, acted, _⟩
      · rw [same]
        exact already
      · rw [acted]
        exact (Party.inputEnded_act ready).mpr (.inl already)
    · unfold step
      rw [party_withParty]
      exact (Party.inputEnded_act ready).mpr (.inr rfl)

theorem ready_step {session : Session} {side : Side} (ready : (session.party side).Ready)
    (event : Event) : ((session.step event).party side).Ready := by
  rcases session.step_party event side with same | ⟨op, acted, _⟩
  · rw [same]
    exact ready
  · rw [acted]
    exact Party.act_ready ready op

theorem inputEnded_run {session : Session} {events : List Event} {side : Side}
    (ready : (session.party side).Ready) :
    ((session.run events).party side).connection.outbound.inputEnded = true ↔
      (session.party side).connection.outbound.inputEnded = true ∨ .call side .finish ∈ events := by
  induction events generalizing session with
  | nil => simp [run]
  | cons event rest ih =>
    have later := ih (ready_step ready event)
    rw [inputEnded_step ready, or_assoc] at later
    rw [List.mem_cons, eq_comm (a := Event.call side .finish)]
    exact later

end Session

/-- Whoever follows what the other one says receives a prefix of what that one accepted. -/
theorem Party.received_of_follows {p q : Party} (faithful : p.connection.sender.Faithful p.accepted)
    (follows : q.connection.receiver.Follows p.transcript q.taken) :
    q.received.length = q.connection.inbound.totalWritten ∧ q.received <+: p.accepted ∧
      (q.connection.inbound.inputEnded = true →
        p.connection.outbound.inputEnded = true ∧ q.received = p.accepted) := by
  have reads := follows.reads
  refine ⟨?_, reads.received.trans (List.take_prefix _ _), fun ended => ?_⟩
  · have length := reads.received_length
    rw [reads.next_eq] at length
    exact length
  · obtain ⟨closed, all⟩ := reads.ended ended
    obtain ⟨told, text⟩ := faithful.all_sent closed
    exact ⟨told, all.trans text⟩

theorem Party.Conveys.received {p q : Party} (conveys : p.Conveys q) :
    q.received.length = q.connection.inbound.totalWritten ∧ q.received <+: p.accepted ∧
      (q.connection.inbound.inputEnded = true →
        p.connection.outbound.inputEnded = true ∧ q.received = p.accepted) :=
  received_of_follows conveys.faithful conveys.follows

namespace Session

/-- Whatever the network does, each side receives the bytes that the other one has accepted, in
    order and from the first one on; and it sees the end only after it was called for, and after
    all of them. -/
theorem received_isPrefix (a b : Setup) (events : List Event)
    (short : ((start a b).run events).Short) (side : Side) :
    let speaker := ((start a b).run events).party side
    let listener := ((start a b).run events).party side.other
    listener.received.length = listener.connection.inbound.totalWritten ∧
      listener.received <+: speaker.accepted ∧
      (listener.connection.inbound.inputEnded = true →
        .call side .finish ∈ events ∧ listener.received = speaker.accepted) := by
  intro speaker listener
  have conveys : speaker.Conveys listener := (conveys_start a b).run short side
  obtain ⟨length, front, all⟩ := conveys.received
  refine ⟨length, front, fun ended => ?_⟩
  obtain ⟨told, whole⟩ := all ended
  rcases (inputEnded_run (conveys_start a b side).ready).mp told with already | called
  · cases side <;> cases already
  · exact ⟨called, whole⟩

/-- One side writes two bytes and ends its stream, and the FIN overtakes the bytes. -/
def overtaking : List Event :=
  [.call .a .connect, .deliver .a 0, .deliver .b 0, .call .a (.write [7, 8]), .call .a .finish,
    .deliver .a 3, .deliver .a 2]

theorem received_isPrefix_overtaking :
    let setup := Setup.ofConfig { receiveCapacity := 4, sendCapacity := 4, isn := some ⟨0xfffffffe⟩ }
    let last := (start setup setup).run overtaking
    last.Short ∧ (last.party .b).connection.inbound.inputEnded = true ∧
      .call .a .finish ∈ overtaking ∧ (last.party .b).received = (last.party .a).accepted ∧
      (last.party .a).accepted = [7, 8] := by
  intro setup last
  have short : last.Short := by
    intro side
    cases side <;> decide +kernel
  have ended : (last.party .b).connection.inbound.inputEnded = true := by decide +kernel
  obtain ⟨_, _, all⟩ := received_isPrefix setup setup overtaking short .a
  obtain ⟨called, whole⟩ := all ended
  exact ⟨short, ended, called, whole, by decide +kernel⟩

end Session

end Simulation

end NetStack
