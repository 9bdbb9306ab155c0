import NetStack.Proofs.Session.Session
import NetStack.Proofs.Tcp.Following
import NetStack.Proofs.Tcp.Halves

namespace NetStack

namespace Tcp

theorem Transcript.Covers.stamp {t : Transcript} {position : Nat} {segment : Segment}
    (covers : t.Covers position segment) (c : Connection) : t.Covers position (c.stamp segment) where
  seqno := by rw [c.stamp_seqno, covers.seqno]
  stop_le := by simpa using covers.stop_le
  payload := by simpa using covers.payload
  syn := by simpa using covers.syn
  start := by simpa using covers.start
  fin := by simpa using covers.fin

theorem Receiver.Follows.backs {c : Connection} {t : Transcript} {taken : Bytes}
    (follows : c.receiver.Follows t taken) {segment : Segment} (bare : segment.flags.ack = false) :
    c.receiver.Backs t (c.stamp segment) := by
  intro ack
  unfold Connection.stamp at ack ⊢
  cases isn : c.receiver.isn with
  | none => simp [Receiver.ackno?, isn, bare] at ack
  | some isn' =>
    obtain ⟨rfl, opened⟩ := follows.synced isn' isn
    have bound := follows.ackPosition_le
    refine ⟨c.receiver.ackPosition, by simp [Receiver.ackno?, isn], ?_, Nat.le_refl _, ?_⟩
    · unfold Receiver.ackPosition
      omega
    · unfold Transcript.length
      rw [opened]
      exact bound

theorem Sender.admittedBy_eq_nil {s : Sender} {ops : List Sender.Op}
    (quiet : ∀ data, .input (.write data) ∉ ops) : s.admittedBy ops = [] := by
  induction ops generalizing s with
  | nil => rfl
  | cons op rest ih =>
    have first : s.admitted op = [] := by
      unfold admitted
      split
      · rename_i data
        exact absurd List.mem_cons_self (quiet data)
      · rfl
    rw [admittedBy, first, List.nil_append]
    exact ih fun data member => quiet data (List.mem_cons_of_mem _ member)

end Tcp

namespace Simulation

open Tcp

section Carries

variable {c : Connection} {op : Connection.Op} {reply : Connection.Reply} {asked : List Sender.Op}
  {fed : List Receiver.Op}

theorem admittedBy_of_carries (carries : c.Carries op reply asked fed) :
    c.sender.admittedBy asked = acceptedBy op reply := by
  have quiet (other : ∀ data, op ≠ .write data) : c.sender.admittedBy asked = [] :=
    Sender.admittedBy_eq_nil fun data member => other data (carries.warrants _ member)
  cases carries with
  | ignored noCount noBytes noSegment =>
    unfold acceptedBy
    split
    · rename_i written
      exact absurd rfl (noCount written)
    · rfl
  | write =>
    rw [Sender.admittedBy, Sender.admittedBy_eq_nil, List.append_nil]
    · rfl
    · intro data member
      split at member <;> simp at member
  | deaf | connect | finish | receive | reset | tick | giveUp | abort | read =>
    exact quiet (by simp)

theorem follows_of_carries (carries : c.Carries op reply asked fed) {t : Transcript} {taken : Bytes}
    (follows : c.receiver.Follows t taken)
    (allowed : ∀ segment, op = .receive segment → t.Allows segment)
    (short : t.text.length + 2 < 0x80000000) :
    (c.receiver.run fed).Follows t (taken ++ takenBy reply) := by
  cases carries with
  | ignored noCount noBytes noSegment =>
    have nothing : takenBy reply = [] := by
      unfold takenBy
      split
      · rename_i data
        exact absurd rfl (noBytes data)
      · rfl
    rw [nothing, List.append_nil]
    exact follows
  | receive _ plain =>
    simp only [takenBy, List.append_nil]
    rcases allowed _ rfl with ⟨reset, _⟩ | ⟨position, covers⟩
    · simp [plain] at reset
    · exact follows.receive covers short
  | reset | giveUp | abort =>
    simp only [takenBy, List.append_nil]
    exact follows.fail
  | deaf | connect | write | finish | tick =>
    simp only [takenBy, List.append_nil]
    exact follows
  | read => exact follows.pop _

theorem ackPosition_le_of_carries (carries : c.Carries op reply asked fed) :
    c.receiver.ackPosition ≤ (c.receiver.run fed).ackPosition := by
  cases carries with
  | receive => exact (c.receiver.receive_grows _).1
  | ignored | deaf | connect | write | finish | reset | tick | giveUp | abort =>
    exact Nat.le_refl _
  | read =>
    show c.inbound.totalWritten + 1 + c.inbound.inputEnded.toNat ≤
      (c.inbound.pop _).totalWritten + 1 + (c.inbound.pop _).inputEnded.toNat
    rw [ByteStream.totalWritten_pop, ByteStream.inputEnded_pop]

end Carries

namespace Party

def transcript (p : Party) : Transcript := p.connection.sender.transcript p.accepted

structure Ready (p : Party) : Prop where
  sender : p.connection.sender.queue = []
  queue : p.connection.queue = []

structure Performs (p : Party) (op : Connection.Op) (asked : List Sender.Op)
    (fed : List Receiver.Op) : Prop where
  carries : p.connection.Carries op (p.connection.step op).1 asked fed
  sender : (p.act op).connection.sender = { p.connection.sender.run asked with queue := [] }
  receiver : (p.act op).connection.receiver = p.connection.receiver.run fed
  sent : (p.act op).sent =
    p.sent ++ (p.connection.sender.run asked).queue.map (p.act op).connection.stamp
  accepted : (p.act op).accepted = p.accepted ++ p.connection.sender.admittedBy asked

theorem act_performs {p : Party} (ready : p.Ready) (op : Connection.Op) :
    ∃ asked fed, p.Performs op asked fed := by
  obtain ⟨asked, fed, carries, does⟩ := p.connection.step_carries op ready.sender
  refine ⟨asked, fed, carries, does.sender, does.receiver, ?_, ?_⟩
  · show p.sent ++ (p.connection.step op).2.queue = _
    rcases does.queue with appended | ⟨nothing, left⟩
    · rw [appended, ready.queue, List.nil_append]
      rfl
    · rw [ready.queue, List.suffix_nil] at left
      rw [nothing, left, List.map_nil]
  · rw [admittedBy_of_carries carries]
    rfl

theorem act_ready {p : Party} (ready : p.Ready) (op : Connection.Op) : (p.act op).Ready := by
  obtain ⟨_, _, performs⟩ := act_performs ready op
  exact ⟨by rw [performs.sender], rfl⟩

variable {p q : Party}

/-- What `p` has to say and `q` has to follow. -/
structure Conveys (p q : Party) : Prop where
  ready : p.Ready
  faithful : p.connection.sender.Faithful p.accepted
  accounted : p.connection.sender.Accounted
  sent : ∀ segment ∈ p.sent, p.transcript.Allows segment
  follows : q.connection.receiver.Follows p.transcript q.taken
  backed : ∀ segment ∈ q.sent, q.connection.receiver.Backs p.transcript segment
  acked_le : p.connection.sender.acked ≤ q.connection.receiver.ackPosition

theorem Conveys.ackPosition_le (conveys : p.Conveys q) :
    q.connection.receiver.ackPosition ≤ p.accepted.length + 2 := by
  have bound := conveys.follows.ackPosition_le
  have said := conveys.faithful.text_length
  have read := conveys.faithful.read_le
  have closed := p.transcript.closed.toNat_le
  unfold transcript at bound closed
  omega

theorem act_extends (ready : p.Ready) (faithful : p.connection.sender.Faithful p.accepted)
    (op : Connection.Op) : (p.act op).transcript.Extends p.transcript := by
  obtain ⟨asked, fed, performs⟩ := act_performs ready op
  have extension := (faithful.run fun request member =>
    (performs.carries.warrants request member).leaves).2
  unfold transcript
  rw [performs.sender, performs.accepted]
  exact extension

theorem act_faithful (ready : p.Ready) (faithful : p.connection.sender.Faithful p.accepted)
    (op : Connection.Op) : (p.act op).connection.sender.Faithful (p.act op).accepted := by
  obtain ⟨asked, fed, performs⟩ := act_performs ready op
  have kept := (faithful.run fun request member =>
    (performs.carries.warrants request member).leaves).1
  rw [performs.sender, performs.accepted]
  exact kept.queue (by simp)

theorem act_advances (ready : p.Ready) (op : Connection.Op) :
    p.connection.sender.Advances (p.act op).connection.sender := by
  obtain ⟨asked, fed, performs⟩ := act_performs ready op
  have advances := p.connection.sender.run_advances asked
  rw [performs.sender]
  exact ⟨advances.isn, advances.acked, advances.next, advances.kept⟩

theorem Conveys.speak (conveys : p.Conveys q) {op : Connection.Op}
    (heard : ∀ segment, op = .receive segment → segment ∈ q.sent)
    (short : p.accepted.length + 2 < 0x80000000) : (p.act op).Conveys q := by
  have extension := act_extends conveys.ready conveys.faithful op
  obtain ⟨asked, fed, performs⟩ := act_performs conveys.ready op
  have warrants := performs.carries.warrants
  have faithful := (conveys.faithful.run fun request member => (warrants request member).leaves).1
  have said : (p.act op).transcript = (p.connection.sender.run asked).transcript
      (p.accepted ++ p.connection.sender.admittedBy asked) := by
    unfold transcript
    rw [performs.sender, performs.accepted]
    rfl
  constructor
  · exact act_ready conveys.ready op
  · exact act_faithful conveys.ready conveys.faithful op
  · rw [performs.sender]
    have accounted := conveys.accounted.run asked
    exact accounted.congr rfl rfl rfl rfl
  · intro segment member
    rw [performs.sent] at member
    rcases List.mem_append.mp member with earlier | new
    · exact (conveys.sent segment earlier).extend extension
    · obtain ⟨bare, queued, rfl⟩ := List.mem_map.mp new
      rw [said]
      rcases (faithful.queued bare queued).1 with reset | ⟨position, covers⟩
      · exact .inl (by rwa [Connection.stamp_rst, Connection.stamp_payload])
      · exact .inr ⟨position, covers.stamp _⟩
  · exact conveys.follows.extend extension
  · exact fun segment member => (conveys.backed segment member).later (Nat.le_refl _) extension
  · rw [performs.sender]
    refine Sender.acked_run_le (Nat.lt_of_le_of_lt conveys.ackPosition_le short) conveys.acked_le ?_
    intro ackno window member
    obtain ⟨segment, received, _, ack, rfl, _⟩ := warrants _ member
    obtain ⟨position, ackno, _, assembled, _⟩ := conveys.backed segment (heard segment received) ack
    exact ⟨position, assembled, ackno⟩

theorem Conveys.listen (conveys : p.Conveys q) (back : q.Conveys p) {op : Connection.Op}
    (heard : ∀ segment, op = .receive segment → segment ∈ p.sent)
    (short : p.accepted.length + 2 < 0x80000000) : p.Conveys (q.act op) := by
  obtain ⟨asked, fed, performs⟩ := act_performs back.ready op
  have bare := (back.faithful.run fun request member =>
    (performs.carries.warrants request member).leaves).1.queued
  have text : p.transcript.text.length ≤ p.accepted.length := by
    have said := conveys.faithful.text_length
    have read := conveys.faithful.read_le
    unfold transcript
    omega
  have follows : (q.act op).connection.receiver.Follows p.transcript (q.act op).taken := by
    rw [performs.receiver]
    exact follows_of_carries performs.carries conveys.follows
      (fun segment received => conveys.sent segment (heard segment received)) (by omega)
  have grown : q.connection.receiver.ackPosition ≤ (q.act op).connection.receiver.ackPosition := by
    rw [performs.receiver]
    exact ackPosition_le_of_carries performs.carries
  refine ⟨conveys.ready, conveys.faithful, conveys.accounted, conveys.sent, follows, ?_,
    Nat.le_trans conveys.acked_le grown⟩
  intro segment member
  rw [performs.sent] at member
  rcases List.mem_append.mp member with earlier | new
  · exact (conveys.backed segment earlier).later grown (.refl _)
  · obtain ⟨plain, queued, rfl⟩ := List.mem_map.mp new
    exact follows.backs (bare plain queued).2

theorem conveys_start (first second : Setup) : first.party.Conveys second.party where
  ready := ⟨rfl, rfl⟩
  faithful := Sender.ofStorage_faithful _ _ _ _
  accounted := Sender.ofStream_accounted _ _ _ _
  sent := by simp [Setup.party]
  follows := Receiver.ofStorage_follows _ _
  backed := by simp [Setup.party]
  acked_le := Nat.zero_le _

end Party

namespace Session

def Conveys (session : Session) : Prop :=
  ∀ side, (session.party side).Conveys (session.party side.other)

/-- Neither side has accepted more bytes than half a turn of sequence numbers has room for. -/
def Short (session : Session) : Prop :=
  ∀ side, (session.party side).accepted.length < 0x80000000 - 2

theorem Short.before {session : Session} {event : Event} (short : (session.step event).Short) :
    session.Short := fun side =>
  Nat.lt_of_le_of_lt (session.step_grows event side).1.length_le (short side)

theorem Short.start {session : Session} {events : List Event} (short : (session.run events).Short) :
    session.Short := by
  induction events generalizing session with
  | nil => exact short
  | cons event rest ih => exact (ih short).before

theorem Conveys.step {session : Session} (conveys : session.Conveys) (short : session.Short)
    (event : Event) : (session.step event).Conveys := by
  rcases session.step_cases event with same | ⟨actor, op, acted, heard, _⟩
  · rw [same]
    exact conveys
  · have speaks := (conveys actor).speak heard (by have := short actor; omega)
    have listens : (session.party actor.other).Conveys ((session.party actor).act op) := by
      have own := conveys actor.other
      rw [Side.other_other] at own
      exact own.listen (conveys actor) heard (by have := short actor.other; omega)
    intro side
    rw [acted]
    by_cases own : side = actor
    · rw [own, party_withParty, party_other_withParty]
      exact speaks
    · rw [Side.eq_other_of_ne own, party_other_withParty, Side.other_other, party_withParty]
      exact listens

theorem Conveys.run_induction {P : Session → Prop} {session : Session}
    (conveys : session.Conveys) (start : P session)
    (stepped : ∀ before event, before.Conveys → (before.step event).Short → P before →
      P (before.step event))
    {events : List Event} (short : (session.run events).Short) : P (session.run events) := by
  induction events generalizing session with
  | nil => exact start
  | cons event rest ih =>
    have current : (session.step event).Short := Short.start short
    exact ih (conveys.step current.before event) (stepped session event conveys current start) short

theorem Conveys.run {session : Session} (conveys : session.Conveys) {events : List Event}
    (short : (session.run events).Short) : (session.run events).Conveys :=
  conveys.run_induction conveys
    (fun _ event before after _ => before.step after.before event) short

/-- As a session goes on, each party says more, and what it sent stays outstanding until it is
    acknowledged. -/
theorem Conveys.step_extends {session : Session} (conveys : session.Conveys) (event : Event)
    (side : Side) :
    ((session.step event).party side).transcript.Extends (session.party side).transcript ∧
      (session.party side).connection.sender.Advances
        ((session.step event).party side).connection.sender := by
  rcases session.step_party event side with same | ⟨op, acted, _⟩
  · rw [same]
    exact ⟨.refl _, .refl _⟩
  · rw [acted]
    exact ⟨Party.act_extends (conveys side).ready (conveys side).faithful op,
      Party.act_advances (conveys side).ready op⟩

theorem Conveys.run_extends {session : Session} (conveys : session.Conveys) {events : List Event}
    (short : (session.run events).Short) (side : Side) :
    ((session.run events).party side).transcript.Extends (session.party side).transcript ∧
      (session.party side).connection.sender.Advances
        ((session.run events).party side).connection.sender := by
  apply conveys.run_induction (P := fun later =>
    (later.party side).transcript.Extends (session.party side).transcript ∧
      (session.party side).connection.sender.Advances (later.party side).connection.sender)
  · exact ⟨.refl _, .refl _⟩
  · intro before event order _ soFar
    obtain ⟨extension, advances⟩ := order.step_extends event side
    exact ⟨extension.trans soFar.1, soFar.2.trans advances⟩
  · exact short

theorem conveys_start (a b : Setup) : (start a b).Conveys := by
  intro side
  cases side
  · exact Party.conveys_start a b
  · exact Party.conveys_start b a

end Session

end Simulation

end NetStack
