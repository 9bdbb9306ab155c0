import NetStack.Proofs.Session.Conveyance
import NetStack.Proofs.Tcp.Flow

namespace NetStack

namespace Tcp

namespace Segment

def firstByte (segment : Segment) (isn : SeqNo) : Nat :=
  segment.seqno.positionNear isn 0 + segment.flags.syn.toNat

def HasByte (segment : Segment) (isn : SeqNo) (position : Nat) : Prop :=
  segment.firstByte isn ≤ position ∧ position < segment.firstByte isn + segment.payload.length

instance (segment : Segment) (isn : SeqNo) (position : Nat) :
    Decidable (segment.HasByte isn position) := inferInstanceAs (Decidable (_ ∧ _))

def ackPosition (segment : Segment) (isn : SeqNo) : Nat := segment.ackno.positionNear isn 0

def rightEdge (segment : Segment) (isn : SeqNo) : Nat :=
  segment.ackPosition isn + segment.window.toNat

end Segment

theorem Transcript.Covers.hasByte {t : Transcript} {start position : Nat} {segment : Segment}
    (covers : t.Covers start segment) (near : t.length < 0x80000000)
    (byte : segment.HasByte t.isn position) : 0 < position ∧ position ≤ t.text.length := by
  have stop := covers.stop_le
  have place : segment.seqno.positionNear t.isn 0 = start := by
    rw [covers.seqno]
    exact SeqNo.positionNear_of_small t.isn (by omega) (by decide)
  obtain ⟨beyond, within⟩ := byte
  unfold Segment.firstByte at beyond within
  rw [place] at beyond within
  have noSyn : segment.flags.syn = false := by
    by_contra syn
    rw [(covers.alone_of_syn (eq_true_of_ne_false syn)).1, List.length_nil] at within
    omega
  have later : start ≠ 0 := by
    rintro rfl
    rw [covers.payload_of_start] at within
    simp at within
    omega
  have fits := covers.payload.length_le
  rw [List.length_drop] at fits
  rw [noSyn, Bool.toNat_false] at beyond within
  omega

theorem Sender.Holds.hasByte {isn : SeqNo} {stop position : Nat} {segment : Segment}
    (holds : Holds isn stop segment position) (near : stop ≤ 0x80000000) (c : Connection) :
    (c.stamp segment).HasByte isn position := by
  obtain ⟨noSyn, start, before_stop, seqno, beyond, within⟩ := holds
  have place : (c.stamp segment).firstByte isn = start := by
    unfold Segment.firstByte
    rw [c.stamp_seqno, c.stamp_syn, noSyn, seqno, SeqNo.positionNear_of_small isn (by omega) (by decide)]
    rfl
  unfold Segment.HasByte
  rw [place, c.stamp_payload]
  exact ⟨beyond, within⟩

end Tcp

namespace Simulation

open Tcp

namespace Party

/-- The byte at a position is sent between two states of a party, and was not sent before. -/
def SendsFirst (before after : Party) (position : Nat) : Prop :=
  (∃ segment ∈ after.sent.drop before.sent.length,
    segment.HasByte before.connection.sender.isn position) ∧
  ∀ segment ∈ before.sent, ¬ segment.HasByte before.connection.sender.isn position

instance (before after : Party) (position : Nat) : Decidable (before.SendsFirst after position) :=
  inferInstanceAs (Decidable (_ ∧ _))

/-- Some segment of the party has advertised a window with room for the position. -/
def Advertises (q : Party) (isn : SeqNo) (position : Nat) : Prop :=
  ∃ segment ∈ q.sent, segment.flags.ack = true ∧ position < segment.rightEdge isn

instance (q : Party) (isn : SeqNo) (position : Nat) : Decidable (q.Advertises isn position) :=
  inferInstanceAs (Decidable (∃ segment ∈ q.sent, _))

/-- All else that was sent is acknowledged: the position probes a closed window. -/
def Probes (p : Party) (position : Nat) : Prop :=
  p.connection.sender.acked = position ∧ p.connection.sender.next = position + 1

instance (p : Party) (position : Nat) : Decidable (p.Probes position) :=
  inferInstanceAs (Decidable (_ ∧ _))

def acks (p : Party) : List Segment := p.heard.filter Segment.acknowledges

/-- The acknowledgement that was heard last is older than another one, and its window on top of what
    that one acknowledges has room for the position. -/
def Overrates (p : Party) (position : Nat) : Prop :=
  ∃ last ∈ p.acks.getLast?, ∃ newer ∈ p.acks,
    last.ackPosition p.connection.sender.isn < newer.ackPosition p.connection.sender.isn ∧
      position < newer.ackPosition p.connection.sender.isn + last.window.toNat

/-- The window is that of the acknowledgement heard last, and what is acknowledged is the most that
    any of them acknowledges. -/
def Heeds (p : Party) : Prop :=
  (p.acks = [] ∧ p.connection.sender.acked = 0 ∧ p.connection.sender.window = 1) ∨
    ∃ last ∈ p.acks.getLast?, p.connection.sender.window = last.window ∧
      last.ackPosition p.connection.sender.isn ≤ p.connection.sender.acked ∧
      ∃ newest ∈ p.acks, newest.ackPosition p.connection.sender.isn = p.connection.sender.acked

structure Attends (p q : Party) : Prop where
  heard : ∀ segment ∈ p.heard, segment ∈ q.sent
  logged : ∀ position, 0 < position → position ≤ p.connection.outbound.totalRead →
    ∃ segment ∈ p.sent, segment.HasByte p.connection.sender.isn position
  heeds : p.connection.active = true → p.Heeds

variable {p q : Party} {op : Connection.Op}

theorem Conveys.opened (conveys : p.Conveys q)
    (heard : ∀ segment, op = .receive segment → segment ∈ q.sent) :
    ∀ segment, op = .receive segment → segment.flags.ack = true →
      p.connection.isUnopened = false := by
  intro segment received ack
  obtain ⟨position, _, positive, _, said⟩ := conveys.backed segment (heard segment received) ack
  have length : p.transcript.length = p.connection.sender.next :=
    conveys.faithful.transcript_length
  have opened : p.connection.sender.next ≠ 0 := by omega
  simpa [Connection.isUnopened] using opened

theorem acks_act (p : Party) (op : Connection.Op) :
    (p.act op).acks = p.acks ++ (heardBy op).filter Segment.acknowledges :=
  List.filter_append _ _

theorem Conveys.ackPosition_eq (conveys : p.Conveys q) (short : p.accepted.length + 2 < 0x80000000)
    {segment : Segment} (heard : segment ∈ q.sent) (ack : segment.flags.ack = true) :
    ∃ position, segment.ackno = .ofPosition position p.connection.sender.isn ∧
      segment.ackPosition p.connection.sender.isn = position ∧ 0 < position ∧
      position ≤ p.connection.sender.next ∧ position < 0x80000000 := by
  obtain ⟨position, ackno, positive, assembled, said⟩ := conveys.backed segment heard ack
  have length : p.transcript.length = p.connection.sender.next :=
    conveys.faithful.transcript_length
  have bound := conveys.ackPosition_le
  have isn : p.transcript.isn = p.connection.sender.isn := rfl
  rw [isn] at ackno
  refine ⟨position, ackno, ?_, positive, by omega, by omega⟩
  unfold Segment.ackPosition
  rw [ackno]
  exact SeqNo.positionNear_of_small _ (by omega) (by decide)

theorem Heeds.keep {later : Party} (heeds : p.Heeds) (acks : later.acks = p.acks)
    (isn : later.connection.sender.isn = p.connection.sender.isn)
    (acked : later.connection.sender.acked = p.connection.sender.acked)
    (window : later.connection.sender.window = p.connection.sender.window) : later.Heeds := by
  unfold Heeds
  rw [acks, isn, acked, window]
  exact heeds

/-- An acknowledgement takes the place of the last one, whatever its age. -/
theorem Heeds.hear {later : Party} {segment : Segment} (heeds : p.Heeds)
    (acks : later.acks = p.acks ++ [segment])
    (isn : later.connection.sender.isn = p.connection.sender.isn)
    (positive : 0 < segment.ackPosition p.connection.sender.isn)
    (acked : later.connection.sender.acked =
      max p.connection.sender.acked (segment.ackPosition p.connection.sender.isn))
    (window : later.connection.sender.window = segment.window) : later.Heeds := by
  refine .inr ⟨segment, by simp [acks], window, ?_, ?_⟩
  · rw [isn, acked]
    exact Nat.le_max_right _ _
  · rw [isn, acked, acks]
    by_cases news : p.connection.sender.acked ≤ segment.ackPosition p.connection.sender.isn
    · exact ⟨segment, by simp, (Nat.max_eq_right news).symm⟩
    · rcases heeds with ⟨_, nothing, _⟩ | ⟨_, _, _, _, newest, member, highest⟩
      · omega
      · refine ⟨newest, List.mem_append_left _ member, ?_⟩
        rw [highest]
        omega

theorem Conveys.heeds_act (conveys : p.Conveys q) (heeds : p.Heeds)
    (active : p.connection.active = true)
    (heard : ∀ segment, op = .receive segment → segment ∈ q.sent)
    (short : p.accepted.length + 2 < 0x80000000) : (p.act op).Heeds := by
  obtain ⟨asked, fed, performs⟩ := act_performs conveys.ready op
  have isn : (p.act op).connection.sender.isn = p.connection.sender.isn :=
    (act_advances conveys.ready op).isn
  rcases performs.carries.hearing active (conveys.opened heard) with
    ⟨quiet, deaf⟩ | ⟨segment, rest, rfl, acknowledges, rfl, quiet⟩
  · have same : (p.act op).acks = p.acks := by
      rw [acks_act]
      cases op with
      | receive segment => simp [heardBy, deaf segment rfl]
      | connect | write | finish | tick | abort | read | dispatch | wait => simp [heardBy]
    obtain ⟨acked, window, _⟩ := Sender.quiet_run (s := p.connection.sender) quiet
    apply heeds.keep same isn
    · rw [performs.sender]
      exact acked
    · rw [performs.sender]
      exact window
  · obtain ⟨position, ackno, place, positive, sent, near⟩ := conveys.ackPosition_eq short
      (heard segment rfl) ((Bool.and_eq_true _ _).mp acknowledges).1
    have told : (p.connection.sender.acknowledge segment.ackno segment.window).acked =
          max p.connection.sender.acked position ∧
        (p.connection.sender.acknowledge segment.ackno segment.window).window = segment.window := by
      have bound := conveys.acked_le
      have limit := conveys.ackPosition_le
      rw [ackno]
      exact Sender.acknowledge_heard segment.window sent (by omega) near
    obtain ⟨acked, window, _⟩ := Sender.quiet_run
      (s := p.connection.sender.acknowledge segment.ackno segment.window) quiet
    have acks : (p.act (.receive segment)).acks = p.acks ++ [segment] := by
      rw [acks_act]
      simp [heardBy, acknowledges]
    apply heeds.hear acks isn
    · rw [place]
      exact positive
    · rw [place, performs.sender]
      exact acked.trans told.1
    · rw [performs.sender]
      exact window.trans told.2

theorem Conveys.logged_act (conveys : p.Conveys q)
    (heard : ∀ segment, op = .receive segment → segment ∈ q.sent)
    (short : (p.act op).accepted.length + 2 < 0x80000000) {position : Nat}
    (beyond : p.connection.outbound.totalRead < position)
    (within : position ≤ (p.act op).connection.outbound.totalRead) :
    ∃ segment ∈ (p.act op).sent, segment.HasByte p.connection.sender.isn position := by
  have earlier : p.accepted.length ≤ (p.act op).accepted.length :=
    (List.prefix_append _ _).length_le
  have limit := (conveys.speak heard (by omega)).faithful.next_le
  obtain ⟨asked, fed, performs⟩ := act_performs conveys.ready op
  unfold Connection.outbound at beyond within
  rw [performs.sender] at limit within
  dsimp only at limit
  obtain ⟨segment, queued, holds⟩ := performs.carries.speaks conveys.faithful beyond within
  rw [performs.sent]
  refine ⟨_, List.mem_append_right _ (List.mem_map_of_mem queued), ?_⟩
  exact holds.hasByte (by omega) _

theorem Attends.act (attends : p.Attends q) (conveys : p.Conveys q)
    (heard : ∀ segment, op = .receive segment → segment ∈ q.sent)
    (short : (p.act op).accepted.length + 2 < 0x80000000) : (p.act op).Attends q := by
  have isn : (p.act op).connection.sender.isn = p.connection.sender.isn :=
    (act_advances conveys.ready op).isn
  have earlier : p.accepted.length ≤ (p.act op).accepted.length :=
    (List.prefix_append _ _).length_le
  constructor
  · intro segment member
    rcases List.mem_append.mp member with before | now
    · exact attends.heard segment before
    · cases op with
      | receive received =>
        cases List.mem_singleton.mp now
        exact heard segment rfl
      | connect | write | finish | tick | abort | read | dispatch | wait => cases now
  · intro position positive within
    rw [isn]
    by_cases before : position ≤ p.connection.outbound.totalRead
    · obtain ⟨segment, member, byte⟩ := attends.logged position positive before
      exact ⟨segment, List.mem_append_left _ member, byte⟩
    · exact conveys.logged_act heard short (by omega) within
  · intro active
    have before : p.connection.active = true := Connection.active_of_step active
    exact conveys.heeds_act (attends.heeds before) before heard (by omega)

theorem Attends.grow (attends : p.Attends q) {later : Party} (grown : q.sent ⊆ later.sent) :
    p.Attends later :=
  ⟨fun segment member => grown (attends.heard segment member), attends.logged, attends.heeds⟩

theorem Conveys.byte_within (conveys : p.Conveys q) (short : p.accepted.length + 2 < 0x80000000)
    {segment : Segment} {position : Nat} (member : segment ∈ p.sent)
    (byte : segment.HasByte p.connection.sender.isn position) :
    0 < position ∧ position ≤ p.connection.outbound.totalRead := by
  have length : p.transcript.length = p.connection.sender.next :=
    conveys.faithful.transcript_length
  have limit := conveys.faithful.next_le
  have text : p.transcript.text.length = p.connection.outbound.totalRead :=
    conveys.faithful.text_length
  rcases conveys.sent segment member with ⟨_, bare⟩ | ⟨start, covers⟩
  · obtain ⟨beyond, within⟩ := byte
    rw [bare, List.length_nil] at within
    omega
  · rw [← text]
    exact covers.hasByte (by omega) byte

theorem act_next_le (active : p.connection.active = true) (conveys : p.Conveys q)
    (heard : ∀ segment, op = .receive segment → segment ∈ q.sent) :
    (p.act op).connection.sender.next ≤
      max p.connection.sender.next (p.act op).connection.sender.rightEdge := by
  obtain ⟨asked, fed, performs⟩ := act_performs conveys.ready op
  rw [performs.sender]
  exact performs.carries.next_le active (conveys.opened heard)

theorem totalRead_act_of_inactive (ready : p.Ready) (op : Connection.Op)
    (inactive : p.connection.active = false) :
    (p.act op).connection.outbound.totalRead = p.connection.outbound.totalRead := by
  obtain ⟨asked, fed, performs⟩ := act_performs ready op
  unfold Connection.outbound
  rw [performs.sender]
  exact performs.carries.totalRead_of_inactive inactive

theorem SendsFirst.place {position : Nat} (first : p.SendsFirst (p.act op) position)
    (attends : p.Attends q) (conveys : p.Conveys q)
    (heard : ∀ segment, op = .receive segment → segment ∈ q.sent)
    (short : (p.act op).accepted.length + 2 < 0x80000000) :
    p.connection.active = true ∧ 0 < position ∧ p.connection.sender.next ≤ position ∧
      position < (p.act op).connection.sender.next ∧
      (p.act op).connection.sender.next ≤ (p.act op).connection.sender.rightEdge := by
  obtain ⟨⟨segment, fresh, byte⟩, unsent⟩ := first
  have earlier : p.accepted.length ≤ (p.act op).accepted.length :=
    (List.prefix_append _ _).length_le
  have after := conveys.speak heard (by omega)
  have extension := act_extends conveys.ready conveys.faithful op
  have isn : (p.act op).connection.sender.isn = p.connection.sender.isn := extension.isn
  rw [← isn] at byte
  obtain ⟨positive, within⟩ := after.byte_within short (List.mem_of_mem_drop fresh) byte
  have beyond : p.connection.outbound.totalRead < position := by
    by_contra sent
    obtain ⟨old, member, holds⟩ := attends.logged position positive (by omega)
    exact unsent old member holds
  have active : p.connection.active = true := by
    by_contra inactive
    have still := totalRead_act_of_inactive conveys.ready op (eq_false_of_ne_true inactive)
    omega
  have behind : p.connection.sender.next ≤ position :=
    conveys.faithful.next_le_of_extends after.faithful extension beyond within
  have ahead : position < (p.act op).connection.sender.next :=
    after.faithful.placed.lt_next positive within
  have edge := act_next_le active conveys heard
  exact ⟨active, positive, behind, ahead, by omega⟩

/-- What lets a new byte out: a window that was advertised, a probe, or an old window on top of a
    newer acknowledgement. -/
theorem SendsFirst.reason {position : Nat} (first : p.SendsFirst (p.act op) position)
    (attends : p.Attends q) (conveys : p.Conveys q)
    (heard : ∀ segment, op = .receive segment → segment ∈ q.sent)
    (short : (p.act op).accepted.length + 2 < 0x80000000) :
    q.Advertises p.connection.sender.isn position ∨ (p.act op).Probes position ∨
      (p.act op).Overrates position := by
  obtain ⟨active, positive, behind, ahead, within⟩ :=
    first.place attends conveys heard short
  have earlier : p.accepted.length ≤ (p.act op).accepted.length :=
    (List.prefix_append _ _).length_le
  have attended := attends.act conveys heard short
  have heeds := conveys.heeds_act (attends.heeds active) active heard (by omega)
  have isn : (p.act op).connection.sender.isn = p.connection.sender.isn :=
    (act_advances conveys.ready op).isn
  unfold Sender.rightEdge at within
  rcases heeds with ⟨_, acked, window⟩ | ⟨last, member, window, stale, newest, among, highest⟩
  · rw [acked, window] at within
    have one : (1 : UInt16).toNat = 1 := rfl
    omega
  · have sent {segment : Segment} (member : segment ∈ (p.act op).acks) :
        segment ∈ q.sent ∧ segment.flags.ack = true := by
      obtain ⟨hears, acknowledges⟩ := List.mem_filter.mp member
      exact ⟨attended.heard segment hears, ((Bool.and_eq_true _ _).mp acknowledges).1⟩
    have lastSent := sent (List.mem_of_getLast? member)
    have newestSent := sent among
    rw [isn] at stale highest
    rw [window] at within
    by_cases closed : last.window.toNat = 0
    · right
      left
      obtain ⟨_, _, place, _, known, _⟩ :=
        conveys.ackPosition_eq (by omega) newestSent.1 newestSent.2
      constructor <;> omega
    · by_cases old : last.ackPosition p.connection.sender.isn < (p.act op).connection.sender.acked
      · refine .inr (.inr ⟨last, member, newest, among, ?_, ?_⟩)
        · rw [isn, highest]
          exact old
        · rw [isn, highest]
          omega
      · refine .inl ⟨last, lastSent.1, lastSent.2, ?_⟩
        unfold Segment.rightEdge
        omega

theorem attends_start (first second : Setup) : first.party.Attends second.party where
  heard := by simp [Setup.party]
  logged := by
    intro position positive within
    have within : position ≤ 0 := within
    omega
  heeds := fun _ => .inl ⟨rfl, rfl, rfl⟩

theorem not_sendsFirst_self (p : Party) (position : Nat) : ¬ p.SendsFirst p position := by
  rintro ⟨⟨segment, fresh, _⟩, _⟩
  simp at fresh

end Party

namespace Session

def Attends (session : Session) : Prop :=
  ∀ side, (session.party side).Attends (session.party side.other)

theorem Attends.step {session : Session} (attends : session.Attends) (conveys : session.Conveys)
    {event : Event} (short : (session.step event).Short) : (session.step event).Attends := by
  intro side
  have grown := (session.step_grows event side.other).2
  apply Party.Attends.grow (q := session.party side.other) ?_ grown.subset
  rcases session.step_party event side with same | ⟨op, acted, heard, _⟩
  · rw [same]
    exact attends side
  · have bound := short side
    rw [acted] at bound ⊢
    exact (attends side).act (conveys side) heard (Nat.add_lt_of_lt_sub bound)

theorem Attends.run {session : Session} (attends : session.Attends) (conveys : session.Conveys)
    {events : List Event} (short : (session.run events).Short) : (session.run events).Attends :=
  conveys.run_induction attends (fun _ _ order after before => before.step order after) short

theorem attends_start (a b : Setup) : (start a b).Attends := by
  intro side
  cases side
  · exact Party.attends_start a b
  · exact Party.attends_start b a

/-- A byte is sent for the first time only where the other side has advertised a window with room
    for it, or to probe a closed window, or where an old window came after a newer acknowledgement
    and the two together have room for it. -/
theorem sendsFirst_within (a b : Setup) (events : List Event) (event : Event) (side : Side)
    (position : Nat) (short : (((start a b).run events).step event).Short)
    (first : (((start a b).run events).party side).SendsFirst
      ((((start a b).run events).step event).party side) position) :
    let before := ((start a b).run events).party side
    let after := (((start a b).run events).step event).party side
    let listener := ((start a b).run events).party side.other
    listener.Advertises before.connection.sender.isn position ∨ after.Probes position ∨
      after.Overrates position := by
  intro before after listener
  have conveys := (conveys_start a b).run short.before
  have attends := (attends_start a b).run (conveys_start a b) short.before
  rcases ((start a b).run events).step_party event side with same | ⟨op, acted, heard, _⟩
  · rw [same] at first
    exact absurd first (Party.not_sendsFirst_self _ _)
  · have bound := short side
    have acts : after = before.act op := acted
    rw [acted] at bound first
    rw [acts]
    exact first.reason (attends side) (conveys side) heard (Nat.add_lt_of_lt_sub bound)

/-- Four bytes fill the window of the other side, which says so; a fifth one probes it. -/
def filled : List Event :=
  [.call .a .connect, .deliver .a 0, .deliver .b 0, .call .a (.write [1, 2, 3, 4, 5, 6, 7, 8]),
    .deliver .a 2, .deliver .b 1]

def writer : Setup := .ofConfig { receiveCapacity := 4, sendCapacity := 16, isn := some ⟨0⟩ }

def reader : Setup := .ofConfig { receiveCapacity := 4, sendCapacity := 4, isn := some ⟨0⟩ }

/-- When its first acknowledgement is repeated after that, bytes are sent that no window was ever
    advertised for, although the position before them is not acknowledged. -/
theorem filled_repeated_not_advertised :
    let before := (start writer reader).run filled
    let after := before.step (.deliver .b 0)
    after.Short ∧ (before.party .a).SendsFirst (after.party .a) 6 ∧
      ¬ (before.party .b).Advertises (before.party .a).connection.sender.isn 6 ∧
      ¬ (after.party .a).Probes 6 := by
  intro before after
  refine ⟨?_, by decide +kernel, by decide +kernel, by decide +kernel⟩
  intro side
  cases side <;> decide +kernel

theorem sendsFirst_within_filled :
    let after := ((start writer reader).run filled).step (.deliver .b 0)
    after.Short ∧
      (((start writer reader).run filled).party .a).SendsFirst (after.party .a) 6 ∧
      (after.party .a).Overrates 6 := by
  intro after
  have short : after.Short := by
    intro side
    cases side <;> decide +kernel
  have first : (((start writer reader).run filled).party .a).SendsFirst (after.party .a) 6 := by
    decide +kernel
  rcases sendsFirst_within writer reader filled (.deliver .b 0) .a 6 short first with
    advertised | probed | overrated
  · exact absurd advertised (by decide +kernel)
  · exact absurd probed (by decide +kernel)
  · exact ⟨short, first, overrated⟩

end Session

end Simulation

end NetStack
