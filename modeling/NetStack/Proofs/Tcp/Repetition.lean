import NetStack.Proofs.Stream.Repetition
import NetStack.Proofs.Tcp.Advertising
import NetStack.Proofs.Tcp.Arrivals
import NetStack.Proofs.Tcp.Exhaustion
import NetStack.Proofs.Tcp.Linger

namespace NetStack

theorem Reassembler.Tidy.next_mem {r : Reassembler} (tidy : r.Tidy) {data : Bytes} {index : Nat}
    {isLast : Bool} (grown : r.next < (r.insert data index isLast).next) :
    index ≤ r.next ∧ r.next < index + data.length := by
  have unended : r.output.inputEnded = false := by
    by_contra ended
    rw [insert_next_of_ended tidy (eq_true_of_ne_false ended)] at grown
    exact Nat.lt_irrefl _ grown
  have held : r.next ∈ r.held ∪ r.offered data index := by
    rw [← tidy.held_insert unended data index isLast]
    exact mem_held.mpr (.inl grown)
  rcases Finset.mem_union.mp held with earlier | new
  · rcases mem_held.mp earlier with assembled | waits
    · exact absurd assembled (Nat.lt_irrefl _)
    · have gap := (tidy.gap unended).le_of_mem waits
      omega
  · exact (mem_offered.mp new).1

namespace Tcp

namespace SeqNo

theorem positionNear_lt (s isn : SeqNo) {checkpoint : Nat}
    (near : checkpoint < s.positionNear isn checkpoint + 0x80000000) :
    s.positionNear isn checkpoint < positionLimit := by
  have lower := s.distance_lower (ofPosition checkpoint isn)
  have upper := s.distance_upper (ofPosition checkpoint isn)
  unfold positionNear at near ⊢
  dsimp only at near ⊢
  by_cases negative : (checkpoint : Int) + s.distance (ofPosition checkpoint isn) < 0
  · rw [if_pos negative]
    unfold modulus positionLimit
    omega
  · rw [if_neg negative] at near ⊢
    by_cases inside : (checkpoint : Int) + s.distance (ofPosition checkpoint isn) < positionLimit
    · rw [if_pos inside]
      omega
    · rw [if_neg inside] at near
      unfold modulus at near
      unfold positionLimit at inside
      omega

theorem positionNear_again (s isn : SeqNo) {checkpoint later : Nat}
    (behind : later < s.positionNear isn checkpoint + 0x80000000)
    (ahead : s.positionNear isn checkpoint < later + 0x80000000) (order : checkpoint ≤ later) :
    s.positionNear isn later = s.positionNear isn checkpoint := by
  have near := positionNear_ofPosition isn (Nat.le_of_lt behind) ahead
    (s.positionNear_lt isn (Nat.lt_of_le_of_lt order behind))
  rw [ofPosition_positionNear] at near
  exact near

end SeqNo

namespace Receiver

variable {r : Receiver}

theorem place_again (tidy : r.reassembler.Tidy) (isn : SeqNo) {segment : Segment} {position : Nat}
    (place : segment.seqno.positionNear isn (r.stream.totalWritten + 1) = position)
    (proper : ¬ (position = 0 ∧ segment.flags.syn = false))
    (small : r.stream.capacity < 0x40000000) (short : segment.payload.length ≤ 0xffff) :
    segment.seqno.positionNear isn ((r.reassembler.insert segment.payload
      (position + segment.flags.syn.toNat - 1) segment.flags.fin).output.totalWritten + 1) =
        position := by
  have after := tidy.insert segment.payload (position + segment.flags.syn.toNat - 1)
    segment.flags.fin
  have edge := Reassembler.next_le_edge after.next_eq
  rw [Reassembler.edge_insert, Reassembler.edge] at edge
  have before := tidy.next_eq
  have now := after.next_eq
  have order := (r.reassembler.insert_grows segment.payload
    (position + segment.flags.syn.toNat - 1) segment.flags.fin).1
  have read : r.reassembler.output.totalRead ≤ r.reassembler.output.totalWritten :=
    Nat.le_add_right _ _
  unfold stream at place small
  unfold ByteStream.capacity at small edge
  by_cases grown : r.reassembler.next < (r.reassembler.insert segment.payload
      (position + segment.flags.syn.toNat - 1) segment.flags.fin).next
  · have inside := tidy.next_mem grown
    have syn := segment.flags.syn.toNat_le
    have index : position + segment.flags.syn.toNat ≠ 0 := by
      intro zero
      exact proper ⟨by omega, Bool.toNat_eq_zero.mp (by omega)⟩
    rw [← place]
    apply SeqNo.positionNear_again <;> rw [place] <;> omega
  · rw [show (r.reassembler.insert segment.payload (position + segment.flags.syn.toNat - 1)
      segment.flags.fin).output.totalWritten = r.reassembler.output.totalWritten by omega]
    exact place

theorem accept_accept (tidy : r.reassembler.Tidy) (isn : SeqNo) {segment : Segment}
    (small : r.stream.capacity < 0x40000000) (short : segment.payload.length ≤ 0xffff) :
    (r.accept isn segment).accept isn segment = r.accept isn segment := by
  generalize place : segment.seqno.positionNear isn (r.stream.totalWritten + 1) = position
  by_cases refused : position = 0 ∧ segment.flags.syn = false
  · have once : r.accept isn segment = { r with isn := some isn } := by
      unfold accept
      rw [place]
      exact if_pos refused
    rw [once]
    unfold accept stream
    unfold stream at place
    rw [place]
    exact if_pos refused
  · have once : r.accept isn segment = { r with
        isn := some isn
        reassembler := r.reassembler.insert segment.payload
          (position + segment.flags.syn.toNat - 1) segment.flags.fin } := by
      unfold accept
      rw [place]
      exact if_neg refused
    rw [once]
    unfold accept stream
    dsimp only
    rw [place_again tidy isn place refused small short, if_neg refused, tidy.insert_insert]

theorem receive_receive (tidy : r.reassembler.Tidy) {segment : Segment}
    (small : r.stream.capacity < 0x40000000) (short : segment.payload.length ≤ 0xffff) :
    (r.receive segment).receive segment = r.receive segment := by
  have twice (isn : SeqNo) :
      (r.accept isn segment).receive segment = r.accept isn segment := by
    have synced : (r.accept isn segment).isn = some isn := by
      unfold accept
      dsimp only
      split <;> rfl
    unfold receive
    rw [synced]
    exact accept_accept tidy isn small short
  cases synced : r.isn with
  | some isn =>
    have once : r.receive segment = r.accept isn segment := by rw [receive, synced]
    rw [once, twice]
  | none =>
    by_cases syn : segment.flags.syn = true
    · have once : r.receive segment = r.accept segment.seqno segment := by
        rw [receive, synced]
        exact if_pos syn
      rw [once, twice]
    · have once : r.receive segment = r := by
        rw [receive, synced]
        exact if_neg syn
      rw [once, once]

end Receiver

namespace Sender

variable {s : Sender}

/-- An acknowledgement that was noted, whatever was sent since, tells nothing new. One that was
    ignored is ignored again as long as nothing was sent. -/
theorem acknowledge_again {after : Sender} {ackno : SeqNo} {window : UInt16}
    (isn : after.isn = s.isn) (acked : after.acked = (s.acknowledge ackno window).acked)
    (told : after.window = (s.acknowledge ackno window).window)
    (next : (s.acknowledge ackno window).next ≤ after.next)
    (unsent : s.next < ackno.positionNear s.isn s.acked → after.next = s.next) :
    after.acknowledge ackno window = after := by
  have stale (position : Nat) (place : ackno.positionNear after.isn after.acked = position)
      (sent : position ≤ after.next) (old : position ≤ after.acked) (same : after.window = window) :
      after.acknowledge ackno window = after := by
    rcases after.acknowledge_cases ackno window place with ⟨beyond, _⟩ | ⟨_, _, noted⟩ | ⟨_, news, _⟩
    · omega
    · rw [noted, ← same]
    · omega
  rcases s.acknowledge_cases ackno window rfl with ⟨beyond, same⟩ | ⟨sent, old, noted⟩ |
    ⟨sent, news, retired⟩
  · rw [same] at acked
    have place : ackno.positionNear after.isn after.acked = ackno.positionNear s.isn s.acked := by
      rw [isn, acked]
    have still := unsent beyond
    rcases after.acknowledge_cases ackno window place with ⟨_, ignored⟩ | ⟨sent, _⟩ | ⟨sent, _⟩
    · exact ignored
    · omega
    · omega
  · rw [noted] at acked told next
    have acked : after.acked = s.acked := acked
    have next : s.next ≤ after.next := next
    apply stale (ackno.positionNear s.isn s.acked)
    · rw [isn, acked]
    · omega
    · omega
    · exact told
  · have kept := (s.retire (ackno.positionNear s.isn s.acked) window).transmit_keeps
    have later := (s.retire (ackno.positionNear s.isn s.acked) window).transmit_advances.next
    rw [retired, kept.1, retire_acked] at acked
    rw [retired, kept.2.1, retire_window] at told
    rw [retired] at next
    rw [retire_next] at later
    apply stale (ackno.positionNear s.isn s.acked)
    · rw [isn, acked]
      exact ackno.positionNear_again s.isn (by omega) (by omega) (Nat.le_of_lt news)
    · omega
    · omega
    · exact told

theorem run_sendEmpty (s : Sender) {closing : List Op} (bare : ∀ op ∈ closing, op = .sendEmpty) :
    ∃ queue, s.run closing = { s with queue } := by
  induction closing generalizing s with
  | nil => exact ⟨s.queue, rfl⟩
  | cons op rest ih =>
    obtain ⟨rfl, others⟩ := List.forall_mem_cons.mp bare
    exact ih s.sendEmpty others

end Sender

namespace Connection

variable {c : Connection} {segment : Segment} {accepted : Bytes}

theorem settle_settle (c : Connection) : c.settle.settle = c.settle := by
  have lingers : c.settle.settle.lingers = c.settle.lingers := by
    rw [lingers_settle, lingers_settle]
    show (c.lingers && !(c.inboundComplete && !c.outbound.atEnd) &&
      !(c.inboundComplete && !c.outbound.atEnd)) = _
    rw [Bool.and_assoc, Bool.and_self]
  have active : c.settle.settle.active = c.settle.active := by
    rw [active_settle, lingers, active_settle]
    show (c.active && !(c.inboundComplete && c.outboundComplete &&
        (!c.settle.lingers || decide (c.lingerPeriod ≤ c.idle))) &&
      !(c.inboundComplete && c.outboundComplete &&
        (!c.settle.lingers || decide (c.lingerPeriod ≤ c.idle)))) = _
    rw [Bool.and_assoc, Bool.and_self]
  show { c.settle with lingers := c.settle.settle.lingers, active := c.settle.settle.active } = _
  rw [lingers, active]

/-- All that there is in the segment is known to the connection, and its answer has been given. -/
structure Heard (c : Connection) (segment : Segment) : Prop where
  ready : c.sender.queue = []
  received : c.receiver.receive segment = c.receiver
  opened : segment.flags.syn = true → c.isUnopened = false
  noted : segment.flags.ack = true → c.established = true ∧
    c.sender.acknowledge segment.ackno segment.window = c.sender
  exhausted : c.sender.Exhausted
  idle : c.idle = .zero
  settled : c.settle = c

theorem Heard.openFor_eq (heard : c.Heard segment) : c.openFor segment = c := by
  unfold Connection.openFor
  split
  · rename_i opens
    rw [Bool.and_eq_true] at opens
    rw [heard.opened opens.1] at opens
    cases opens.2
  · rfl

theorem Heard.note_eq (heard : c.Heard segment) : c.note segment = c := by
  unfold Connection.note
  split
  · rename_i ack
    obtain ⟨established, same⟩ := heard.noted ack
    dsimp only
    rw [same, ← established]
    split
    · rfl
    · rename_i opened
      rw [Sender.transmit_of_exhausted heard.exhausted opened]
  · rfl

/-- At most one segment, and that one is empty and carries nothing but an acknowledgement. -/
def AtMostBareAck (segments : List Segment) : Prop :=
  segments.length ≤ 1 ∧
    ∀ segment ∈ segments, segment.payload = [] ∧ segment.flags = { ack := true }

theorem atMostBareAck_nil : AtMostBareAck [] := ⟨Nat.zero_le _, by simp⟩

theorem atMostBareAck_stamp (c : Connection) (seqno : SeqNo)
    (synced : c.receiver.ackno?.isSome = true) :
    AtMostBareAck [c.stamp ({ seqno } : Segment)] := by
  obtain ⟨ackno, known⟩ := Option.isSome_iff_exists.mp synced
  refine ⟨Nat.le_refl _, ?_⟩
  intro segment member
  rw [List.mem_singleton.mp member]
  refine ⟨stamp_payload c _, ?_⟩
  unfold stamp
  rw [known]
  rfl

theorem Heard.confirm_eq (heard : c.Heard segment) : ∃ extra, AtMostBareAck extra ∧
    (c.confirm segment).flush.settle = { c with queue := c.queue ++ extra } := by
  have emptied : ({ c.sender with queue := [] } : Sender) = c.sender := by rw [← heard.ready]
  have settled (queue : List Segment) :
      ({ c with queue } : Connection).settle = { c with queue } := by
    show { c.settle with queue } = _
    rw [heard.settled]
  unfold Connection.confirm
  split
  · rename_i due
    rw [Bool.and_eq_true] at due
    refine ⟨_, atMostBareAck_stamp c c.sender.nextSeqno due.2, ?_⟩
    show ({ c with
      queue := c.queue ++ (c.sender.queue ++ [({ seqno := c.sender.nextSeqno } : Segment)]).map c.stamp
      sender := { c.sender with queue := [] } } : Connection).settle = _
    rw [heard.ready, emptied]
    exact settled _
  · refine ⟨[], atMostBareAck_nil, ?_⟩
    show ({ c with
      queue := c.queue ++ c.sender.queue.map c.stamp
      sender := { c.sender with queue := [] } } : Connection).settle = _
    rw [heard.ready, emptied]
    exact settled _

theorem Heard.receive (heard : c.Heard segment) (plain : segment.flags.rst = false) :
    ∃ extra, AtMostBareAck extra ∧ c.receive segment = { c with queue := c.queue ++ extra } := by
  have same : ({ c with idle := .zero, receiver := c.receiver.receive segment } : Connection) = c := by
    rw [heard.received, ← heard.idle]
  unfold Connection.receive
  split
  · exact ⟨[], atMostBareAck_nil, by rw [List.append_nil]⟩
  · rw [if_neg (by simp [plain])]
    dsimp only
    rw [same, answer_stages, heard.openFor_eq, heard.note_eq]
    exact heard.confirm_eq

theorem acknowledge_answered (faithful : c.sender.Faithful accepted)
    (exhausted : c.sender.Exhausted) (ack : segment.flags.ack = true) {answered after : Sender}
    (answers : c.sender.run (c.answerOps segment) = answered) (isn : after.isn = answered.isn)
    (acked : after.acked = answered.acked) (window : after.window = answered.window)
    (next : after.next = answered.next) :
    after.acknowledge segment.ackno segment.window = after := by
  have opened : (c.sender.run (c.openingOps segment)).Exhausted := by
    unfold openingOps
    split
    · exact faithful.transmit_exhausted
    · exact exhausted
  have waits := c.openingOps_next segment
  unfold answerOps at answers
  rw [Sender.run_append, if_pos ack] at answers
  generalize c.sender.run (c.openingOps segment) = current at opened waits answers
  have kept := (current.acknowledge segment.ackno segment.window).transmit_keeps
  have later := (current.acknowledge segment.ackno segment.window).transmit_advances
  have advanced := current.acknowledge_advances segment.ackno segment.window
  have ignored (beyond : current.next < segment.ackno.positionNear current.isn current.acked) :
      current.acknowledge segment.ackno segment.window = current := by
    unfold Sender.acknowledge
    exact if_pos beyond
  split at answers
  · have noted : current.acknowledge segment.ackno segment.window = answered := answers
    rw [← noted] at isn acked window next
    apply Sender.acknowledge_again (isn.trans advanced.isn) acked window (Nat.le_of_eq next.symm)
    intro beyond
    rw [next, ignored beyond]
  · rename_i sends
    have sent : (current.acknowledge segment.ackno segment.window).transmit = answered := answers
    rw [← sent] at isn acked window next
    apply Sender.acknowledge_again (isn.trans (later.isn.trans advanced.isn)) (acked.trans kept.1)
      (window.trans kept.2.1) (Nat.le_trans later.next (Nat.le_of_eq next.symm))
    intro beyond
    rw [next, ignored beyond, Sender.transmit_of_exhausted opened (mt waits.mp sends)]

theorem heard_receive (sound : c.Sound) (active : c.active = true)
    (exhausted : c.sender.Exhausted) (small : c.inbound.capacity < 0x40000000)
    (short : segment.payload.length ≤ 0xffff) (plain : segment.flags.rst = false)
    (hears : (c.isListening && !segment.flags.syn) = false) :
    (c.receive segment).Heard segment := by
  obtain ⟨accepted, faithful⟩ := sound.faithful
  obtain ⟨closing, bare, answer⟩ := answer_eq
    { c with idle := .zero, receiver := c.receiver.receive segment } segment
  obtain ⟨queue, empty⟩ := (c.sender.run (c.answerOps segment)).run_sendEmpty bare
  have after : c.receive segment = ({ c with
      idle := .zero
      receiver := c.receiver.receive segment
      established := c.established || segment.flags.ack
      sender := { c.sender.run (c.answerOps segment) with queue } } : Connection).flush.settle := by
    unfold Connection.receive
    rw [if_neg (by simp [active, hears]), if_neg (by simp [plain])]
    dsimp only
    rw [answer, Sender.run_append]
    dsimp only
    rw [← empty]
    rfl
  rw [after]
  constructor
  · rfl
  · exact Receiver.receive_receive sound.tidy small short
  · intro syn
    have opened := (not_congr (c.openingOps_next segment)).mpr (by simp [syn])
    have later := ((c.sender.run (c.openingOps segment)).run_advances (if segment.flags.ack then
      .acknowledge segment.ackno segment.window ::
        if c.isUnopened && !segment.flags.syn then [] else [.transmit] else [])).next
    rw [← Sender.run_append] at later
    have next : (c.sender.run (c.answerOps segment)).next ≠ 0 :=
      Nat.ne_of_gt (Nat.lt_of_lt_of_le (Nat.pos_of_ne_zero opened) later)
    exact beq_false_of_ne next
  · intro ack
    refine ⟨?_, ?_⟩
    · show (c.established || segment.flags.ack) = true
      rw [ack, Bool.or_true]
    · exact acknowledge_answered faithful exhausted ack rfl rfl rfl rfl rfl
  · exact (answerOps_exhausted faithful sound.accounted exhausted segment).congr rfl rfl rfl rfl rfl
  · rfl
  · exact settle_settle _

/-- The second of two copies in a row of a segment changes nothing, but may be acknowledged once
    more. -/
theorem receive_duplicate (config : Config) (inbound outbound : Array UInt8) (ops : List Op)
    (segment : Segment) (small : inbound.size < 0x40000000)
    (short : segment.payload.length ≤ 0xffff) :
    ∃ extra, AtMostBareAck extra ∧
      (((ofStorage config inbound outbound).run ops).receive segment).receive segment =
        { ((ofStorage config inbound outbound).run ops).receive segment with
          queue := (((ofStorage config inbound outbound).run ops).receive segment).queue ++ extra } := by
  have sound := (ofStorage_sound config inbound outbound).run ops
  have exhausted := exhausted_run config inbound outbound ops
  have capacity := (run_progresses (ofStorage_sound config inbound outbound) ops).capacity
  generalize (ofStorage config inbound outbound).run ops = c at *
  have unchanged {after : Connection} (same : after.receive segment = after) :
      ∃ extra, AtMostBareAck extra ∧
        after.receive segment = { after with queue := after.queue ++ extra } :=
    ⟨[], atMostBareAck_nil, by rw [same, List.append_nil]⟩
  by_cases ignored : (!c.active || (c.isListening && !segment.flags.syn)) = true
  · have once : c.receive segment = c := if_pos ignored
    rw [once]
    exact unchanged once
  · have proceeds : c.active = true ∧ (c.isListening && !segment.flags.syn) = false := by
      simpa using ignored
    by_cases rst : segment.flags.rst = true
    · have once : c.receive segment = c.receiveReset := by
        unfold Connection.receive
        rw [if_neg ignored, if_pos rst]
      rw [once]
      exact unchanged rfl
    · have plain := eq_false_of_ne_true rst
      have capacity : c.inbound.capacity = inbound.size := capacity
      exact (heard_receive sound proceeds.1 (exhausted proceeds.1) (capacity ▸ small) short plain
        proceeds.2).receive plain

def early : Segment :=
  { seqno := ⟨2⟩, ackno := ⟨1⟩, flags := { ack := true }, window := 4, payload := [8] }

theorem receive_duplicate_early :
    let c := (ofStorage { isn := some ⟨0⟩ } (Array.replicate 4 0) (Array.replicate 4 0)).run
      [.receive { seqno := ⟨0⟩, flags := { syn := true }, window := 4 }, .write [1]]
    (Array.replicate 4 (0 : UInt8)).size < 0x40000000 ∧ early.payload.length ≤ 0xffff ∧
      ((c.receive early).receive early).receiver.unassembled = 1 ∧
      ((c.receive early).receive early).queue.length = (c.receive early).queue.length + 1 ∧
      ∃ extra, AtMostBareAck extra ∧ (c.receive early).receive early =
        { c.receive early with queue := (c.receive early).queue ++ extra } := by
  intro c
  have small : (Array.replicate 4 (0 : UInt8)).size < 0x40000000 := by decide
  have short : early.payload.length ≤ 0xffff := by decide
  exact ⟨small, short, by decide +kernel, by decide +kernel,
    receive_duplicate { isn := some ⟨0⟩ } (Array.replicate 4 0) (Array.replicate 4 0) _ early small
      short⟩

end Connection

end Tcp

end NetStack
