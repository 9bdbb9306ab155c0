import NetStack.Proofs.Tcp.Halves

namespace NetStack.Tcp

/-- A segment of ours, when our numbers are shifted by `a` and those of the peer by `b`. The
    acknowledgement number counts only together with its flag. -/
def Segment.outward (a b : UInt32) (segment : Segment) : Segment :=
  { segment with
    seqno := segment.seqno.advance a
    ackno := if segment.flags.ack then segment.ackno.advance b else segment.ackno }

def Segment.inward (a b : UInt32) (segment : Segment) : Segment :=
  { segment with seqno := segment.seqno.advance b, ackno := segment.ackno.advance a }

def Sent.outward (a b : UInt32) (sent : Sent) : Sent :=
  ⟨sent.start, sent.segment.outward a b⟩

theorem Sent.totalSpace_outward (a b : UInt32) (segments : List Sent) :
    Sent.totalSpace (segments.map (Sent.outward a b)) = Sent.totalSpace segments := by
  induction segments with
  | nil => rfl
  | cons sent rest ih => exact congrArg (sent.segment.space + ·) ih

namespace Sender

def renumber (a b : UInt32) (s : Sender) : Sender :=
  { s with
    isn := s.isn.advance a
    outstanding := s.outstanding.map (Sent.outward a b)
    queue := s.queue.map (Segment.outward a b) }

variable (a b : UInt32) (s : Sender)

theorem nextSeqno_renumber : (s.renumber a b).nextSeqno = s.nextSeqno.advance a :=
  SeqNo.ofPosition_advance _ _ _

theorem send_renumber {flags : Flags} (bare : flags.ack = false) (payload : Bytes) :
    (s.renumber a b).send flags payload = (s.send flags payload).renumber a b := by
  have number := s.nextSeqno_renumber a b
  simp only [send, number, Segment.space]
  simp [renumber, Sent.outward, Segment.outward, bare]
  rfl

theorem sendChunk?_renumber :
    (s.renumber a b).sendChunk? = s.sendChunk?.map (renumber a b) := by
  unfold sendChunk?
  dsimp only
  by_cases nothing : (s.stream.read (min (s.rightEdge - s.next) s.maxPayload)).1 = [] ∧
      ((s.stream.read (min (s.rightEdge - s.next) s.maxPayload)).2.atEnd &&
        decide ((s.stream.read (min (s.rightEdge - s.next) s.maxPayload)).1.length <
          s.rightEdge - s.next)) = false
  · rw [if_pos nothing]
    exact if_pos nothing
  · rw [if_neg nothing, Option.map_some]
    refine (if_neg nothing).trans (congrArg some ?_)
    refine send_renumber a b { s with
      stream := (s.stream.read (min (s.rightEdge - s.next) s.maxPayload)).2 } ?_ _
    rfl

theorem sendFin_renumber : (s.renumber a b).sendFin = s.sendFin.renumber a b := by
  unfold sendFin
  by_cases unsent : s.next < s.endPosition
  · rw [if_pos unsent]
    exact (if_pos unsent).trans (send_renumber a b s rfl [])
  · rw [if_neg unsent]
    exact if_neg unsent

theorem sendUpTo_renumber (count : Nat) :
    sendUpTo count (s.renumber a b) = (sendUpTo count s).renumber a b := by
  induction count generalizing s with
  | zero => rfl
  | succ count ih =>
    unfold sendUpTo
    by_cases full : s.rightEdge ≤ s.next
    · rw [if_pos full]
      exact if_pos full
    · rw [if_neg full]
      refine (if_neg full).trans ?_
      by_cases drained : s.stream.atEnd = true
      · rw [if_pos drained]
        exact (if_pos drained).trans (sendFin_renumber a b s)
      · rw [if_neg drained]
        refine (if_neg drained).trans ?_
        rw [sendChunk?_renumber]
        cases s.sendChunk? with
        | none => rfl
        | some sent => exact ih sent

theorem transmit_renumber : (s.renumber a b).transmit = s.transmit.renumber a b := by
  have opened : (if (s.renumber a b).next = 0 then (s.renumber a b).send { syn := true } [] else
      s.renumber a b) = (if s.next = 0 then s.send { syn := true } [] else s).renumber a b := by
    by_cases unopened : s.next = 0
    · rw [if_pos unopened]
      exact (if_pos unopened).trans (send_renumber a b s rfl [])
    · rw [if_neg unopened]
      exact if_neg unopened
  unfold transmit
  dsimp only
  rw [opened]
  generalize (if s.next = 0 then s.send { syn := true } [] else s) = current
  by_cases unanswered : current.acked = 0
  · rw [if_pos unanswered]
    exact if_pos unanswered
  · rw [if_neg unanswered]
    exact (if_neg unanswered).trans (sendUpTo_renumber a b current _)

theorem retire_renumber (position : Nat) (window : UInt16) :
    (s.renumber a b).retire position window = (s.retire position window).renumber a b := by
  have stop : (fun sent : Sent => decide (sent.stop ≤ position)) ∘ Sent.outward a b =
      fun sent => decide (sent.stop ≤ position) := rfl
  simp only [retire, renumber, List.span_eq_takeWhile_dropWhile, List.takeWhile_map,
    List.dropWhile_map, stop, Sent.totalSpace_outward, List.isEmpty_map]

theorem acknowledge_renumber (ackno : SeqNo) (window : UInt16) :
    (s.renumber a b).acknowledge (ackno.advance a) window =
      (s.acknowledge ackno window).renumber a b := by
  have place : (ackno.advance a).positionNear (s.renumber a b).isn (s.renumber a b).acked =
      ackno.positionNear s.isn s.acked := SeqNo.positionNear_advance _ _ _ _
  unfold acknowledge
  dsimp only
  rw [place]
  by_cases unsent : s.next < ackno.positionNear s.isn s.acked
  · rw [if_pos unsent]
    exact if_pos unsent
  · rw [if_neg unsent]
    refine (if_neg unsent).trans ?_
    by_cases stale : ackno.positionNear s.isn s.acked ≤ s.acked
    · rw [if_pos stale]
      exact if_pos stale
    · rw [if_neg stale]
      refine (if_neg stale).trans ?_
      have retired := s.retire_renumber a b (ackno.positionNear s.isn s.acked) window
      exact (congrArg transmit retired).trans (transmit_renumber a b _)

theorem tick_renumber (span : Duration) :
    (s.renumber a b).tick span = (s.tick span).renumber a b := by
  unfold tick
  dsimp only
  by_cases expired : (s.timer.tick span).1 = true
  · rw [if_pos expired]
    refine (if_pos expired).trans ?_
    unfold renumber
    cases outstanding : s.outstanding with
    | nil => rfl
    | cons oldest rest => simp [Sent.outward]
  · rw [if_neg expired]
    exact if_neg expired

theorem sendEmpty_renumber : (s.renumber a b).sendEmpty = s.sendEmpty.renumber a b := by
  unfold sendEmpty
  rw [nextSeqno_renumber]
  simp [renumber, Segment.outward, Flags.none]

theorem sendReset_renumber : (s.renumber a b).sendReset = s.sendReset.renumber a b := by
  unfold sendReset
  rw [nextSeqno_renumber]
  simp [renumber, Segment.outward]

end Sender

namespace Receiver

def renumber (b : UInt32) (r : Receiver) : Receiver :=
  { r with isn := r.isn.map (SeqNo.advance · b) }

variable (a b : UInt32) (r : Receiver)

theorem accept_renumber (isn : SeqNo) (segment : Segment) :
    (r.renumber b).accept (isn.advance b) (segment.inward a b) =
      (r.accept isn segment).renumber b := by
  have place : (segment.inward a b).seqno.positionNear (isn.advance b)
      ((r.renumber b).stream.totalWritten + 1) =
        segment.seqno.positionNear isn (r.stream.totalWritten + 1) :=
    SeqNo.positionNear_advance _ _ _ _
  unfold accept
  dsimp only
  rw [place]
  by_cases ignored : segment.seqno.positionNear isn (r.stream.totalWritten + 1) = 0 ∧
      segment.flags.syn = false
  · rw [if_pos ignored]
    exact if_pos ignored
  · rw [if_neg ignored]
    exact if_neg ignored

theorem receive_renumber (segment : Segment) :
    (r.renumber b).receive (segment.inward a b) = (r.receive segment).renumber b := by
  cases isn : r.isn with
  | some known =>
    have own : (r.renumber b).isn = some (known.advance b) := congrArg (Option.map _) isn
    simp only [receive, isn, own]
    exact r.accept_renumber a b known segment
  | none =>
    have own : (r.renumber b).isn = none := congrArg (Option.map _) isn
    simp only [receive, isn, own]
    by_cases syn : segment.flags.syn = true
    · rw [if_pos syn]
      exact (if_pos syn).trans (r.accept_renumber a b segment.seqno segment)
    · rw [if_neg syn]
      exact if_neg syn

theorem ackno?_renumber : (r.renumber b).ackno? = r.ackno?.map (SeqNo.advance · b) := by
  unfold ackno? renumber
  cases r.isn with
  | none => rfl
  | some isn => exact congrArg some (SeqNo.ofPosition_advance _ _ _)

end Receiver

namespace Connection

def renumber (a b : UInt32) (c : Connection) : Connection :=
  { c with
    sender := c.sender.renumber a b
    receiver := c.receiver.renumber b
    queue := c.queue.map (Segment.outward a b) }

variable (a b : UInt32) (c : Connection)

theorem stamp_renumber (segment : Segment) :
    (c.renumber a b).stamp (segment.outward a b) = (c.stamp segment).outward a b := by
  have ackno : (c.renumber a b).receiver.ackno? = c.receiver.ackno?.map (SeqNo.advance · b) :=
    c.receiver.ackno?_renumber b
  unfold stamp
  dsimp only
  rw [ackno]
  cases c.receiver.ackno? with
  | none => rfl
  | some number => rfl

theorem flush_renumber : (c.renumber a b).flush = c.flush.renumber a b := by
  have stamped : (c.sender.queue.map (Segment.outward a b)).map (c.renumber a b).stamp =
      (c.sender.queue.map c.stamp).map (Segment.outward a b) := by
    simp only [List.map_map]
    apply List.map_congr_left
    intro segment _
    exact c.stamp_renumber a b segment
  simp only [flush, renumber, List.map_append]
  rw [← stamped]
  rfl

theorem settle_renumber : (c.renumber a b).settle = c.settle.renumber a b := rfl

theorem flush_sender_renumber {shifted plain : Sender} (same : shifted = plain.renumber a b) :
    ({ c.renumber a b with sender := shifted } : Connection).flush =
      ({ c with sender := plain } : Connection).flush.renumber a b := by
  rw [same]
  exact flush_renumber a b { c with sender := plain }

theorem abort_renumber : (c.renumber a b).abort = c.abort.renumber a b := by
  unfold abort
  by_cases active : c.active = true
  · rw [if_pos active]
    refine (if_pos active).trans ?_
    have flushed := flush_sender_renumber a b c.failStreams
      (c.failStreams.sender.sendReset_renumber a b)
    exact congrArg (fun flushed => { flushed with active := false }) flushed
  · rw [if_neg active]
    exact if_neg active

theorem connect_renumber : (c.renumber a b).connect = c.connect.map (renumber a b) := by
  unfold connect
  by_cases allowed : (c.active && c.isUnopened) = true
  · rw [if_pos allowed]
    refine (if_pos allowed).trans (congrArg Except.ok ?_)
    exact flush_sender_renumber a b c (c.sender.transmit_renumber a b)
  · rw [if_neg allowed]
    exact if_neg allowed

theorem write_renumber (data : Bytes) :
    (c.renumber a b).write data =
      (c.write data).map fun (written, next) => (written, next.renumber a b) := by
  unfold write
  by_cases allowed : (c.active && !c.outbound.inputEnded && !c.outbound.failed) = true
  · rw [if_pos allowed]
    refine (if_pos allowed).trans ?_
    dsimp only
    by_cases unopened : c.isUnopened = true
    · rw [if_pos unopened]
      exact if_pos unopened
    · rw [if_neg unopened]
      refine (if_neg unopened).trans (congrArg Except.ok (congrArg (Prod.mk _) ?_))
      exact flush_sender_renumber a b c
        (Sender.transmit_renumber a b { c.sender with stream := (c.outbound.write data).2 })
  · rw [if_neg allowed]
    exact if_neg allowed

theorem finish_renumber : (c.renumber a b).finish = c.finish.renumber a b := by
  unfold finish
  dsimp only
  by_cases sends : (c.active && !c.isUnopened) = true
  · rw [if_pos sends]
    refine (if_pos sends).trans ?_
    rw [← settle_renumber]
    refine congrArg settle ?_
    exact flush_sender_renumber a b c
      (Sender.transmit_renumber a b { c.sender with stream := c.outbound.endInput })
  · rw [if_neg sends]
    exact if_neg sends

theorem tick_renumber (span : Duration) :
    (c.renumber a b).tick span = (c.tick span).renumber a b := by
  have expires (ticked : Connection) :
      (if (ticked.renumber a b).maxRetransmissions < (ticked.renumber a b).sender.timer.retries
        then (ticked.renumber a b).abort else (ticked.renumber a b).flush.settle) =
        renumber a b (if ticked.maxRetransmissions < ticked.sender.timer.retries
          then ticked.abort else ticked.flush.settle) := by
    by_cases exhausted : ticked.maxRetransmissions < ticked.sender.timer.retries
    · rw [if_pos exhausted]
      exact (if_pos exhausted).trans (abort_renumber a b ticked)
    · rw [if_neg exhausted]
      refine (if_neg exhausted).trans ?_
      rw [← settle_renumber]
      exact congrArg settle (flush_renumber a b ticked)
  have sender : (c.renumber a b).sender.tick span = (c.sender.tick span).renumber a b :=
    c.sender.tick_renumber a b span
  unfold tick
  by_cases active : c.active = true
  · rw [if_pos active]
    refine (if_pos active).trans ?_
    simp only [sender]
    exact expires { c with idle := c.idle + span, sender := c.sender.tick span }
  · rw [if_neg active]
    exact if_neg active

theorem asksForAnswer_renumber (segment : Segment) :
    (c.renumber a b).asksForAnswer (segment.inward a b) = c.asksForAnswer segment := by
  unfold asksForAnswer
  rw [show (c.renumber a b).receiver.ackno? = c.receiver.ackno?.map (SeqNo.advance · b) from
    c.receiver.ackno?_renumber b]
  refine congrArg ((segment.space == 0) && ·) ?_
  cases c.receiver.ackno? with
  | none => rfl
  | some number =>
    show (some (number.advance b) == some ((segment.seqno.advance b).advance 1)) =
      (some number == some (segment.seqno.advance 1))
    rw [SeqNo.advance_advance]
    rw [Bool.eq_iff_iff]
    simp

theorem openFor_renumber (segment : Segment) :
    (c.renumber a b).openFor (segment.inward a b) = (c.openFor segment).renumber a b := by
  unfold openFor
  by_cases opens : (segment.flags.syn && c.isUnopened) = true
  · rw [if_pos opens]
    refine (if_pos opens).trans ?_
    exact congrArg (fun sender => { c.renumber a b with sender }) (c.sender.transmit_renumber a b)
  · rw [if_neg opens]
    exact if_neg opens

theorem note_renumber (segment : Segment) :
    (c.renumber a b).note (segment.inward a b) = (c.note segment).renumber a b := by
  unfold note
  by_cases ack : segment.flags.ack = true
  · rw [if_pos ack]
    refine (if_pos ack).trans ?_
    have noted : (c.renumber a b).sender.acknowledge (segment.inward a b).ackno
        (segment.inward a b).window =
          (c.sender.acknowledge segment.ackno segment.window).renumber a b :=
      c.sender.acknowledge_renumber a b segment.ackno segment.window
    dsimp only
    rw [noted]
    refine congrArg (fun sender => { c.renumber a b with established := true, sender }) ?_
    by_cases unopened : (c.sender.acknowledge segment.ackno segment.window).next = 0
    · rw [if_pos unopened]
      exact if_pos unopened
    · rw [if_neg unopened]
      exact (if_neg unopened).trans (Sender.transmit_renumber a b _)
  · rw [if_neg ack]
    exact if_neg ack

theorem confirm_renumber (segment : Segment) :
    (c.renumber a b).confirm (segment.inward a b) = (c.confirm segment).renumber a b := by
  have due : ((decide (0 < (segment.inward a b).space) ||
        (c.renumber a b).asksForAnswer (segment.inward a b)) &&
        (c.renumber a b).sender.queue.isEmpty && (c.renumber a b).receiver.ackno?.isSome) =
      ((decide (0 < segment.space) || c.asksForAnswer segment) && c.sender.queue.isEmpty &&
        c.receiver.ackno?.isSome) := by
    rw [asksForAnswer_renumber,
      show (c.renumber a b).receiver.ackno? = c.receiver.ackno?.map (SeqNo.advance · b) from
        c.receiver.ackno?_renumber b, Option.isSome_map,
      show (c.renumber a b).sender.queue = c.sender.queue.map (Segment.outward a b) from rfl,
      List.isEmpty_map]
    rfl
  unfold confirm
  rw [due]
  split
  · exact congrArg (fun sender => { c.renumber a b with sender }) (c.sender.sendEmpty_renumber a b)
  · rfl

theorem answer_renumber (segment : Segment) :
    (c.renumber a b).answer (segment.inward a b) = (c.answer segment).renumber a b := by
  rw [answer_stages, answer_stages, openFor_renumber, note_renumber, confirm_renumber]

theorem receive_renumber (segment : Segment) :
    (c.renumber a b).receive (segment.inward a b) = (c.receive segment).renumber a b := by
  have listening : (c.renumber a b).isListening = c.isListening := by
    unfold isListening
    rw [show (c.renumber a b).receiver.ackno? = c.receiver.ackno?.map (SeqNo.advance · b) from
      c.receiver.ackno?_renumber b, Option.isNone_map]
    rfl
  unfold receive
  rw [listening]
  by_cases ignored : (!c.active || (c.isListening && !segment.flags.syn)) = true
  · rw [if_pos ignored]
    exact if_pos ignored
  · rw [if_neg ignored]
    refine (if_neg ignored).trans ?_
    by_cases rst : segment.flags.rst = true
    · rw [if_pos rst]
      exact if_pos rst
    · rw [if_neg rst]
      refine (if_neg rst).trans ?_
      have accepted : ({ c.renumber a b with
            idle := .zero
            receiver := (c.renumber a b).receiver.receive (segment.inward a b) } : Connection) =
          renumber a b { c with idle := .zero, receiver := c.receiver.receive segment } :=
        congrArg (fun receiver => { c.renumber a b with idle := .zero, receiver })
          (c.receiver.receive_renumber a b segment)
      dsimp only
      rw [accepted, answer_renumber, flush_renumber]
      rfl

def Op.renumber (a b : UInt32) : Op → Op
  | .receive segment => .receive (segment.inward a b)
  | op => op

def Reply.renumber (a b : UInt32) : Reply → Reply
  | .dispatched result => .dispatched
      ⟨result.accepted.map (Segment.outward a b), result.refused.map (Segment.outward a b)⟩
  | reply => reply

variable (a b : UInt32) (c : Connection)

theorem dispatch_renumber (limit : Option Nat) :
    (c.renumber a b).step (.dispatch limit) =
      ((c.step (.dispatch limit)).1.renumber a b, (c.step (.dispatch limit)).2.renumber a b) := by
  have queue : (c.renumber a b).queue = c.queue.map (Segment.outward a b) := rfl
  simp only [step, dispatch, Reply.renumber, queue, List.length_map, ← List.map_take,
    ← List.map_drop, List.head?_map]
  rfl

theorem step_renumber (op : Op) :
    (c.renumber a b).step (op.renumber a b) =
      ((c.step op).1.renumber a b, (c.step op).2.renumber a b) := by
  cases op with
  | connect =>
    show (c.renumber a b).step .connect = _
    unfold step
    dsimp only
    rw [connect_renumber]
    cases c.connect with
    | ok next => rfl
    | error reason => rfl
  | write data =>
    show (c.renumber a b).step (.write data) = _
    unfold step
    dsimp only
    rw [write_renumber]
    cases c.write data with
    | ok result => rfl
    | error reason => rfl
  | finish => exact congrArg (Prod.mk Reply.done) (c.finish_renumber a b)
  | receive segment => exact congrArg (Prod.mk Reply.done) (c.receive_renumber a b segment)
  | tick span => exact congrArg (Prod.mk Reply.done) (c.tick_renumber a b span)
  | abort => exact congrArg (Prod.mk Reply.done) (c.abort_renumber a b)
  | read count => rfl
  | dispatch limit => exact c.dispatch_renumber a b limit
  | wait => rfl

theorem run_renumber (ops : List Op) :
    (c.renumber a b).run (ops.map (Op.renumber a b)) = (c.run ops).renumber a b := by
  induction ops generalizing c with
  | nil => rfl
  | cons op rest ih =>
    show ((c.renumber a b).step (op.renumber a b)).2.run (rest.map (Op.renumber a b)) = _
    rw [step_renumber]
    exact ih _

def replies (c : Connection) : List Op → List Reply
  | [] => []
  | op :: rest => (c.step op).1 :: (c.step op).2.replies rest

theorem replies_renumber (ops : List Op) :
    (c.renumber a b).replies (ops.map (Op.renumber a b)) =
      (c.replies ops).map (Reply.renumber a b) := by
  induction ops generalizing c with
  | nil => rfl
  | cons op rest ih =>
    rw [List.map_cons, replies, replies, List.map_cons, step_renumber]
    exact congrArg (List.cons _) (ih _)

theorem state_renumber : (c.renumber a b).state = c.state := by
  have receiving : (c.receiver.renumber b).state = c.receiver.state := by
    unfold Receiver.state
    rw [show (c.receiver.renumber b).isn = c.receiver.isn.map (SeqNo.advance · b) from rfl,
      Option.isNone_map]
    rfl
  unfold state
  rw [show (c.renumber a b).receiver.state = c.receiver.state from receiving]
  rfl

/-- Whatever the initial sequence numbers, the same operations have the same results and lead
    through the same states, and the segments that leave differ in their numbers only. -/
theorem initialSeqno_irrelevant (config : Config) (inbound outbound : Array UInt8) (ops : List Op)
    (a b : UInt32) :
    let shifted := { config with isn := some (config.initialSeqno.advance a) }
    let first := ofStorage config inbound outbound
    let second := ofStorage shifted inbound outbound
    let one := first.run ops
    let other := second.run (ops.map (Op.renumber a b))
    second.replies (ops.map (Op.renumber a b)) = (first.replies ops).map (Reply.renumber a b) ∧
      other.state = one.state ∧ other.active = one.active ∧
      other.established = one.established ∧ other.inbound = one.inbound ∧
      other.outbound = one.outbound ∧ other.sender.inFlight = one.sender.inFlight ∧
      other.receiver.unassembled = one.receiver.unassembled ∧
      other.sender.timer.retries = one.sender.timer.retries ∧
      other.queue = one.queue.map (Segment.outward a b) := by
  intro shifted first second one other
  have start : second = first.renumber a b := rfl
  have same : other = one.renumber a b := by
    show second.run _ = _
    rw [start]
    exact first.run_renumber a b ops
  refine ⟨?_, ?_, ?_⟩
  · rw [start]
    exact first.replies_renumber a b ops
  · rw [same]
    exact one.state_renumber a b
  · rw [same]
    exact ⟨rfl, rfl, rfl, rfl, rfl, rfl, rfl, rfl⟩

end Connection

end NetStack.Tcp
