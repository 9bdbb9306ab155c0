import NetStack.Proofs.Tcp.Halves

namespace NetStack.Tcp

namespace Sender

variable {s : Sender}

structure Spends (before after : Sender) : Prop where
  written : after.stream.totalWritten = before.stream.totalWritten
  next : before.next ≤ after.next
  queue : after.next = before.next → after.queue = before.queue

theorem Spends.refl (s : Sender) : s.Spends s := ⟨rfl, Nat.le_refl _, fun _ => rfl⟩

theorem Spends.trans {before between after : Sender} (first : before.Spends between)
    (second : between.Spends after) : before.Spends after where
  written := second.written.trans first.written
  next := Nat.le_trans first.next second.next
  queue := by
    intro same
    have early := first.next
    have late := second.next
    rw [second.queue (by omega), first.queue (by omega)]

theorem Emits.next_lt {after : Sender} (emits : Emits s after) : s.next < after.next := by
  cases emits with
  | syn | fin => exact Nat.lt_succ_self _
  | @chunk count fin _ _ _ _ _ _ something =>
    show s.next < s.next + ((s.stream.peek count).length + 0 + fin.toNat)
    rcases something with bytes | rfl
    · have := List.length_pos_iff.mpr bytes
      omega
    · rw [Bool.toNat_true]
      omega

theorem Emits.spends {after : Sender} (emits : Emits s after) : s.Spends after := by
  have later := emits.next_lt
  refine ⟨?_, Nat.le_of_lt later, fun same => absurd same (Nat.ne_of_gt later)⟩
  cases emits with
  | syn | fin => rfl
  | chunk => exact ByteStream.totalWritten_pop _ _

theorem transmit_spends (s : Sender) : s.Spends s.transmit :=
  transmit_induction (P := fun after => s.Spends after) (.refl s)
    fun _ _ emits soFar => soFar.trans emits.spends

theorem acknowledge_spends (s : Sender) (ackno : SeqNo) (window : UInt16) :
    s.Spends (s.acknowledge ackno window) := by
  rcases s.acknowledge_cases ackno window rfl with ⟨_, same⟩ | ⟨_, _, told⟩ | ⟨_, _, retired⟩
  · rw [same]
    exact .refl s
  · rw [told]
    exact ⟨rfl, Nat.le_refl _, fun _ => rfl⟩
  · rw [retired]
    have retires : s.Spends (s.retire (ackno.positionNear s.isn s.acked) window) :=
      ⟨rfl, Nat.le_refl _, fun _ => rfl⟩
    exact retires.trans (transmit_spends _)

end Sender

namespace Connection

theorem answerOps_spends (c : Connection) (segment : Segment) (s : Sender) :
    s.Spends (s.run (c.answerOps segment)) := by
  have opening : s.Spends (s.run (c.openingOps segment)) := by
    unfold openingOps
    split
    · exact s.transmit_spends
    · exact .refl s
  unfold answerOps
  rw [Sender.run_append]
  apply opening.trans
  generalize s.run (c.openingOps segment) = opened
  split
  · have told := opened.acknowledge_spends segment.ackno segment.window
    split
    · exact told
    · exact told.trans (Sender.transmit_spends _)
  · exact .refl opened

variable {c : Connection}

inductive Replies (c : Connection) (segment : Segment) (after : Connection) : Prop
  | more (next : c.sender.next < after.sender.next)
  | silent (next : after.sender.next = c.sender.next) (queue : after.queue <:+ c.queue)
  | bare (next : after.sender.next = c.sender.next)
      (due : 0 < segment.space ∨ after.asksForAnswer segment = true)
      (queue : after.queue = c.queue ++ [after.stamp { seqno := c.sender.nextSeqno }])

theorem confirm_replies (c : Connection) (segment : Segment) {noted : Connection}
    (ready : c.sender.queue = []) (queue : noted.queue = c.queue) (isn : noted.sender.isn = c.sender.isn)
    (spends : c.sender.Spends noted.sender) :
    c.Replies segment (noted.confirm segment).flush.settle := by
  have later := spends.next
  by_cases same : noted.sender.next = c.sender.next
  · have silent : noted.sender.queue = [] := (spends.queue same).trans ready
    unfold confirm
    split
    · rename_i due
      simp only [Bool.and_eq_true, Bool.or_eq_true, decide_eq_true_eq] at due
      refine .bare same due.1.1 ?_
      show noted.queue ++ (noted.sender.queue ++ [_]).map _ = _
      rw [queue, silent]
      unfold Sender.nextSeqno
      rw [same, isn]
      rfl
    · refine .silent same ?_
      show noted.queue ++ noted.sender.queue.map _ <:+ _
      rw [queue, silent, List.map_nil, List.append_nil]
  · apply Replies.more
    have kept : (noted.confirm segment).flush.settle.sender.next = noted.sender.next := by
      unfold confirm
      split <;> rfl
    omega

theorem receive_replies (ready : c.sender.queue = []) (segment : Segment) :
    c.Replies segment (c.receive segment) := by
  unfold receive
  split
  · exact .silent rfl List.suffix_rfl
  · split
    · exact .silent rfl List.nil_suffix
    · dsimp only
      rw [answer_stages, note_openFor_eq]
      apply confirm_replies
      · exact ready
      · rfl
      · exact (c.sender.run_advances _).isn
      · exact answerOps_spends _ segment c.sender

theorem receive_keeps (c : Connection) (segment : Segment) :
    (c.receive segment).sender.isn = c.sender.isn ∧
      (c.receive segment).sender.endPosition = c.sender.endPosition := by
  unfold receive
  split
  · exact ⟨rfl, rfl⟩
  · split
    · exact ⟨rfl, rfl⟩
    · have spends := answerOps_spends { c with idle := .zero, receiver := c.receiver.receive segment }
        segment c.sender
      have ended := congrArg (· + 2) spends.written
      have isn := (c.sender.run_advances (answerOps { c with
        idle := .zero, receiver := c.receiver.receive segment } segment)).isn
      dsimp only
      rw [answer_stages, note_openFor_eq]
      unfold confirm
      split <;> exact ⟨isn, ended⟩

end Connection

end NetStack.Tcp
