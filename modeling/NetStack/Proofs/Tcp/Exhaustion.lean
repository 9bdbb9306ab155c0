import NetStack.Proofs.Tcp.Flow
import NetStack.Proofs.Tcp.Marks
import NetStack.Proofs.Tcp.Replies
import NetStack.Proofs.Tcp.Soundness

namespace NetStack.Tcp

namespace Sender

/-- If the SYN is acknowledged and there is room up to the right edge, the stream has nothing to
    send: not at its end, or not beyond it. -/
def Exhausted (s : Sender) : Prop :=
  s.acked ≠ 0 → s.next < s.rightEdge →
    (s.stream.atEnd = true ∧ s.endPosition ≤ s.next) ∨
      (s.stream.atEnd = false ∧ s.sendChunk? = none)

variable {s : Sender} {accepted : Bytes}

theorem sendChunk?_eq_none : s.sendChunk? = none ↔
    s.stream.peek (min (s.rightEdge - s.next) s.maxPayload) = [] ∧
      ((s.stream.pop (min (s.rightEdge - s.next) s.maxPayload)).atEnd &&
        decide ((s.stream.peek (min (s.rightEdge - s.next) s.maxPayload)).length <
          s.rightEdge - s.next)) = false := by
  unfold sendChunk? ByteStream.read
  dsimp only
  split
  · rename_i silent
    exact iff_of_true rfl silent
  · rename_i something
    exact iff_of_false (by simp) something

theorem exhausted_of_unanswered (unanswered : s.acked = 0) : s.Exhausted :=
  fun answered => absurd unanswered answered

theorem sendUpTo_of_exhausted (exhausted : s.Exhausted) (answered : s.acked ≠ 0) (count : Nat) :
    sendUpTo count s = s := by
  cases count with
  | zero => rfl
  | succ count =>
    unfold sendUpTo
    by_cases full : s.rightEdge ≤ s.next
    · rw [if_pos full]
    · rw [if_neg full]
      rcases exhausted answered (by omega) with ⟨atEnd, sent⟩ | ⟨more, nothing⟩
      · rw [if_pos atEnd, sendFin, if_neg (by omega)]
      · rw [if_neg (by simp [more]), nothing]

theorem transmit_of_exhausted (exhausted : s.Exhausted) (opened : s.next ≠ 0) : s.transmit = s := by
  unfold transmit
  dsimp only
  rw [if_neg opened]
  by_cases unanswered : s.acked = 0
  · rw [if_pos unanswered]
  · rw [if_neg unanswered, sendUpTo_of_exhausted exhausted unanswered]

def Settled (s : Sender) : Prop :=
  s.acked ≠ 0 → s.next < s.rightEdge →
    (s.stream.atEnd = true ∧
        (s.endPosition ≤ s.next ∨ ∃ sent ∈ s.outstanding, sent.segment.flags.fin = true)) ∨
      (s.stream.atEnd = false ∧ s.sendChunk? = none)

theorem sendFin_settled (drained : s.stream.atEnd = true) : s.sendFin.Settled := by
  intro _ _
  left
  unfold sendFin
  split
  · exact ⟨drained, .inr ⟨_, List.mem_append_right _ List.mem_cons_self, rfl⟩⟩
  · rename_i sent
    exact ⟨drained, .inl (Nat.not_lt.mp sent)⟩

/-- Each chunk takes up at least one sequence number, so the loop ends only with nothing to send. -/
theorem sendUpTo_settled (answered : s.acked ≠ 0) (opened : s.next ≠ 0) {count : Nat}
    (enough : s.rightEdge - s.next ≤ count) : (sendUpTo count s).Settled := by
  induction count generalizing s with
  | zero =>
    intro _ room
    have room : s.next < s.rightEdge := room
    omega
  | succ count ih =>
    unfold sendUpTo
    split
    · intro _ room
      omega
    · rename_i room
      split
      · rename_i drained
        exact sendFin_settled drained
      · rename_i more
        have more : s.stream.atEnd = false := eq_false_of_ne_true more
        split
        · rename_i sent chunk
          have emits := emits_of_sendChunk? answered opened (by omega) more chunk
          have later := emits.next_lt
          obtain ⟨acked, window, _⟩ := emits.keeps
          apply ih
          · rw [acked]
            exact answered
          · omega
          · rw [rightEdge_eq acked window]
            omega
        · rename_i nothing
          exact fun _ _ => .inr ⟨more, nothing⟩

theorem transmit_settled (s : Sender) : s.transmit.Settled := by
  have unanswered {before : Sender} (waits : before.acked = 0) : before.Settled :=
    fun answered => absurd waits answered
  unfold Sender.transmit
  dsimp only
  by_cases unopened : s.next = 0
  · rw [if_pos unopened]
    split
    · rename_i waits
      exact unanswered waits
    · rename_i answered
      exact sendUpTo_settled answered (Nat.ne_of_gt (Nat.succ_pos _)) (Nat.le_refl _)
  · rw [if_neg unopened]
    split
    · rename_i waits
      exact unanswered waits
    · rename_i answered
      exact sendUpTo_settled answered unopened (Nat.le_refl _)

theorem Faithful.exhausted (faithful : s.Faithful accepted) (settled : s.Settled) :
    s.Exhausted := by
  intro answered room
  obtain ⟨drained, sent | ⟨sent, member, fin⟩⟩ | nothing := settled answered room
  · exact .inl ⟨drained, sent⟩
  · have covers := (faithful.outstanding sent member).1
    exact .inl ⟨drained, faithful.closed_iff.mp (covers.fin fin).1⟩
  · exact .inr nothing

theorem Faithful.transmit_exhausted (faithful : s.Faithful accepted) : s.transmit.Exhausted :=
  faithful.transmit.1.exhausted s.transmit_settled

/-- With room for one byte at least in each segment, all that was accepted has been sent, and the
    FIN just if there is nothing more to come. -/
theorem Faithful.all_sent_of_exhausted (faithful : s.Faithful accepted) (exhausted : s.Exhausted)
    (answered : s.acked ≠ 0) (opened : s.next ≠ 0) (room : s.next < s.rightEdge)
    (some_fits : 0 < s.maxPayload) :
    s.stream.toList = [] ∧ s.next = accepted.length + 1 + s.stream.inputEnded.toNat := by
  have read (empty : s.stream.toList = []) : s.stream.totalRead = accepted.length := by
    have buffered := faithful.buffered
    rw [empty] at buffered
    exact Nat.le_antisymm faithful.read_le (List.drop_eq_nil_iff.mp buffered.symm)
  rcases exhausted answered room with ⟨atEnd, sent⟩ | ⟨more, nothing⟩
  · obtain ⟨ended, empty⟩ := s.stream.atEnd_iff.mp atEnd
    have written := s.stream.totalRead_add_length
    rw [empty, List.length_nil] at written
    have all := read empty
    unfold endPosition at sent
    refine ⟨empty, ?_⟩
    rw [ended, Bool.toNat_true]
    rcases faithful.placed with ⟨next, _⟩ | next | ⟨next, _⟩
    · exact absurd next opened
    · omega
    · omega
  · have next := faithful.placed.next_eq opened more
    have empty : s.stream.toList = [] := by
      have short := congrArg List.length (sendChunk?_eq_none.mp nothing).1
      rw [ByteStream.peek_eq, List.length_take, List.length_nil] at short
      exact List.length_eq_zero_iff.mp (by omega)
    have unended : s.stream.inputEnded = false := by
      by_contra ended
      rw [(s.stream.atEnd_iff).mpr ⟨eq_true_of_ne_false ended, empty⟩] at more
      cases more
    refine ⟨empty, ?_⟩
    rw [next, read empty, unended]
    rfl

theorem Exhausted.congr {after : Sender} (exhausted : s.Exhausted) (acked : after.acked = s.acked)
    (window : after.window = s.window) (next : after.next = s.next)
    (stream : after.stream = s.stream) (maxPayload : after.maxPayload = s.maxPayload) :
    after.Exhausted := by
  have edge := rightEdge_eq acked window
  unfold Exhausted endPosition at exhausted ⊢
  rw [sendChunk?_eq_none] at exhausted ⊢
  rw [acked, edge, next, stream, maxPayload]
  exact exhausted

theorem Exhausted.fail (exhausted : s.Exhausted) :
    ({ s with stream := s.stream.fail } : Sender).Exhausted := by
  unfold Exhausted at exhausted ⊢
  rw [sendChunk?_eq_none] at exhausted ⊢
  exact exhausted

theorem Faithful.acknowledge_exhausted (faithful : s.Faithful accepted) (ackno : SeqNo)
    (window : UInt16) : ((s.acknowledge ackno window).transmit).Exhausted :=
  (faithful.acknowledge ackno window).1.transmit_exhausted

theorem exhausted_sendEmpty (exhausted : s.Exhausted) {closing : List Op}
    (bare : ∀ op ∈ closing, op = .sendEmpty) : (s.run closing).Exhausted := by
  induction closing generalizing s with
  | nil => exact exhausted
  | cons op rest ih =>
    obtain ⟨rfl, others⟩ := List.forall_mem_cons.mp bare
    exact ih (s := s.sendEmpty) (exhausted.congr rfl rfl rfl rfl rfl) others

end Sender

namespace Connection

variable {c : Connection} {op : Op} {reply : Reply} {asked : List Sender.Op}
  {fed : List Receiver.Op} {accepted : Bytes}

theorem answerOps_exhausted (faithful : c.sender.Faithful accepted) (accounted : c.sender.Accounted)
    (exhausted : c.sender.Exhausted) (segment : Segment) :
    (c.sender.run (c.answerOps segment)).Exhausted := by
  have opened : (c.sender.run (c.openingOps segment)).Exhausted ∧
      ∃ accepted, (c.sender.run (c.openingOps segment)).Faithful accepted := by
    unfold openingOps
    split
    · exact ⟨faithful.transmit_exhausted, accepted, faithful.transmit.1⟩
    · exact ⟨exhausted, accepted, faithful⟩
  have bound := (accounted.run (c.openingOps segment)).acknowledge segment.ackno segment.window
  have unopened := ((c.sender.run (c.openingOps segment)).acknowledge_next_eq_zero segment.ackno
    segment.window).trans (c.openingOps_next segment)
  obtain ⟨exhausted, accepted, faithful⟩ := opened
  unfold answerOps
  rw [Sender.run_append]
  generalize c.sender.run (c.openingOps segment) = current at *
  split
  · split
    · rename_i waits
      -- nothing was sent, so nothing can have been acknowledged
      apply Sender.exhausted_of_unanswered
      have zero := unopened.mpr waits
      have acked := bound.acked_le
      show (current.acknowledge segment.ackno segment.window).acked = 0
      omega
    · exact faithful.acknowledge_exhausted segment.ackno segment.window
  · exact exhausted

theorem Carries.exhausted (carries : c.Carries op reply asked fed) (active : c.active = true)
    (faithful : c.sender.Faithful accepted) (accounted : c.sender.Accounted)
    (exhausted : c.sender.Exhausted) : (c.sender.run asked).Exhausted := by
  have passes (span : Duration) : (c.sender.tick span).Exhausted := by
    obtain ⟨again, timer, _, ticked⟩ := c.sender.tick_eq span
    rw [ticked]
    exact exhausted.congr rfl rfl rfl rfl rfl
  have unsent (unopened : c.isUnopened = true) : c.sender.acked = 0 := by
    have bound := accounted.acked_le
    have next : c.sender.next = 0 := by simpa [isUnopened] using unopened
    omega
  cases carries with
  | ignored | deaf | read => exact exhausted
  | connect => exact faithful.transmit_exhausted
  | @write data =>
    have leaves : Sender.Op.LeavesBytes (.input (.write data)) := trivial
    have given := (faithful.step leaves).1
    by_cases unopened : c.isUnopened = true
    · rw [if_pos unopened]
      exact Sender.exhausted_of_unanswered (unsent unopened)
    · rw [if_neg unopened]
      exact given.transmit_exhausted
  | finish =>
    have leaves : Sender.Op.LeavesBytes (.input .endInput) := trivial
    have given := (faithful.step leaves).1
    rw [active, Bool.true_and]
    by_cases unopened : c.isUnopened = true
    · rw [if_neg (by simp [unopened])]
      exact Sender.exhausted_of_unanswered (unsent unopened)
    · rw [if_pos (by simp [unopened])]
      exact given.transmit_exhausted
  | receive _ _ bare =>
    rw [Sender.run_append]
    exact Sender.exhausted_sendEmpty (answerOps_exhausted faithful accounted exhausted _) bare
  | tick => exact passes _
  | reset => exact exhausted.fail
  | giveUp => exact (passes _).fail.congr rfl rfl rfl rfl rfl
  | abort => exact exhausted.fail.congr rfl rfl rfl rfl rfl

theorem exhausted_run (config : Config) (inbound outbound : Array UInt8) (ops : List Op)
    (active : ((ofStorage config inbound outbound).run ops).active = true) :
    ((ofStorage config inbound outbound).run ops).sender.Exhausted := by
  induction ops using List.reverseRecOn with
  | nil => exact Sender.exhausted_of_unanswered rfl
  | append_singleton front op ih =>
    have sound := (ofStorage_sound config inbound outbound).run front
    rw [step_last] at active ⊢
    generalize (ofStorage config inbound outbound).run front = before at *
    have alive := active_of_step active
    obtain ⟨accepted, faithful⟩ := sound.faithful
    obtain ⟨asked, fed, carries, does⟩ := before.step_carries op sound.ready
    rw [does.sender]
    have exhausted := carries.exhausted alive faithful sound.accounted (ih alive)
    exact exhausted.congr rfl rfl rfl rfl rfl

end Connection

end NetStack.Tcp
