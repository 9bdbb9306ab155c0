import NetStack.Proofs.Tcp.Halves

namespace NetStack.Tcp.Sender

variable {s : Sender} {accepted : Bytes}

def Finished (s : Sender) : Prop := s.endPosition ≤ s.next

theorem Placed.finished (placed : s.Placed) (finished : s.Finished) :
    s.next = s.stream.totalRead + 2 ∧ s.next = s.endPosition := by
  have sizes := s.stream.totalRead_add_length
  unfold Finished endPosition at finished
  unfold endPosition
  rcases placed with ⟨next, read⟩ | next | ⟨next, drained⟩
  · omega
  · omega
  · rw [(s.stream.atEnd_iff.mp drained).2, List.length_nil] at sizes
    omega

theorem Faithful.closed_iff (faithful : s.Faithful accepted) :
    (s.transcript accepted).closed = true ↔ s.Finished := by
  constructor
  · intro closed
    have next : s.next = s.stream.totalRead + 2 := of_decide_eq_true closed
    have sizes := s.stream.totalRead_add_length
    unfold Finished endPosition
    rcases faithful.placed with ⟨_, _⟩ | _ | ⟨_, drained⟩
    · omega
    · omega
    · rw [(s.stream.atEnd_iff.mp drained).2, List.length_nil] at sizes
      omega
  · intro finished
    exact decide_eq_true (faithful.placed.finished finished).1

theorem Faithful.finished_run (faithful : s.Faithful accepted) {ops : List Op}
    (leave : ∀ op ∈ ops, op.LeavesBytes) (finished : s.Finished) :
    (s.run ops).Finished ∧ (s.run ops).endPosition = s.endPosition := by
  have later := faithful.run leave
  have closed := later.2.closed (faithful.closed_iff.mpr finished)
  have still := later.1.closed_iff.mp closed.1
  have text := congrArg List.length closed.2
  rw [later.1.text_length, faithful.text_length] at text
  have before := faithful.placed.finished finished
  have after := later.1.placed.finished still
  refine ⟨still, ?_⟩
  rw [← after.2, ← before.2, after.1, before.1, text]

/-- The first and the last position that are sent leave with their marks. -/
structure Announces (before after : Sender) : Prop where
  queue : before.queue ⊆ after.queue
  syn : before.next = 0 → after.next ≠ 0 → ∃ segment ∈ after.queue, segment.flags.syn = true
  fin : ¬ before.Finished → after.Finished → ∃ segment ∈ after.queue, segment.flags.fin = true

theorem Announces.ofKept {before after : Sender} (next : after.next = before.next)
    (ends : before.endPosition ≤ after.endPosition) (queue : before.queue ⊆ after.queue) :
    before.Announces after where
  queue := queue
  syn := fun unopened opened => absurd (next.trans unopened) opened
  fin := by
    intro unfinished finished
    unfold Finished at unfinished finished
    omega

theorem Announces.refl (s : Sender) : s.Announces s :=
  .ofKept rfl (Nat.le_refl _) (List.Subset.refl _)

theorem Announces.trans {before between after : Sender} (first : before.Announces between)
    (second : between.Announces after) : before.Announces after where
  queue := List.Subset.trans first.queue second.queue
  syn := by
    intro unopened opened
    by_cases late : between.next = 0
    · exact second.syn late opened
    · rcases first.syn unopened late with ⟨segment, queued, syn⟩
      exact ⟨segment, second.queue queued, syn⟩
  fin := by
    intro unfinished finished
    by_cases early : between.Finished
    · rcases first.fin unfinished early with ⟨segment, queued, fin⟩
      exact ⟨segment, second.queue queued, fin⟩
    · exact second.fin early finished

theorem Emits.announces {after : Sender} (emits : Emits s after) (placed : s.Placed) :
    s.Announces after := by
  have fresh (flags : Flags) (payload : Bytes) :
      s.fresh flags payload ∈ s.queue ++ [s.fresh flags payload] :=
    List.mem_append_right _ List.mem_cons_self
  cases emits with
  | syn unopened =>
    refine ⟨List.subset_append_left _ _, fun _ _ => ⟨_, fresh _ _, rfl⟩, fun _ finished => ?_⟩
    have finished : s.stream.totalWritten + 2 ≤ s.next + 1 := finished
    omega
  | @chunk count fin _ opened _ more =>
    refine ⟨List.subset_append_left _ _, fun unopened => absurd unopened opened,
      fun _ finished => ⟨_, fresh _ _, ?_⟩⟩
    have next := placed.next_eq opened more
    have finished : (s.stream.pop count).totalWritten + 2 ≤
        s.next + ((s.stream.peek count).length + 0 + fin.toNat) := finished
    have sizes := s.stream.totalRead_add_length
    rw [ByteStream.totalWritten_pop, s.stream.peek_eq, List.length_take] at finished
    cases fin with
    | true => rfl
    | false =>
      rw [Bool.toNat_false] at finished
      omega
  | fin _ opened =>
    exact ⟨List.subset_append_left _ _, fun unopened => absurd unopened opened,
      fun _ _ => ⟨_, fresh _ _, rfl⟩⟩

theorem Faithful.transmit_announces (faithful : s.Faithful accepted) : s.Announces s.transmit := by
  have both : s.transmit.Faithful accepted ∧ s.Announces s.transmit := by
    apply transmit_induction (P := fun after => after.Faithful accepted ∧ s.Announces after)
    · exact ⟨faithful, .refl s⟩
    · intro before after emits soFar
      exact ⟨(emits.faithful soFar.1).1, soFar.2.trans (emits.announces soFar.1.placed)⟩
  exact both.2

theorem Faithful.step_announces (faithful : s.Faithful accepted) {op : Op} (leaves : op.LeavesBytes)
    (noReset : op ≠ .sendReset) : s.Announces (s.step op).2 := by
  cases op with
  | transmit => exact faithful.transmit_announces
  | acknowledge ackno window =>
    show s.Announces (s.acknowledge ackno window)
    rcases s.acknowledge_cases ackno window rfl with ⟨_, same⟩ | ⟨_, _, told⟩ | ⟨_, _, retired⟩
    · rw [same]
      exact .refl s
    · rw [told]
      exact .ofKept rfl (Nat.le_refl _) (List.Subset.refl _)
    · rw [retired]
      have retires : s.Announces (s.retire (ackno.positionNear s.isn s.acked) window) :=
        .ofKept rfl (Nat.le_refl _) (List.Subset.refl _)
      exact retires.trans (faithful.retire _ window).transmit_announces
  | tick span =>
    rcases s.tick_eq span with ⟨again, timer, _, ticked⟩
    show s.Announces (s.tick span)
    rw [ticked]
    exact .ofKept rfl (Nat.le_refl _) (List.subset_append_left _ _)
  | sendEmpty => exact .ofKept rfl (Nat.le_refl _) (List.subset_append_left _ _)
  | sendReset => exact absurd rfl noReset
  | input op =>
    cases op with
    | write data =>
      refine .ofKept rfl ?_ (List.Subset.refl _)
      show s.stream.totalWritten + 2 ≤ (s.stream.write data).2.totalWritten + 2
      rw [ByteStream.totalWritten_write]
      omega
    | read | readInto | pop => exact leaves.elim
    | peek | peekInto | endInput | fail =>
      exact .ofKept rfl (Nat.le_refl _) (List.Subset.refl _)

theorem Faithful.run_announces (faithful : s.Faithful accepted) {ops : List Op}
    (leave : ∀ op ∈ ops, op.LeavesBytes) (noReset : .sendReset ∉ ops) :
    s.Announces (s.run ops) := by
  induction ops generalizing s accepted with
  | nil => exact .refl s
  | cons op rest ih =>
    rcases List.forall_mem_cons.mp leave with ⟨first, others⟩
    have current := faithful.step_announces first (List.ne_of_not_mem_cons noReset).symm
    exact current.trans
      (ih (faithful.step first).1 others (List.not_mem_of_not_mem_cons noReset))

/-- A reset carries no mark, and nothing but the SYN is sent before the SYN is acknowledged. -/
structure Proper (s : Sender) : Prop where
  plain : ∀ sent ∈ s.outstanding, sent.segment.flags.rst = false
  bare : ∀ segment ∈ s.queue, segment.flags.rst = true → segment.space = 0
  answered : s.next ≤ 1 ∨ s.acked ≠ 0

theorem ofStream_proper (stream : ByteStream) (isn : SeqNo) (timeout : Duration) (maxPayload : Nat) :
    (ofStream stream isn timeout maxPayload).Proper :=
  ⟨by simp [ofStream], by simp [ofStream], .inl (Nat.zero_le 1)⟩

theorem Proper.send (proper : s.Proper) (stream : ByteStream) {flags : Flags} {payload : Bytes}
    (plain : flags.rst = false)
    (answered : s.next + (s.fresh flags payload).space ≤ 1 ∨ s.acked ≠ 0) :
    (Sender.send { s with stream } flags payload).Proper where
  plain := by
    intro sent member
    rcases List.mem_append.mp member with earlier | new
    · exact proper.plain sent earlier
    · rw [List.mem_singleton.mp new]
      exact plain
  bare := by
    intro segment member reset
    rcases List.mem_append.mp member with earlier | new
    · exact proper.bare segment earlier reset
    · rw [List.mem_singleton.mp new] at reset
      exact absurd (plain.symm.trans reset) Bool.false_ne_true
  answered := answered

theorem Emits.proper {after : Sender} (emits : Emits s after) (proper : s.Proper) :
    after.Proper := by
  cases emits with
  | syn unopened =>
    apply proper.send s.stream rfl
    left
    rw [unopened]
    exact Nat.le_refl 1
  | chunk answered => exact proper.send _ rfl (.inr answered)
  | fin answered => exact proper.send s.stream rfl (.inr answered)

theorem Proper.transmit (proper : s.Proper) : s.transmit.Proper :=
  transmit_induction proper fun _ _ emits => emits.proper

theorem Proper.step (proper : s.Proper) (op : Op) : (s.step op).2.Proper := by
  cases op with
  | transmit => exact proper.transmit
  | acknowledge ackno window =>
    show (s.acknowledge ackno window).Proper
    rcases s.acknowledge_cases ackno window rfl with ⟨_, same⟩ | ⟨_, _, told⟩ | ⟨_, news, retired⟩
    · rw [same]
      exact proper
    · rw [told]
      exact ⟨proper.plain, proper.bare, proper.answered⟩
    · rw [retired]
      apply Proper.transmit
      refine ⟨fun sent member => ?_, proper.bare, .inr (Nat.ne_of_gt (Nat.zero_lt_of_lt news))⟩
      rw [retire_outstanding] at member
      exact proper.plain sent ((List.dropWhile_sublist _).subset member)
  | tick span =>
    rcases s.tick_eq span with ⟨again, timer, kept, ticked⟩
    show (s.tick span).Proper
    rw [ticked]
    refine ⟨proper.plain, fun segment member reset => ?_, proper.answered⟩
    rcases List.mem_append.mp member with earlier | repeated
    · exact proper.bare segment earlier reset
    · rcases List.mem_map.mp (kept repeated) with ⟨sent, outstanding, rfl⟩
      exact absurd ((proper.plain sent outstanding).symm.trans reset) Bool.false_ne_true
  | sendEmpty =>
    refine ⟨proper.plain, fun segment member reset => ?_, proper.answered⟩
    rcases List.mem_append.mp member with earlier | new
    · exact proper.bare segment earlier reset
    · rw [List.mem_singleton.mp new]
      rfl
  | sendReset =>
    refine ⟨proper.plain, fun segment member _ => ?_, proper.answered⟩
    rw [List.mem_singleton.mp member]
    rfl
  | input => exact ⟨proper.plain, proper.bare, proper.answered⟩

theorem Proper.run (proper : s.Proper) (ops : List Op) : (s.run ops).Proper := by
  induction ops generalizing s with
  | nil => exact proper
  | cons op rest ih => exact ih (proper.step op)

theorem Proper.marks (proper : s.Proper) (faithful : s.Faithful accepted) {segment : Segment}
    (queued : segment ∈ s.queue) :
    (segment.flags.syn = true → s.next ≠ 0) ∧ (segment.flags.fin = true → s.Finished) := by
  rcases (faithful.queued segment queued).1 with ⟨reset, _⟩ | ⟨position, covers⟩
  · have nothing := proper.bare segment queued reset
    unfold Segment.space at nothing
    constructor
    · intro syn
      rw [syn, Bool.toNat_true] at nothing
      omega
    · intro fin
      rw [fin, Bool.toNat_true] at nothing
      omega
  · constructor
    · intro syn
      exact of_decide_eq_true (covers.syn syn).1
    · intro fin
      exact faithful.closed_iff.mp (covers.fin fin).1

theorem Accounted.inFlight_pos_iff (accounted : s.Accounted) : 0 < s.inFlight ↔ s.acked < s.next := by
  rcases accounted.contiguous with ⟨first, _, contiguous⟩
  have stop := contiguous.stop_eq
  have total := accounted.inFlight
  constructor
  · intro flying
    cases outstanding : s.outstanding with
    | nil =>
      rw [total, outstanding] at flying
      exact absurd flying (Nat.lt_irrefl 0)
    | cons oldest rest =>
      have unfinished := accounted.unfinished oldest (by simp [outstanding])
      rw [outstanding] at contiguous
      have reached := contiguous.2.stop_eq
      omega
  · intro behind
    by_contra landed
    have all := accounted.acked_eq_next (by omega)
    omega

theorem Accounted.next_eq_inFlight_iff (accounted : s.Accounted) (faithful : s.Faithful accepted)
    (opened : s.next ≠ 0) : s.next = s.inFlight ↔ s.acked = 0 := by
  rcases accounted.contiguous with ⟨first, reached, contiguous⟩
  have stop := contiguous.stop_eq
  have total := accounted.inFlight
  constructor
  · intro flying
    cases outstanding : s.outstanding with
    | nil =>
      rw [outstanding] at total
      exact absurd (flying.trans total) opened
    | cons oldest rest =>
      have unfinished := accounted.unfinished oldest (by simp [outstanding])
      have covers := (faithful.outstanding oldest (by simp [outstanding])).1
      rw [outstanding] at contiguous
      have start : oldest.start = 0 := by
        have here := contiguous.1
        omega
      -- what is outstanding from the beginning on is the SYN alone
      have one : oldest.segment.space ≤ 1 := by
        rcases covers.start start with syn | empty
        · exact Nat.le_of_eq (covers.syn syn).2.2
        · omega
      unfold Sent.stop at unfinished
      omega
  · intro unanswered
    omega

/-- The state of the sending half, in terms of how far it has sent and how much is acknowledged. -/
theorem Faithful.state_eq (faithful : s.Faithful accepted) (accounted : s.Accounted) :
    s.state = if s.stream.failed then .failed
      else if s.next = 0 then .closed
      else if s.acked = 0 then .synSent
      else if s.next < s.endPosition then .synAcked
      else if s.acked < s.endPosition then .finSent
      else .finAcked := by
  unfold state
  by_cases opened : s.next = 0
  · rw [if_pos opened, if_pos opened]
  · have answered := accounted.next_eq_inFlight_iff faithful opened
    have flying := accounted.inFlight_pos_iff
    simp only [answered]
    by_cases unsent : s.next < s.endPosition
    · rw [if_pos unsent, if_pos unsent]
    · have last := (faithful.placed.finished (Nat.le_of_not_lt unsent)).2
      rw [if_neg unsent, if_neg unsent]
      simp only [flying, last]

theorem Proper.state_iff (proper : s.Proper) (faithful : s.Faithful accepted)
    (accounted : s.Accounted) (unfailed : s.stream.failed = false) :
    (s.state = .closed ↔ ¬ s.next ≠ 0) ∧
    (s.state = .synSent ↔ s.next ≠ 0 ∧ ¬ 1 ≤ s.acked) ∧
    (s.state = .synAcked ↔ 1 ≤ s.acked ∧ ¬ s.Finished) ∧
    (s.state = .finSent ↔ s.Finished ∧ ¬ s.endPosition ≤ s.acked) ∧
    (s.state = .finAcked ↔ s.endPosition ≤ s.acked) := by
  have behind := accounted.acked_le
  have answered := proper.answered
  have ends : 2 ≤ s.endPosition := Nat.le_add_left 2 _
  rw [faithful.state_eq accounted, unfailed]
  unfold Finished
  grind

end NetStack.Tcp.Sender
