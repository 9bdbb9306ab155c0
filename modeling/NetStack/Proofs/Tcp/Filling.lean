import NetStack.Proofs.Tcp.Exhaustion
import NetStack.Proofs.Tcp.Spelling

namespace NetStack

namespace Tcp.Sender

variable {s : Sender} {log : List Sent}

/-- The log tells of all that is outstanding, and of a FIN once the sender has gone beyond the bytes
    that were taken from its stream. -/
structure Recorded (s : Sender) (log : List Sent) : Prop where
  outstanding : s.outstanding ⊆ log
  before_next : ∀ sent ∈ log, sent.start < s.next
  unclosed : (∀ sent ∈ log, sent.segment.flags.fin = false) → s.next ≤ s.stream.totalRead + 1
  closed : ∀ sent ∈ log, sent.segment.flags.fin = true → s.stream.inputEnded = true

theorem ofStorage_recorded (storage : Array UInt8) (isn : SeqNo) (timeout : Duration)
    (maxPayload : Nat) : (ofStream (.ofStorage storage) isn timeout maxPayload).Recorded [] where
  outstanding := List.nil_subset _
  before_next := by simp
  unclosed := fun _ => Nat.zero_le _
  closed := by simp

theorem Recorded.send (recorded : s.Recorded log) (stream : ByteStream) {flags : Flags}
    {payload : Bytes} (occupies : 0 < (s.fresh flags payload).space)
    (unclosed : flags.fin = false → s.next ≤ s.stream.totalRead + 1 →
      s.next + (s.fresh flags payload).space ≤ stream.totalRead + 1)
    (closed : flags.fin = true ∨ s.stream.inputEnded = true → stream.inputEnded = true) :
    (Sender.send { s with stream } flags payload).Recorded
      (log ++ [⟨s.next, s.fresh flags payload⟩]) := by
  constructor
  · exact List.append_subset.mpr ⟨List.subset_append_of_subset_left _ recorded.outstanding,
      List.subset_append_right _ _⟩
  · refine List.forall_mem_append.mpr ⟨?_, ?_⟩
    · intro sent member
      exact Nat.lt_of_lt_of_le (recorded.before_next sent member) (Nat.le_add_right _ _)
    · intro sent member
      rw [List.mem_singleton.mp member]
      exact Nat.lt_add_of_pos_right occupies
  · intro plain
    obtain ⟨earlier, now⟩ := List.forall_mem_append.mp plain
    exact unclosed (now _ List.mem_cons_self) (recorded.unclosed earlier)
  · refine List.forall_mem_append.mpr ⟨?_, ?_⟩
    · intro sent member fin
      exact closed (.inr (recorded.closed sent member fin))
    · intro sent member fin
      rw [List.mem_singleton.mp member] at fin
      exact closed (.inl fin)

theorem Recorded.kept (recorded : s.Recorded log) {after : Sender}
    (outstanding : after.outstanding ⊆ s.outstanding) (next : after.next = s.next)
    (read : s.stream.totalRead ≤ after.stream.totalRead)
    (ended : s.stream.inputEnded = true → after.stream.inputEnded = true) :
    after.Recorded log where
  outstanding := List.Subset.trans outstanding recorded.outstanding
  before_next := by
    rw [next]
    exact recorded.before_next
  unclosed := by
    intro plain
    have bound := recorded.unclosed plain
    omega
  closed := fun sent member fin => ended (recorded.closed sent member fin)

structure Sends (s : Sender) (more : List Sent) (after : Sender) : Prop where
  outstanding : after.outstanding = s.outstanding ++ more
  queue : after.queue = s.queue ++ more.map Sent.segment
  rightEdge : after.rightEdge = s.rightEdge
  next_le : s.next ≤ after.next
  within : ∀ sent ∈ more, s.next ≤ sent.start ∧ sent.stop ≤ s.rightEdge

theorem Sends.nothing (s : Sender) : s.Sends [] s where
  outstanding := (List.append_nil _).symm
  queue := (List.append_nil _).symm
  rightEdge := rfl
  next_le := Nat.le_refl _
  within := by simp

theorem Sends.trans {between after : Sender} {more further : List Sent}
    (first : s.Sends more between) (second : between.Sends further after) :
    s.Sends (more ++ further) after where
  outstanding := by rw [second.outstanding, first.outstanding, List.append_assoc]
  queue := by rw [second.queue, first.queue, List.map_append, List.append_assoc]
  rightEdge := second.rightEdge.trans first.rightEdge
  next_le := Nat.le_trans first.next_le second.next_le
  within := by
    refine List.forall_mem_append.mpr ⟨first.within, ?_⟩
    intro sent member
    obtain ⟨start, stop⟩ := second.within sent member
    rw [first.rightEdge] at stop
    exact ⟨Nat.le_trans first.next_le start, stop⟩

theorem Emits.sends {after : Sender} (emits : Emits s after) (recorded : s.Recorded log) :
    ∃ sent, s.Sends [sent] after ∧ after.Recorded (log ++ [sent]) := by
  have edge := rightEdge_eq emits.keeps.1 emits.keeps.2.1
  have within := emits.next_le
  have later := emits.next_lt
  have one (sent : Sent) (start : sent.start = s.next) (stop : sent.stop = after.next) :
      ∀ other ∈ [sent], s.next ≤ other.start ∧ other.stop ≤ s.rightEdge := by
    intro other member
    rw [List.mem_singleton.mp member]
    omega
  cases emits with
  | syn unopened =>
    refine ⟨_, ⟨rfl, rfl, edge, Nat.le_of_lt later, one _ rfl rfl⟩,
      recorded.send s.stream Nat.one_pos (fun _ _ => ?_) fun ended => ?_⟩
    · show s.next + 1 ≤ _
      omega
    · exact ended.resolve_left (by simp)
  | @chunk count fin _ _ _ _ _ fin_eq =>
    refine ⟨_, ⟨rfl, rfl, edge, Nat.le_of_lt later, one _ rfl rfl⟩,
      recorded.send (s.stream.pop count) (Nat.lt_add_right_iff_pos.mp later) (fun plain bound => ?_)
        fun ended => ?_⟩
    · have plain : fin = false := plain
      rw [ByteStream.totalRead_pop, ← ByteStream.peek_eq, plain]
      show s.next + ((s.stream.peek count).length + 0 + 0) ≤ _
      omega
    · rcases ended with last | ended
      · have last : fin = true := last
        rw [fin_eq, Bool.and_eq_true] at last
        exact ((ByteStream.atEnd_iff _).mp last.1).1
      · exact ended
  | fin _ _ _ drained =>
    refine ⟨_, ⟨rfl, rfl, edge, Nat.le_of_lt later, one _ rfl rfl⟩,
      recorded.send s.stream Nat.one_pos (fun plain => ?_) fun _ => ?_⟩
    · cases plain
    · exact ((ByteStream.atEnd_iff _).mp drained).1

theorem Recorded.transmit (recorded : s.Recorded log) :
    ∃ more, s.Sends more s.transmit ∧ s.transmit.Recorded (log ++ more) := by
  apply transmit_induction
    (P := fun after => ∃ more, s.Sends more after ∧ after.Recorded (log ++ more))
  · exact ⟨[], .nothing s, by rw [List.append_nil]; exact recorded⟩
  · rintro before after emits ⟨more, sends, soFar⟩
    obtain ⟨sent, further, continued⟩ := emits.sends soFar
    rw [List.append_assoc] at continued
    exact ⟨_, sends.trans further, continued⟩

theorem Recorded.step (recorded : s.Recorded log) (op : Op) :
    (s.step op).2.Recorded (log ++ s.firstSent op) := by
  have before_next : ∀ sent ∈ s.outstanding, sent.start < s.next :=
    fun sent member => recorded.before_next sent (recorded.outstanding member)
  have silent {after : Sender} (result : (s.step op).2 = after)
      (outstanding : after.outstanding = s.outstanding) (next : after.next = s.next)
      (read : s.stream.totalRead ≤ after.stream.totalRead)
      (ended : s.stream.inputEnded = true → after.stream.inputEnded = true) :
      (s.step op).2.Recorded (log ++ s.firstSent op) := by
    have still : after.outstanding ⊆ s.outstanding := by
      rw [outstanding]
      exact List.Subset.refl _
    rw [firstSent_eq_nil before_next (by rw [result]; exact still), List.append_nil, result]
    exact recorded.kept still next read ended
  cases op with
  | transmit =>
    obtain ⟨more, sends, kept⟩ := recorded.transmit
    have sent : s.firstSent .transmit = more := firstSent_eq before_next .transmit sends.outstanding
      (List.Subset.refl _) fun sent member => (sends.within sent member).1
    rw [sent]
    exact kept
  | acknowledge ackno window =>
    obtain ⟨_, same⟩ | ⟨_, _, told⟩ | ⟨_, _, retired⟩ := s.acknowledge_cases ackno window rfl
    · exact silent same rfl rfl (Nat.le_refl _) id
    · exact silent told rfl rfl (Nat.le_refl _) id
    · have earlier : (s.retire (ackno.positionNear s.isn s.acked) window).outstanding ⊆
          s.outstanding := by
        rw [retire_outstanding]
        exact (List.dropWhile_sublist _).subset
      obtain ⟨more, sends, kept⟩ := (recorded.kept earlier rfl (Nat.le_refl _) id).transmit
      have outstanding := sends.outstanding
      rw [← retired] at kept outstanding
      have sent : s.firstSent (.acknowledge ackno window) = more :=
        firstSent_eq before_next (.acknowledge ackno window) outstanding earlier
          fun sent member => (sends.within sent member).1
      rw [sent]
      exact kept
  | tick span =>
    obtain ⟨again, timer, _, ticked⟩ := s.tick_eq span
    exact silent ticked rfl rfl (Nat.le_refl _) id
  | sendEmpty | sendReset => exact silent rfl rfl rfl (Nat.le_refl _) id
  | input op =>
    obtain ⟨read, ended⟩ := s.stream.step_grows op
    exact silent rfl rfl rfl read ended

theorem Recorded.run (recorded : s.Recorded log) (ops : List Op) :
    (s.run ops).Recorded (log ++ s.firstSentBy ops) := by
  induction ops generalizing s log with
  | nil =>
    rw [firstSentBy, List.append_nil]
    exact recorded
  | cons op rest ih =>
    rw [firstSentBy, ← List.append_assoc]
    exact ih (recorded.step op)

theorem firstSentBy_last (s : Sender) (ops : List Op) (op : Op) :
    s.firstSentBy (ops ++ [op]) = s.firstSentBy ops ++ (s.run ops).firstSent op := by
  induction ops generalizing s with
  | nil => exact List.append_nil _
  | cons first rest ih =>
    rw [List.cons_append, firstSentBy, ih, firstSentBy, List.append_assoc]
    rfl

theorem Recorded.finSent_iff (recorded : s.Recorded log) (settled : s.Settled)
    (some_fits : 0 < s.maxPayload) (answered : s.acked ≠ 0) (room : s.next < s.rightEdge) :
    s.stream.toList = [] ∧
      ((∃ sent ∈ log, sent.segment.flags.fin = true) ↔ s.stream.inputEnded = true) := by
  have sizes := s.stream.totalRead_add_length
  have told : (∃ sent ∈ log, sent.segment.flags.fin = true) → s.stream.inputEnded = true :=
    fun ⟨sent, member, fin⟩ => recorded.closed sent member fin
  obtain ⟨drained, out⟩ | ⟨more, nothing⟩ := settled answered room
  · obtain ⟨ended, empty⟩ := s.stream.atEnd_iff.mp drained
    refine ⟨empty, told, fun _ => ?_⟩
    obtain beyond | ⟨sent, member, fin⟩ := out
    · -- without a FIN the sender would not be beyond what was taken from its stream
      by_contra none_sent
      have plain : ∀ sent ∈ log, sent.segment.flags.fin = false :=
        fun sent member => eq_false_of_ne_true fun fin => none_sent ⟨sent, member, fin⟩
      have bound := recorded.unclosed plain
      unfold endPosition at beyond
      omega
    · exact ⟨sent, recorded.outstanding member, fin⟩
  · have empty : s.stream.toList = [] := by
      have short := congrArg List.length (sendChunk?_eq_none.mp nothing).1
      rw [ByteStream.peek_eq, List.length_take, List.length_nil] at short
      exact List.length_eq_zero_iff.mp (by omega)
    refine ⟨empty, told, fun ended => ?_⟩
    rw [s.stream.atEnd_iff.mpr ⟨ended, empty⟩] at more
    cases more

/-- All that a second call can find to do is to send a FIN. -/
theorem Settled.transmit (settled : s.Settled) (opened : s.next ≠ 0) :
    s.transmit = s ∨ s.transmit = s.send { fin := true } [] := by
  unfold Sender.transmit
  dsimp only
  rw [if_neg opened]
  by_cases waits : s.acked = 0
  · exact .inl (if_pos waits)
  · rw [if_neg waits]
    cases count : s.rightEdge - s.next with
    | zero => exact .inl rfl
    | succ count =>
      unfold sendUpTo
      rw [if_neg (by omega)]
      obtain ⟨drained, _⟩ | ⟨more, nothing⟩ := settled waits (by omega)
      · rw [if_pos drained, sendFin]
        split
        · exact .inr rfl
        · exact .inl rfl
      · rw [if_neg (by simp [more]), nothing]
        exact .inl rfl

/-- Whatever was done before, filling the window sends what it may and no more: it ends no segment
    behind the window, and it stops when the SYN is not acknowledged, or when the window is used up,
    or when nothing waits in the stream and the FIN is out just if the stream has ended. Doing it
    again at once changes nothing, if the sender alone takes bytes out of its stream; otherwise a
    FIN may be sent again, and nothing else. -/
theorem transmit_fills (storage : Array UInt8) (isn : SeqNo) (timeout : Duration) {maxPayload : Nat}
    (some_fits : 0 < maxPayload) (ops : List Op) :
    let start := ofStream (.ofStorage storage) isn timeout maxPayload
    let last := start.run ops
    let after := last.transmit
    let more := last.firstSent .transmit
    let edge := last.acked + max last.window.toNat 1
    (after.outstanding = last.outstanding ++ more ∧
      after.queue = last.queue ++ more.map Sent.segment ∧ ∀ sent ∈ more, sent.stop ≤ edge) ∧
    (last.acked = 0 ∨ edge ≤ after.next ∨ after.stream.toList = [] ∧
      ((∃ sent ∈ start.firstSentBy (ops ++ [.transmit]), sent.segment.flags.fin = true) ↔
        after.stream.inputEnded = true)) ∧
    (after.transmit = after ∨ after.transmit = after.send { fin := true } []) ∧
    ((∀ op ∈ ops, op.LeavesBytes) → after.transmit = after) := by
  intro start last after more edge
  have recorded : last.Recorded (start.firstSentBy ops) :=
    (ofStorage_recorded storage isn timeout maxPayload).run ops
  have opened : after.next ≠ 0 := Nat.ne_of_gt last.transmit_next_pos
  have settled : after.Settled := last.transmit_settled
  refine ⟨?_, ?_, settled.transmit opened, ?_⟩
  · obtain ⟨sent, sends, _⟩ := recorded.transmit
    have same : more = sent := firstSent_eq
      (fun sent member => recorded.before_next sent (recorded.outstanding member)) .transmit
      sends.outstanding (List.Subset.refl _) fun sent member => (sends.within sent member).1
    rw [same]
    exact ⟨sends.outstanding, sends.queue, fun sent member => (sends.within sent member).2⟩
  · by_cases answered : last.acked = 0
    · exact .inl answered
    · right
      obtain ⟨acked, window, _⟩ := last.transmit_keeps
      have reach : after.rightEdge = edge := rightEdge_eq acked window
      by_cases full : edge ≤ after.next
      · exact .inl full
      · right
        rw [firstSentBy_last]
        apply (recorded.step .transmit).finSent_iff settled
        · rw [last.maxPayload_step, maxPayload_run]
          exact some_fits
        · exact fun waits => answered (acked.symm.trans waits)
        · show after.next < after.rightEdge
          omega
  · intro leave
    have faithful := ((ofStorage_faithful storage isn timeout maxPayload).run leave).1
    exact transmit_of_exhausted faithful.transmit_exhausted opened

/-- The last byte uses up the window, so the FIN that follows it has to wait. -/
def brimming : List Op :=
  [.transmit, .acknowledge ⟨8⟩ 3, .input (.write [1, 2, 3]), .input .endInput]

theorem transmit_fills_brimming :
    let start := ofStream (.ofStorage (Array.replicate 4 0)) ⟨7⟩ (.ofMillis 1000) 2
    let after := (start.run brimming).transmit
    (∀ op ∈ brimming, op.LeavesBytes) ∧ after.queue.map Segment.space = [1, 2, 1] ∧
      (∀ sent ∈ (start.run brimming).firstSent .transmit, sent.stop ≤ 4) ∧ after.next = 4 ∧
      after.transmit = after := by
  intro start after
  have leave : ∀ op ∈ brimming, op.LeavesBytes := by simp [brimming, Op.LeavesBytes]
  obtain ⟨⟨_, _, within⟩, _, _, again⟩ :=
    transmit_fills (Array.replicate 4 0) ⟨7⟩ (.ofMillis 1000) Nat.two_pos brimming
  have edge : (start.run brimming).acked + max (start.run brimming).window.toNat 1 = 4 := by
    decide +kernel
  have queue : after.queue.map Segment.space = [1, 2, 1] := by decide +kernel
  have next : after.next = 4 := by decide +kernel
  refine ⟨leave, queue, ?_, next, again leave⟩
  rw [← edge]
  exact within

/-- Somebody else takes the byte that was written, and the stream ends. -/
def raided : List Op :=
  [.transmit, .acknowledge ⟨8⟩ 9, .input (.write [5]), .input (.pop 1), .input .endInput]

/-- The byte counts as written but is never sent, so that one FIN does not reach the end. -/
theorem raided_filled_again :
    let start := ofStream (.ofStorage (Array.replicate 4 0)) ⟨7⟩ (.ofMillis 1000) 2
    let after := (start.run raided).transmit
    (after.queue.countP fun segment => segment.flags.fin) = 1 ∧ after.transmit ≠ after ∧
      (after.transmit.queue.countP fun segment => segment.flags.fin) = 2 := by
  decide +kernel

end Tcp.Sender

end NetStack
