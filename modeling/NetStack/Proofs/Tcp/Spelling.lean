import NetStack.Proofs.Tcp.Accounting
import NetStack.Proofs.Tcp.Fidelity

namespace NetStack.Tcp

theorem Sent.Contiguous.start_le {first stop : Nat} {segments : List Sent}
    (contiguous : Sent.Contiguous first segments stop) :
    ∀ sent ∈ segments, first ≤ sent.start ∧ sent.stop ≤ stop := by
  induction segments generalizing first with
  | nil => simp
  | cons head rest ih =>
    obtain ⟨start, following⟩ := contiguous
    have beyond := following.stop_eq
    intro sent member
    rcases List.mem_cons.mp member with rfl | later
    · exact ⟨Nat.le_of_eq start.symm, by omega⟩
    · obtain ⟨after, within⟩ := ih following sent later
      unfold Sent.stop at after
      exact ⟨by omega, within⟩

namespace Sender

/-- What an operation puts on the way for the first time: what is outstanding after it from the next
    position on that there was before. -/
def firstSent (s : Sender) (op : Op) : List Sent :=
  (s.step op).2.outstanding.filter fun sent => s.next ≤ sent.start

def firstSentBy (s : Sender) : List Op → List Sent
  | [] => []
  | op :: rest => s.firstSent op ++ (s.step op).2.firstSentBy rest

/-- The segments of the log, sent one after the other, are all that the sender has said when its
    stream was given `accepted`. -/
structure Spells (s : Sender) (log : List Sent) (accepted : Bytes) : Prop where
  contiguous : Sent.Contiguous 0 log s.next
  occupies : ∀ sent ∈ log, 0 < sent.segment.space
  numbered : ∀ sent ∈ log, sent.segment.seqno = .ofPosition sent.start s.isn
  opens : ∀ sent ∈ log, sent.start = 0 →
    sent.segment.flags = { syn := true } ∧ sent.segment.payload = []
  bounded : ∀ sent ∈ log, sent.segment.payload.length ≤ s.maxPayload
  text : log.flatMap (fun sent => sent.segment.payload) = accepted.take s.stream.totalRead
  closes : ∀ front sent back, log = front ++ sent :: back → sent.segment.flags.fin = true →
    back = [] ∧ s.stream.atEnd = true ∧ s.next = s.endPosition
  outstanding : s.outstanding <:+ log
  queued : (log.map Sent.segment).Sublist s.queue
  others : ∀ segment ∈ s.queue,
    segment ∈ log.map Sent.segment ∨ (segment.payload = [] ∧ segment.flags = .none)

theorem ofStorage_spells (storage : Array UInt8) (isn : SeqNo) (timeout : Duration)
    (maxPayload : Nat) : (ofStream (.ofStorage storage) isn timeout maxPayload).Spells [] [] where
  contiguous := rfl
  occupies := by simp
  numbered := by simp
  opens := by simp
  bounded := by simp
  text := rfl
  closes := by simp
  outstanding := List.suffix_rfl
  queued := List.Sublist.slnil
  others := by simp [ofStream]

variable {s : Sender} {log : List Sent} {accepted : Bytes}

theorem Spells.before_next (spells : s.Spells log accepted) : ∀ sent ∈ log, sent.start < s.next := by
  intro sent member
  have within := (spells.contiguous.start_le sent member).2
  have something := spells.occupies sent member
  unfold Sent.stop at within
  omega

theorem Spells.closed (spells : s.Spells log accepted) {sent : Sent} (member : sent ∈ log)
    (fin : sent.segment.flags.fin = true) : s.stream.atEnd = true ∧ s.next = s.endPosition := by
  obtain ⟨front, back, split⟩ := List.append_of_mem member
  exact (spells.closes front sent back split fin).2

theorem Spells.send (spells : s.Spells log accepted) (stream : ByteStream) {flags : Flags}
    {payload : Bytes} (occupies : 0 < (s.fresh flags payload).space)
    (unclosed : ∀ sent ∈ log, sent.segment.flags.fin = false)
    (opens : s.next = 0 → flags = { syn := true } ∧ payload = [])
    (bounded : payload.length ≤ s.maxPayload)
    (text : accepted.take stream.totalRead = accepted.take s.stream.totalRead ++ payload)
    (closes : flags.fin = true → stream.atEnd = true ∧
      (Sender.send { s with stream } flags payload).next = stream.totalWritten + 2) :
    (Sender.send { s with stream } flags payload).Spells (log ++ [⟨s.next, s.fresh flags payload⟩])
      accepted := by
  constructor
  · exact (Sent.contiguous_append _ _ _ _).mpr ⟨s.next, spells.contiguous, rfl, rfl⟩
  · exact List.forall_mem_append.mpr ⟨spells.occupies, by simpa using occupies⟩
  · refine List.forall_mem_append.mpr ⟨spells.numbered, ?_⟩
    intro sent member
    rw [List.mem_singleton.mp member]
    rfl
  · refine List.forall_mem_append.mpr ⟨spells.opens, ?_⟩
    intro sent member
    rw [List.mem_singleton.mp member]
    exact opens
  · refine List.forall_mem_append.mpr ⟨spells.bounded, ?_⟩
    intro sent member
    rw [List.mem_singleton.mp member]
    exact bounded
  · rw [List.flatMap_append, spells.text, List.flatMap_singleton]
    exact text.symm
  · -- there was no FIN before, so only the new segment can have one
    intro front sent back split fin
    rcases back.eq_nil_or_concat' with rfl | ⟨between, last, rfl⟩
    · have same := (List.append_inj_right' split rfl)
      cases List.singleton_inj.mp same
      exact ⟨rfl, closes fin⟩
    · have earlier : log = front ++ sent :: between := by
        rw [← List.cons_append, ← List.append_assoc] at split
        exact List.append_inj_left' split rfl
      have silent := unclosed sent (by simp [earlier])
      rw [silent] at fin
      cases fin
  · obtain ⟨retired, whole⟩ := spells.outstanding
    exact ⟨retired, by rw [send_outstanding, ← List.append_assoc]; exact congrArg (· ++ _) whole⟩
  · rw [List.map_append, send_queue]
    exact spells.queued.append (List.Sublist.refl _)
  · rw [send_queue, List.map_append]
    refine List.forall_mem_append.mpr ⟨?_, ?_⟩
    · intro segment member
      exact (spells.others segment member).imp_left (List.mem_append_left _)
    · intro segment member
      exact .inl (List.mem_append_right _ member)

theorem endPosition_of_drained (drained : s.stream.atEnd = true) :
    s.endPosition = s.stream.totalRead + 2 := by
  have written := s.stream.totalRead_add_length
  rw [(s.stream.atEnd_iff.mp drained).2, List.length_nil] at written
  unfold endPosition
  omega

theorem Emits.spells {after : Sender} (emits : Emits s after) (faithful : s.Faithful accepted)
    (spells : s.Spells log accepted) : ∃ sent, s.next ≤ sent.start ∧
      after.outstanding = s.outstanding ++ [sent] ∧ after.Spells (log ++ [sent]) accepted := by
  cases emits with
  | syn unopened =>
    refine ⟨_, Nat.le_refl _, rfl, spells.send s.stream Nat.one_pos ?_ ?_ ?_ ?_ ?_⟩
    · intro sent member
      have before := spells.before_next sent member
      omega
    · exact fun _ => ⟨rfl, rfl⟩
    · exact Nat.zero_le _
    · exact (List.append_nil _).symm
    · intro fin
      cases fin
  | @chunk count fin answered opened room more count_eq fin_eq something =>
    refine ⟨_, Nat.le_refl _, rfl, spells.send (s.stream.pop count) ?_ ?_ ?_ ?_ ?_ ?_⟩
    · rcases something with bytes | rfl
      · have := List.length_pos_iff.mpr bytes
        simp only [fresh, Segment.space]
        omega
      · simp [fresh, Segment.space]
    · -- a FIN that is out already would mean that the stream is drained
      intro sent member
      by_contra closed
      have through := (spells.closed member (eq_true_of_ne_false closed)).1
      rw [more] at through
      cases through
    · exact fun unopened => absurd unopened opened
    · rw [s.stream.peek_eq, List.length_take, count_eq]
      omega
    · exact faithful.take_pop count
    · intro last
      have last : fin = true := last
      have drained : (s.stream.pop count).atEnd = true := by
        rw [fin_eq, Bool.and_eq_true] at last
        exact last.1
      refine ⟨drained, ?_⟩
      have before := faithful.placed.next_eq opened more
      have written := (s.stream.pop count).totalRead_add_length
      rw [((s.stream.pop count).atEnd_iff.mp drained).2, List.length_nil, ByteStream.totalRead_pop,
        ← s.stream.peek_eq] at written
      rw [last]
      show s.next + ((s.stream.peek count).length + 0 + 1) = _
      omega
  | fin answered opened room drained unsent =>
    have last : s.endPosition = s.stream.totalRead + 2 := endPosition_of_drained drained
    refine ⟨_, Nat.le_refl _, rfl, spells.send s.stream Nat.one_pos ?_ ?_ ?_ ?_ ?_⟩
    · intro sent member
      by_contra closed
      have through := (spells.closed member (eq_true_of_ne_false closed)).2
      omega
    · exact fun unopened => absurd unopened opened
    · exact Nat.zero_le _
    · exact (List.append_nil _).symm
    · intro _
      refine ⟨drained, ?_⟩
      have before : s.next = s.stream.totalRead + 1 := by
        rcases faithful.placed with ⟨next, _⟩ | next | ⟨next, _⟩
        · exact absurd next opened
        · exact next
        · omega
      show s.next + 1 = s.endPosition
      omega

theorem Spells.transmit (spells : s.Spells log accepted) (faithful : s.Faithful accepted) :
    ∃ more, (∀ sent ∈ more, s.next ≤ sent.start) ∧
      s.transmit.outstanding = s.outstanding ++ more ∧ s.transmit.Spells (log ++ more) accepted := by
  -- by induction on the emissions; the next position only grows, so all of them start beyond it
  have result : s.transmit.Faithful accepted ∧ s.next ≤ s.transmit.next ∧
      ∃ more, (∀ sent ∈ more, s.next ≤ sent.start) ∧
        s.transmit.outstanding = s.outstanding ++ more ∧
        s.transmit.Spells (log ++ more) accepted := by
    apply transmit_induction (P := fun after => after.Faithful accepted ∧ s.next ≤ after.next ∧
      ∃ more, (∀ sent ∈ more, s.next ≤ sent.start) ∧
        after.outstanding = s.outstanding ++ more ∧ after.Spells (log ++ more) accepted)
    · refine ⟨faithful, Nat.le_refl _, [], by simp, (List.append_nil _).symm, ?_⟩
      rw [List.append_nil]
      exact spells
    · rintro before after emits ⟨reached, grown, more, later, outstanding, soFar⟩
      obtain ⟨sent, start, added, continued⟩ := emits.spells reached soFar
      have further := (emissions_advance (.single emits)).next
      refine ⟨(emits.faithful reached).1, by omega, more ++ [sent], ?_, ?_, ?_⟩
      · refine List.forall_mem_append.mpr ⟨later, ?_⟩
        intro other member
        rw [List.mem_singleton.mp member]
        omega
      · rw [added, outstanding, List.append_assoc]
      · rw [← List.append_assoc]
        exact continued
  exact result.2.2

theorem Spells.retire (spells : s.Spells log accepted) (position : Nat) (window : UInt16) :
    (s.retire position window).Spells log accepted := by
  refine { spells with outstanding := ?_ }
  rw [retire_outstanding]
  exact (List.dropWhile_suffix _).trans spells.outstanding

theorem firstSent_eq (before_next : ∀ sent ∈ s.outstanding, sent.start < s.next) (op : Op)
    {kept more : List Sent} (outstanding : (s.step op).2.outstanding = kept ++ more)
    (earlier : kept ⊆ s.outstanding) (later : ∀ sent ∈ more, s.next ≤ sent.start) :
    s.firstSent op = more := by
  have none_kept : kept.filter (fun sent => s.next ≤ sent.start) = [] := by
    rw [List.filter_eq_nil_iff]
    intro sent member
    have before := before_next sent (earlier member)
    simpa using before
  have all_more : more.filter (fun sent => s.next ≤ sent.start) = more := by
    rw [List.filter_eq_self]
    intro sent member
    simpa using later sent member
  rw [firstSent, outstanding, List.filter_append, none_kept, all_more, List.nil_append]

theorem firstSent_eq_nil (before_next : ∀ sent ∈ s.outstanding, sent.start < s.next) {op : Op}
    (outstanding : (s.step op).2.outstanding ⊆ s.outstanding) : s.firstSent op = [] :=
  firstSent_eq before_next op (List.append_nil _).symm outstanding (by simp)

theorem Spells.outstanding_before_next (spells : s.Spells log accepted) :
    ∀ sent ∈ s.outstanding, sent.start < s.next :=
  fun sent member => spells.before_next sent (spells.outstanding.subset member)

theorem Spells.requeue (spells : s.Spells log accepted) {again : List Segment} (timer : Timer)
    (nothing : ∀ segment ∈ again,
      segment ∈ log.map Sent.segment ∨ (segment.payload = [] ∧ segment.flags = .none)) :
    ({ s with queue := s.queue ++ again, timer } : Sender).Spells log accepted := by
  refine { spells with queued := ?_, others := ?_ }
  · exact spells.queued.trans (List.sublist_append_left _ _)
  · exact List.forall_mem_append.mpr ⟨spells.others, nothing⟩

theorem Spells.withStream (spells : s.Spells log accepted) (faithful : s.Faithful accepted)
    {stream : ByteStream} (more : Bytes) (read : stream.totalRead = s.stream.totalRead)
    (drained : s.stream.atEnd = true →
      stream.atEnd = true ∧ stream.totalWritten = s.stream.totalWritten) :
    ({ s with stream } : Sender).Spells log (accepted ++ more) := by
  refine { spells with text := ?_, closes := ?_ }
  · show _ = (accepted ++ more).take stream.totalRead
    rw [read, List.take_append_of_le_length faithful.read_le]
    exact spells.text
  · intro front sent back split fin
    obtain ⟨last, through, next⟩ := spells.closes front sent back split fin
    obtain ⟨still, written⟩ := drained through
    refine ⟨last, still, ?_⟩
    show s.next = stream.totalWritten + 2
    rw [written]
    exact next

theorem Spells.step (spells : s.Spells log accepted) (faithful : s.Faithful accepted) {op : Op}
    (leaves : op.LeavesBytes) (stays : op ≠ .sendReset) :
    (s.step op).2.Spells (log ++ s.firstSent op) (accepted ++ s.admitted op) := by
  have silent {after : Sender} (result : (s.step op).2 = after) (kept : after.Spells log accepted)
      (outstanding : after.outstanding = s.outstanding) (nothing : s.admitted op = []) :
      (s.step op).2.Spells (log ++ s.firstSent op) (accepted ++ s.admitted op) := by
    have none_sent : s.firstSent op = [] := firstSent_eq_nil spells.outstanding_before_next (by
      rw [result, outstanding]
      exact List.Subset.refl _)
    rw [none_sent, nothing, List.append_nil, List.append_nil, result]
    exact kept
  have given (stream : ByteStream) (result : (s.step op).2 = { s with stream })
      (read : stream.totalRead = s.stream.totalRead)
      (drained : s.stream.atEnd = true →
        stream.atEnd = true ∧ stream.totalWritten = s.stream.totalWritten) :
      (s.step op).2.Spells (log ++ s.firstSent op) (accepted ++ s.admitted op) := by
    have none_sent : s.firstSent op = [] := firstSent_eq_nil spells.outstanding_before_next (by
      rw [result]
      exact List.Subset.refl _)
    rw [none_sent, List.append_nil, result]
    exact spells.withStream faithful _ read drained
  cases op with
  | transmit =>
    obtain ⟨more, later, outstanding, kept⟩ := spells.transmit faithful
    have sent : s.firstSent .transmit = more :=
      firstSent_eq spells.outstanding_before_next .transmit outstanding (List.Subset.refl _) later
    have nothing : s.admitted .transmit = [] := rfl
    rw [sent, nothing, List.append_nil]
    exact kept
  | acknowledge ackno window =>
    obtain ⟨_, same⟩ | ⟨_, _, told⟩ | ⟨_, _, retired⟩ := s.acknowledge_cases ackno window rfl
    · exact silent same spells rfl rfl
    · exact silent told { spells with } rfl rfl
    · obtain ⟨more, later, outstanding, kept⟩ :=
        (spells.retire _ window).transmit (faithful.retire _ window)
      have earlier : (s.retire (ackno.positionNear s.isn s.acked) window).outstanding ⊆
          s.outstanding := by
        rw [retire_outstanding]
        exact (List.dropWhile_sublist _).subset
      rw [← retired] at outstanding kept
      have sent : s.firstSent (.acknowledge ackno window) = more :=
        firstSent_eq spells.outstanding_before_next (.acknowledge ackno window) outstanding
          earlier later
      have nothing : s.admitted (.acknowledge ackno window) = [] := rfl
      rw [sent, nothing, List.append_nil]
      exact kept
  | tick span =>
    obtain ⟨again, timer, oldest, ticked⟩ := s.tick_eq span
    refine silent ticked (spells.requeue timer ?_) rfl rfl
    intro segment member
    left
    exact List.map_subset _ spells.outstanding.subset (oldest member)
  | sendEmpty =>
    refine silent rfl (spells.requeue s.timer ?_) rfl rfl
    intro segment member
    rw [List.mem_singleton.mp member]
    exact .inr ⟨rfl, rfl⟩
  | sendReset => exact absurd rfl stays
  | input op =>
    cases op with
    | write data =>
      refine given (s.stream.write data).2 rfl (s.stream.totalRead_write data) ?_
      intro drained
      rw [ByteStream.write_of_ended (s.stream.atEnd_iff.mp drained).1]
      exact ⟨drained, rfl⟩
    | endInput =>
      refine given s.stream.endInput rfl rfl ?_
      intro drained
      exact ⟨(ByteStream.atEnd_iff _).mpr ⟨rfl, (s.stream.atEnd_iff.mp drained).2⟩, rfl⟩
    | fail => exact given s.stream.fail rfl rfl fun drained => ⟨drained, rfl⟩
    | peek | peekInto => exact given s.stream rfl rfl fun drained => ⟨drained, rfl⟩
    | read | readInto | pop => exact leaves.elim

theorem Spells.run (spells : s.Spells log accepted) (faithful : s.Faithful accepted) {ops : List Op}
    (plain : ∀ op ∈ ops, op.LeavesBytes ∧ op ≠ .sendReset) :
    (s.run ops).Spells (log ++ s.firstSentBy ops) (accepted ++ s.admittedBy ops) := by
  induction ops generalizing s log accepted with
  | nil =>
    rw [firstSentBy, admittedBy, List.append_nil, List.append_nil]
    exact spells
  | cons op rest ih =>
    obtain ⟨⟨leaves, stays⟩, others⟩ := List.forall_mem_cons.mp plain
    rw [firstSentBy, admittedBy, ← List.append_assoc, ← List.append_assoc]
    exact ih (spells.step faithful leaves stays) (faithful.step leaves).1 others

theorem isn_run (s : Sender) (ops : List Op) : (s.run ops).isn = s.isn := (s.run_advances ops).isn

theorem maxPayload_transmit (s : Sender) : s.transmit.maxPayload = s.maxPayload := by
  apply transmit_induction (P := fun after => after.maxPayload = s.maxPayload)
  · rfl
  · intro before after emits same
    rw [← same]
    cases emits <;> rfl

theorem maxPayload_step (s : Sender) (op : Op) : (s.step op).2.maxPayload = s.maxPayload := by
  cases op with
  | transmit => exact s.maxPayload_transmit
  | acknowledge ackno window =>
    show (s.acknowledge ackno window).maxPayload = s.maxPayload
    obtain ⟨_, same⟩ | ⟨_, _, told⟩ | ⟨_, _, retired⟩ := s.acknowledge_cases ackno window rfl
    · rw [same]
    · rw [told]
    · rw [retired]
      exact maxPayload_transmit _
  | tick span =>
    obtain ⟨_, _, _, ticked⟩ := s.tick_eq span
    show (s.tick span).maxPayload = s.maxPayload
    rw [ticked]
  | sendEmpty | sendReset => rfl
  | input op => cases op <;> rfl

theorem maxPayload_run (s : Sender) (ops : List Op) : (s.run ops).maxPayload = s.maxPayload := by
  induction ops generalizing s with
  | nil => rfl
  | cons op rest ih => exact (ih (s.step op).2).trans (s.maxPayload_step op)

/-- The segments of a sender, in the order in which they are sent for the first time, spell its
    stream exactly once, whatever is acknowledged: they follow each other from the SYN on, they carry
    the accepted bytes up to those that still wait, and a FIN is the last of them and comes after
    all the bytes. Whatever else is queued repeats one of them or says nothing. -/
theorem firstSentBy_spells (storage : Array UInt8) (isn : SeqNo) (timeout : Duration)
    (maxPayload : Nat) (ops : List Op) (plain : ∀ op ∈ ops, op.LeavesBytes ∧ op ≠ .sendReset) :
    let start := ofStream (.ofStorage storage) isn timeout maxPayload
    let last := start.run ops
    let log := start.firstSentBy ops
    (∀ first ∈ log.head?, first.start = 0 ∧ first.segment.flags = { syn := true } ∧
      first.segment.payload = []) ∧
    Sent.Contiguous 0 log last.next ∧
    (∀ sent ∈ log, sent.segment.seqno = .ofPosition sent.start isn ∧
      sent.segment.payload.length ≤ maxPayload) ∧
    log.flatMap (fun sent => sent.segment.payload) ++ last.stream.toList = start.admittedBy ops ∧
    (∀ front sent back, log = front ++ sent :: back → sent.segment.flags.fin = true →
      back = [] ∧ .input .endInput ∈ ops ∧ last.stream.toList = []) ∧
    (log.map Sent.segment).Sublist last.queue ∧
    ∀ segment ∈ last.queue,
      segment ∈ log.map Sent.segment ∨ (segment.payload = [] ∧ segment.flags = .none) := by
  intro start last log
  have begins : start.Faithful [] := ofStorage_faithful storage isn timeout maxPayload
  have leave : ∀ op ∈ ops, op.LeavesBytes := fun op member => (plain op member).1
  have spells : last.Spells log (start.admittedBy ops) :=
    (ofStorage_spells storage isn timeout maxPayload).run begins plain
  have faithful : last.Faithful (start.admittedBy ops) := (begins.run leave).1
  have isn_eq : last.isn = isn := start.isn_run ops
  have maxPayload_eq : last.maxPayload = maxPayload := start.maxPayload_run ops
  refine ⟨?_, spells.contiguous, ?_, ?_, ?_, spells.queued, spells.others⟩
  · intro first head
    obtain ⟨rest, whole⟩ := List.head?_eq_some_iff.mp head
    have contiguous := spells.contiguous
    rw [whole] at contiguous
    have member : first ∈ log := by simp [whole]
    exact ⟨contiguous.1, spells.opens first member contiguous.1⟩
  · intro sent member
    rw [← isn_eq, ← maxPayload_eq]
    exact ⟨spells.numbered sent member, spells.bounded sent member⟩
  · rw [spells.text, faithful.buffered, List.take_append_drop]
  · intro front sent back split fin
    obtain ⟨final, through, _⟩ := spells.closes front sent back split fin
    obtain ⟨ended, empty⟩ := last.stream.atEnd_iff.mp through
    refine ⟨final, ?_, empty⟩
    rcases (inputEnded_run_iff leave).mp ended with already | told
    · cases already
    · exact told

/-- A chunk is sent up to the window, then again when the timer expires, and the rest goes with the
    FIN once there is room. -/
def retransmitting : List Op :=
  [.transmit, .acknowledge ⟨8⟩ 3, .input (.write [1, 2, 3, 4]), .transmit, .tick (.ofMillis 1000),
    .input .endInput, .sendEmpty, .acknowledge ⟨10⟩ 8]

theorem firstSentBy_spells_retransmitting :
    let start := ofStream (.ofStorage (Array.replicate 4 0)) ⟨7⟩ (.ofMillis 1000) 2
    let log := start.firstSentBy retransmitting
    (∀ op ∈ retransmitting, op.LeavesBytes ∧ op ≠ .sendReset) ∧
      log.flatMap (fun sent => sent.segment.payload) = [1, 2, 3, 4] ∧
      (log.map Sent.segment).Sublist (start.run retransmitting).queue ∧
      log.length + 2 = (start.run retransmitting).queue.length := by
  intro start log
  have plain : ∀ op ∈ retransmitting, op.LeavesBytes ∧ op ≠ .sendReset := by
    simp [retransmitting, Op.LeavesBytes]
  obtain ⟨_, _, _, spelled, _, queued, _⟩ :=
    firstSentBy_spells (Array.replicate 4 0) ⟨7⟩ (.ofMillis 1000) 2 retransmitting plain
  have drained : (start.run retransmitting).stream.toList = [] := by decide +kernel
  have admitted : start.admittedBy retransmitting = [1, 2, 3, 4] := by decide +kernel
  have repeated : log.length + 2 = (start.run retransmitting).queue.length := by decide +kernel
  refine ⟨plain, ?_, queued, repeated⟩
  rw [drained, List.append_nil, admitted] at spelled
  exact spelled

end Sender

end NetStack.Tcp
