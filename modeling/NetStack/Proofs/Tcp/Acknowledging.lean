import NetStack.Proofs.Tcp.Succession

namespace NetStack.Tcp

namespace Sender

variable {s : Sender}

/-- Everything that waits to leave uses up sequence numbers. -/
def Laden (s : Sender) : Prop := ∀ segment ∈ s.queue, 0 < segment.space

theorem Emits.laden {after : Sender} (emits : Emits s after) (laden : s.Laden) : after.Laden := by
  have fresh (flags : Flags) (payload : Bytes) (stream : ByteStream)
      (later : s.next < (send { s with stream } flags payload).next) :
      (send { s with stream } flags payload).Laden := by
    rw [send_next] at later
    intro segment queued
    rcases List.mem_append.mp queued with earlier | now
    · exact laden segment earlier
    · rw [List.mem_singleton.mp now]
      exact Nat.lt_add_right_iff_pos.mp later
  have later := emits.next_lt
  cases emits with
  | syn | fin => exact fresh _ _ s.stream later
  | chunk => exact fresh _ _ _ later

theorem Laden.transmit (laden : s.Laden) : s.transmit.Laden :=
  transmit_induction laden fun _ _ emits soFar => emits.laden soFar

theorem Laden.acknowledge (laden : s.Laden) (ackno : SeqNo) (window : UInt16) :
    (s.acknowledge ackno window).Laden := by
  obtain ⟨_, same⟩ | ⟨_, _, told⟩ | ⟨_, _, retired⟩ := s.acknowledge_cases ackno window rfl
  · rw [same]
    exact laden
  · rw [told]
    exact laden
  · rw [retired]
    have retiring : (s.retire (ackno.positionNear s.isn s.acked) window).Laden := laden
    exact retiring.transmit

theorem Laden.run (laden : s.Laden) {ops : List Op}
    (speak : ∀ op ∈ ops, op = .transmit ∨ ∃ ackno window, op = .acknowledge ackno window) :
    (s.run ops).Laden := by
  induction ops generalizing s with
  | nil => exact laden
  | cons op rest ih =>
    obtain ⟨first, others⟩ := List.forall_mem_cons.mp speak
    rcases first with rfl | ⟨ackno, window, rfl⟩
    · exact ih laden.transmit others
    · exact ih (laden.acknowledge ackno window) others

end Sender

namespace Connection

variable {c : Connection} {segment : Segment}

/-- The segment is one that is never left without an answer. -/
def Owes (c : Connection) (segment : Segment) : Prop :=
  0 < segment.space ∨ c.asksForAnswer segment = true

theorem confirm_cases (noted : Connection) (known : noted.receiver.ackno?.isSome = true) :
    noted.Owes segment ∧ noted.sender.queue = [] ∧
        noted.confirm segment = { noted with sender := noted.sender.sendEmpty } ∨
      (noted.Owes segment → noted.sender.queue ≠ []) ∧ noted.confirm segment = noted := by
  unfold confirm Owes
  by_cases due : (decide (0 < segment.space) || noted.asksForAnswer segment) = true
  · by_cases empty : noted.sender.queue = []
    · left
      rw [if_pos (by simp [due, empty, known])]
      exact ⟨by simpa using due, empty, rfl⟩
    · right
      rw [if_neg (by simp [empty])]
      exact ⟨fun _ => empty, rfl⟩
  · right
    rw [if_neg (by simp [due])]
    exact ⟨fun owed => absurd (by simpa using owed) due, rfl⟩

/-- A known peer is listened to: what is noted of its segment comes before the question whether a
    bare segment is owed. -/
theorem receive_of_known (active : c.active = true) (plain : segment.flags.rst = false)
    (known : (c.receiver.receive segment).isn.isSome = true) :
    ∃ noted : Connection, c.receive segment = (noted.confirm segment).flush.settle ∧
      noted.queue = c.queue ∧ noted.receiver = c.receiver.receive segment ∧
      ∃ accepted : Connection, noted.sender = c.sender.run (accepted.answerOps segment) := by
  have heeded : ¬ (!c.active || (c.isListening && !segment.flags.syn)) = true := by
    -- a listener knows nobody, and comes to know somebody only by a SYN
    intro deaf
    simp only [active, isListening, Receiver.ackno?, Option.isNone_map, Bool.not_true,
      Bool.false_or, Bool.and_eq_true, Bool.not_eq_true'] at deaf
    rcases (c.receiver.isn_receive segment).mp known with early | syn
    · simp [Option.isNone_iff_eq_none.mp deaf.1.1] at early
    · simp [deaf.2] at syn
  unfold Connection.receive
  rw [if_neg heeded, if_neg (by simp [plain])]
  dsimp only
  rw [answer_stages, note_openFor_eq]
  exact ⟨_, rfl, rfl, rfl, _, rfl⟩

/-- What leaves in answer to a segment: segments that use up sequence numbers, or one bare segment,
    or nothing where nothing is owed. -/
inductive Answers (c : Connection) (segment : Segment) (queued : List Segment) : Prop
  | laden (owed : c.Owes segment → queued ≠ []) (occupy : ∀ answer ∈ queued, 0 < answer.space)
  | bare (owed : c.Owes segment) {answer : Segment} (empty : answer.space = 0)
      (alone : queued = [answer])

theorem confirm_answers (segment : Segment) {noted : Connection} (laden : noted.sender.Laden)
    (known : noted.receiver.ackno?.isSome = true) :
    let after := (noted.confirm segment).flush.settle
    ∃ queued, after.queue = noted.queue ++ queued ∧ after.Answers segment queued := by
  rcases confirm_cases noted known with ⟨owed, empty, confirmed⟩ | ⟨owed, confirmed⟩
  · rw [confirmed]
    refine ⟨[noted.stamp { seqno := noted.sender.nextSeqno }], ?_,
      .bare owed (noted.stamp_space _) rfl⟩
    show noted.queue ++ (noted.sender.queue ++ [_]).map _ = _
    rw [empty]
    rfl
  · rw [confirmed]
    refine ⟨noted.sender.queue.map noted.stamp, rfl, .laden (fun owes => ?_) ?_⟩
    · exact List.map_eq_nil_iff.not.mpr (owed owes)
    · intro answer queued
      obtain ⟨bare, waiting, rfl⟩ := List.mem_map.mp queued
      rw [stamp_space]
      exact laden bare waiting

theorem Answers.ne_nil {queued : List Segment} (answers : c.Answers segment queued)
    (owed : c.Owes segment) : queued ≠ [] := by
  cases answers with
  | laden answered => exact answered owed
  | bare _ _ alone => simp [alone]

theorem receive_answers (sound : c.Sound) (active : c.active = true)
    (plain : segment.flags.rst = false)
    (known : (c.receiver.receive segment).isn.isSome = true) :
    (c.receive segment).queue = c.queue ++ c.queuedBy (.receive segment) ∧
      (c.receive segment).Answers segment (c.queuedBy (.receive segment)) := by
  obtain ⟨noted, heard, queue, receiver, accepted, sender⟩ := receive_of_known active plain known
  have laden : noted.sender.Laden := by
    rw [sender]
    apply Sender.Laden.run
    · simp [Sender.Laden, sound.ready]
    · intro request member
      exact (mem_answerOps member).imp_right fun tells => ⟨_, _, tells.2⟩
  have synced : noted.receiver.ackno?.isSome = true := by
    rw [receiver, Receiver.ackno?, Option.isSome_map]
    exact known
  obtain ⟨queued, appended, answers⟩ := confirm_answers segment laden synced
  rw [← heard, queue] at appended
  rw [← heard] at answers
  have added : c.queuedBy (.receive segment) = queued := by
    show (c.receive segment).queue.drop c.queue.length = queued
    rw [appended]
    exact List.drop_left
  rw [added]
  exact ⟨appended, answers⟩

theorem receive_queue_ne_nil (sound : c.Sound) (active : c.active = true)
    (plain : segment.flags.rst = false) (occupies : 0 < segment.space)
    (synced : (c.receive segment).receiver.isn.isSome = true) : (c.receive segment).queue ≠ [] := by
  have known : (c.receiver.receive segment).isn.isSome = true := by
    apply (c.receiver.isn_receive segment).mpr
    rcases (isn_step sound (.receive segment)).mp synced with early | ⟨_, _, same, _, syn⟩
    · exact .inl early
    · cases same
      exact .inr syn
  obtain ⟨appended, answers⟩ := receive_answers sound active plain known
  rw [appended]
  exact List.append_ne_nil_of_right_ne_nil _ (answers.ne_nil (.inl occupies))

theorem owes_iff (segment : Segment) {ackno : SeqNo} (known : c.receiver.ackno? = some ackno) :
    c.Owes segment ↔ 0 < segment.space ∨ segment.seqno.advance 1 = ackno := by
  have asks : c.asksForAnswer segment = true ↔
      segment.space = 0 ∧ segment.seqno.advance 1 = ackno := by
    rw [asksForAnswer, known, Bool.and_eq_true, beq_iff_eq, beq_iff_eq, Option.some.injEq]
    exact and_congr_right fun _ => eq_comm
  rw [Owes, asks]
  rcases Nat.eq_zero_or_pos segment.space with nothing | occupies
  · simp [nothing]
  · simp [occupies]

theorem known_of_bringSyn (sound : c.Sound) {ops : List Op} (active : (c.run ops).active = true)
    (brings : BringSyn (ops ++ [.receive segment])) :
    ((c.run ops).receiver.receive segment).isn.isSome = true := by
  obtain ⟨bringer, member, syn⟩ := brings
  apply ((c.run ops).receiver.isn_receive segment).mpr
  rcases List.mem_append.mp member with early | now
  · exact .inl (isn_of_bringSyn sound active ⟨bringer, early, syn⟩)
  · cases List.mem_singleton.mp now
    exact .inr syn

theorem queuedBy_acknowledges (sound : c.Sound) {op : Op} {isn : SeqNo}
    (synced : (c.step op).2.receiver.isn = some isn) :
    ∀ answer ∈ c.queuedBy op, answer.flags.ack = true ∧
      answer.ackno = .ofPosition (c.step op).2.receiver.ackPosition isn := by
  intro answer leaves
  obtain ⟨bare, plain, rfl⟩ := exists_bare_of_queuedBy sound leaves
  rw [stamp_ack _ plain, stamp_ackno _ bare synced, synced]
  exact ⟨rfl, rfl⟩

/-- Every segment that a known peer sends is acknowledged, if it occupies sequence space or stands
    just before the number to acknowledge, and whatever is queued in answer to it acknowledges all
    that has arrived with it. An answer that occupies nothing itself is given only to those, and
    stands alone. -/
theorem acknowledges_what_arrives (config : Config) (inbound outbound : Array UInt8) (ops : List Op)
    (segment : Segment) (active : ((ofStorage config inbound outbound).run ops).active = true)
    (plain : segment.flags.rst = false) (brings : BringSyn (ops ++ [.receive segment])) :
    let before := (ofStorage config inbound outbound).run ops
    let after := before.receive segment
    let queued := before.queuedBy (.receive segment)
    ∃ ackno, after.receiver.ackno? = some ackno ∧ after.queue = before.queue ++ queued ∧
      (0 < segment.space ∨ segment.seqno.advance 1 = ackno → queued ≠ []) ∧
      (∀ answer ∈ queued, answer.flags.ack = true ∧ answer.ackno = ackno) ∧
      (segment.space = 0 → segment.seqno.advance 1 ≠ ackno →
        ∀ answer ∈ queued, 0 < answer.space) ∧
      (∀ answer ∈ queued, answer.space = 0 → queued = [answer]) := by
  intro before after queued
  have sound : before.Sound := (ofStorage_sound config inbound outbound).run ops
  have known : (before.receiver.receive segment).isn.isSome = true :=
    known_of_bringSyn (ofStorage_sound config inbound outbound) active brings
  have synced : after.receiver.isn.isSome = true := by
    apply (isn_step sound (.receive segment)).mpr
    exact ((before.receiver.isn_receive segment).mp known).imp_right
      fun syn => ⟨active, segment, rfl, plain, syn⟩
  obtain ⟨isn, synced⟩ := Option.isSome_iff_exists.mp synced
  have said : after.receiver.ackno? = some (.ofPosition after.receiver.ackPosition isn) := by
    rw [Receiver.ackno?, synced]
    rfl
  have acknowledge : ∀ answer ∈ queued, answer.flags.ack = true ∧
      answer.ackno = .ofPosition after.receiver.ackPosition isn :=
    queuedBy_acknowledges sound synced
  obtain ⟨appended, answers⟩ := receive_answers sound active plain known
  have owes := owes_iff segment said
  refine ⟨_, said, appended, ?_⟩
  have answered (due : 0 < segment.space ∨ segment.seqno.advance 1 =
      .ofPosition after.receiver.ackPosition isn) : queued ≠ [] := answers.ne_nil (owes.mpr due)
  cases answers with
  | laden _ occupy =>
    refine ⟨answered, acknowledge, fun _ _ => occupy, ?_⟩
    intro answer leaves empty
    have occupies := occupy answer leaves
    omega
  | @bare owed answer _ alone =>
    change queued = [answer] at alone
    refine ⟨answered, acknowledge, ?_, ?_⟩
    · intro nothing apart
      rcases owes.mp owed with occupies | asks
      · omega
      · exact absurd asks apart
    · intro other leaves _
      rw [alone] at leaves ⊢
      rw [List.mem_singleton.mp leaves]

theorem acknowledges_what_arrives_ahead :
    let opening : List Op := [.receive { flags := { syn := true }, window := 4 },
      .receive { seqno := ⟨1⟩, ackno := ⟨1⟩, flags := { ack := true }, window := 4 }]
    let ahead : Segment :=
      { seqno := ⟨2⟩, ackno := ⟨1⟩, flags := { ack := true }, window := 4, payload := [8] }
    let before := small.run opening
    before.active = true ∧ ahead.flags.rst = false ∧ BringSyn (opening ++ [.receive ahead]) ∧
      ∃ answer ∈ before.queuedBy (.receive ahead), answer.flags.ack = true ∧ answer.ackno = ⟨1⟩ := by
  intro opening ahead before
  have active : before.active = true := by decide +kernel
  have brings : BringSyn (opening ++ [.receive ahead]) :=
    ⟨{ flags := { syn := true }, window := 4 }, List.mem_cons_self, rfl⟩
  obtain ⟨ackno, said, _, owed, acknowledge, _⟩ := acknowledges_what_arrives
    { receiveCapacity := 4, sendCapacity := 4, isn := some ⟨0⟩ } (Array.replicate 4 0)
    (Array.replicate 4 0) opening ahead active rfl brings
  have missing : (before.receive ahead).receiver.ackno? = some ⟨1⟩ := by decide +kernel
  cases said.symm.trans missing
  obtain ⟨answer, leaves⟩ := List.exists_mem_of_ne_nil _ (owed (.inl (by decide)))
  exact ⟨active, rfl, brings, answer, leaves, acknowledge answer leaves⟩

end Connection

end NetStack.Tcp
