import NetStack.Proofs.Tcp.Transcript
import NetStack.Proofs.Tcp.Transmission

namespace NetStack.Tcp.Sender

def transcript (s : Sender) (accepted : Bytes) : Transcript where
  isn := s.isn
  opened := decide (s.next ≠ 0)
  text := accepted.take s.stream.totalRead
  closed := decide (s.next = s.stream.totalRead + 2)

/-- The next position follows the SYN and the bytes that were sent, and the FIN once there are no
    more. -/
def Placed (s : Sender) : Prop :=
  (s.next = 0 ∧ s.stream.totalRead = 0) ∨ s.next = s.stream.totalRead + 1 ∨
    (s.next = s.stream.totalRead + 2 ∧ s.stream.atEnd = true)

structure Faithful (s : Sender) (accepted : Bytes) : Prop where
  placed : s.Placed
  read_le : s.stream.totalRead ≤ accepted.length
  buffered : s.stream.toList = accepted.drop s.stream.totalRead
  outstanding : ∀ sent ∈ s.outstanding,
    (s.transcript accepted).Covers sent.start sent.segment ∧ sent.segment.flags.ack = false
  queued : ∀ segment ∈ s.queue,
    (s.transcript accepted).Allows segment ∧ segment.flags.ack = false

theorem ofStorage_faithful (storage : Array UInt8) (isn : SeqNo) (timeout : Duration)
    (maxPayload : Nat) : (ofStream (.ofStorage storage) isn timeout maxPayload).Faithful [] where
  placed := .inl ⟨rfl, rfl⟩
  read_le := Nat.le_refl 0
  buffered := rfl
  outstanding := by simp [ofStream]
  queued := by simp [ofStream]

variable {s : Sender} {accepted : Bytes}

theorem Placed.transcript_length (placed : s.Placed) (read_le : s.stream.totalRead ≤ accepted.length) :
    (s.transcript accepted).length = s.next := by
  have sent : (accepted.take s.stream.totalRead).length = s.stream.totalRead := by
    rw [List.length_take, Nat.min_eq_left read_le]
  unfold Transcript.length transcript
  rcases placed with ⟨next, read⟩ | next | ⟨next, _⟩
  · simp [next, read]
  · simp only [next, sent]
    simp [Nat.add_comm]
  · simp only [next, sent]
    simp
    omega

theorem Placed.next_eq (placed : s.Placed) (opened : s.next ≠ 0) (more : s.stream.atEnd = false) :
    s.next = s.stream.totalRead + 1 := by
  rcases placed with ⟨next, _⟩ | next | ⟨_, atEnd⟩
  · exact absurd next opened
  · exact next
  · simp [more] at atEnd

theorem Placed.lt_next (placed : s.Placed) {position : Nat} (positive : 0 < position)
    (within : position ≤ s.stream.totalRead) : position < s.next := by
  rcases placed with ⟨_, read⟩ | next | ⟨next, _⟩
  · omega
  · omega
  · omega

theorem Faithful.transcript_length (faithful : s.Faithful accepted) :
    (s.transcript accepted).length = s.next := faithful.placed.transcript_length faithful.read_le

theorem Faithful.text_length (faithful : s.Faithful accepted) :
    (s.transcript accepted).text.length = s.stream.totalRead := by
  show (accepted.take s.stream.totalRead).length = _
  rw [List.length_take, Nat.min_eq_left faithful.read_le]

theorem Faithful.next_le (faithful : s.Faithful accepted) : s.next ≤ accepted.length + 2 := by
  have read := faithful.read_le
  rcases faithful.placed with ⟨next, _⟩ | next | ⟨next, _⟩
  · omega
  · omega
  · omega

/-- A transcript is closed only when all that was accepted has been sent. -/
theorem Faithful.all_sent (faithful : s.Faithful accepted)
    (closed : (s.transcript accepted).closed = true) :
    s.stream.inputEnded = true ∧ (s.transcript accepted).text = accepted := by
  have next : s.next = s.stream.totalRead + 2 := by simpa [transcript] using closed
  rcases faithful.placed with ⟨_, _⟩ | _ | ⟨_, atEnd⟩
  · omega
  · omega
  · obtain ⟨ended, empty⟩ := s.stream.atEnd_iff.mp atEnd
    refine ⟨ended, List.take_of_length_le ?_⟩
    rw [← List.drop_eq_nil_iff, ← faithful.buffered, empty]

theorem Faithful.next_le_of_extends {after : Sender} {final : Bytes} (faithful : s.Faithful accepted)
    (later : after.Faithful final)
    (extension : (after.transcript final).Extends (s.transcript accepted)) {position : Nat}
    (beyond : s.stream.totalRead < position) (within : position ≤ after.stream.totalRead) :
    s.next ≤ position := by
  rcases faithful.placed with ⟨next, _⟩ | next | ⟨next, _⟩
  · omega
  · omega
  · -- nothing follows the end
    have closed : (s.transcript accepted).closed = true := by
      unfold transcript
      rw [next]
      simp
    have text := congrArg List.length (extension.closed closed).2
    rw [faithful.text_length, later.text_length] at text
    omega

theorem Faithful.send (faithful : s.Faithful accepted) {stream : ByteStream} {flags : Flags}
    {payload : Bytes} (bare : flags.ack = false)
    (placed : (Sender.send { s with stream } flags payload).Placed)
    (read_le : stream.totalRead ≤ accepted.length)
    (buffered : stream.toList = accepted.drop stream.totalRead)
    (extension : ((Sender.send { s with stream } flags payload).transcript accepted).Extends
      (s.transcript accepted))
    (covers : ((Sender.send { s with stream } flags payload).transcript accepted).Covers s.next
      (s.fresh flags payload)) :
    (Sender.send { s with stream } flags payload).Faithful accepted := by
  refine ⟨placed, read_le, buffered, ?_, ?_⟩
  · intro sent member
    rcases List.mem_append.mp member with earlier | new
    · obtain ⟨covered, plain⟩ := faithful.outstanding sent earlier
      exact ⟨covered.extend extension, plain⟩
    · cases List.mem_singleton.mp new
      exact ⟨covers, bare⟩
  · intro segment member
    rcases List.mem_append.mp member with earlier | new
    · obtain ⟨allowed, plain⟩ := faithful.queued segment earlier
      exact ⟨allowed.extend extension, plain⟩
    · cases List.mem_singleton.mp new
      exact ⟨.inr ⟨s.next, covers⟩, bare⟩

theorem Faithful.send_syn (faithful : s.Faithful accepted) (unopened : s.next = 0) :
    (s.send { syn := true } []).Faithful accepted ∧
      ((s.send { syn := true } []).transcript accepted).Extends (s.transcript accepted) := by
  have read : s.stream.totalRead = 0 := by
    rcases faithful.placed with ⟨_, read⟩ | _ | ⟨_, _⟩
    · exact read
    · omega
    · omega
  have next : (s.send { syn := true } []).next = 1 := by
    rw [send_next, unopened]
    rfl
  have placed : (s.send { syn := true } []).Placed := .inr (.inl (by rw [next, send_stream, read]))
  have extension :
      ((s.send { syn := true } []).transcript accepted).Extends (s.transcript accepted) := by
    refine ⟨rfl, fun _ => by simp only [transcript, next]; decide, List.prefix_rfl,
      fun closed => ?_⟩
    have closed : s.next = s.stream.totalRead + 2 := of_decide_eq_true closed
    omega
  refine ⟨faithful.send rfl placed faithful.read_le faithful.buffered extension ?_, extension⟩
  constructor
  · rfl
  · rw [placed.transcript_length faithful.read_le, send_next]
  · exact List.nil_prefix
  · exact fun _ => ⟨by simp only [transcript, next]; decide, unopened, rfl⟩
  · exact fun _ => .inl rfl
  · intro fin
    cases fin

theorem Faithful.peek_isPrefix (faithful : s.Faithful accepted) (count : Nat) :
    s.stream.peek count <+: accepted.drop s.stream.totalRead := by
  rw [s.stream.peek_eq, ← faithful.buffered]
  exact List.take_prefix _ _

theorem Faithful.totalRead_pop_le (faithful : s.Faithful accepted) (count : Nat) :
    (s.stream.pop count).totalRead ≤ accepted.length := by
  have fits := (faithful.peek_isPrefix count).length_le
  rw [List.length_drop, s.stream.peek_eq] at fits
  have read := faithful.read_le
  rw [ByteStream.totalRead_pop]
  omega

theorem Faithful.take_pop (faithful : s.Faithful accepted) (count : Nat) :
    accepted.take (s.stream.pop count).totalRead =
      accepted.take s.stream.totalRead ++ s.stream.peek count := by
  rw [ByteStream.totalRead_pop, ← s.stream.peek_eq, List.take_add]
  congr 1
  exact (List.prefix_iff_eq_take.mp (faithful.peek_isPrefix count)).symm

theorem Faithful.toList_pop (faithful : s.Faithful accepted) (count : Nat) :
    (s.stream.pop count).toList = accepted.drop (s.stream.pop count).totalRead := by
  rw [ByteStream.totalRead_pop, ← List.drop_drop, ← faithful.buffered, ByteStream.toList_pop,
    List.length_take]
  by_cases within : count ≤ s.stream.toList.length
  · rw [Nat.min_eq_left within]
  · rw [Nat.min_eq_right (by omega), List.drop_length, List.drop_eq_nil_of_le (by omega)]

theorem Faithful.send_chunk (faithful : s.Faithful accepted) {count : Nat} {fin : Bool}
    (opened : s.next ≠ 0) (more : s.stream.atEnd = false)
    (last : fin = true → (s.stream.pop count).atEnd = true) :
    (Sender.send { s with stream := s.stream.pop count } { fin } (s.stream.peek count)).Faithful accepted ∧
      ((Sender.send { s with stream := s.stream.pop count } { fin } (s.stream.peek count)).transcript
        accepted).Extends (s.transcript accepted) := by
  generalize result : Sender.send { s with stream := s.stream.pop count } { fin }
    (s.stream.peek count) = after
  have stream : after.stream = s.stream.pop count := by rw [← result, send_stream]
  have before := faithful.placed.next_eq opened more
  have read_le : after.stream.totalRead ≤ accepted.length := by
    rw [stream]
    exact faithful.totalRead_pop_le count
  have next : after.next = after.stream.totalRead + 1 + fin.toNat := by
    rw [stream, ByteStream.totalRead_pop, ← s.stream.peek_eq, ← result, send_next]
    show s.next + ((s.stream.peek count).length + 0 + fin.toNat) = _
    omega
  have placed : after.Placed := by
    cases fin with
    | false => exact .inr (.inl next)
    | true =>
      rw [← stream] at last
      exact .inr (.inr ⟨next, last rfl⟩)
  have text : (after.transcript accepted).text =
      (s.transcript accepted).text ++ s.stream.peek count := by
    show accepted.take after.stream.totalRead = accepted.take s.stream.totalRead ++ _
    rw [stream]
    exact faithful.take_pop count
  have extension : (after.transcript accepted).Extends (s.transcript accepted) := by
    constructor
    · rw [← result]
      rfl
    · intro _
      simp [transcript, next]
    · rw [text]
      exact List.prefix_append _ _
    · intro closed
      simp [transcript, before] at closed
  have covers : (after.transcript accepted).Covers s.next
      (s.fresh { fin } (s.stream.peek count)) := by
    constructor
    · rw [← result]
      rfl
    · rw [placed.transcript_length read_le, ← result, send_next]
      exact Nat.le_refl _
    · show s.stream.peek count <+: _
      rw [text, before, Nat.add_sub_cancel, ← faithful.text_length, List.drop_left]
    · intro syn
      cases syn
    · exact fun start => absurd start opened
    · intro mark
      have mark : fin = true := mark
      refine ⟨by simp [transcript, next, mark], ?_⟩
      show s.next + (s.stream.peek count).length = _
      rw [text, List.length_append, faithful.text_length]
      omega
  subst result
  exact ⟨faithful.send rfl placed (faithful.totalRead_pop_le count) (faithful.toList_pop count)
    extension covers, extension⟩

theorem Faithful.send_fin (faithful : s.Faithful accepted) (opened : s.next ≠ 0)
    (drained : s.stream.atEnd = true) (unsent : s.next < s.endPosition) :
    (s.send { fin := true } []).Faithful accepted ∧
      ((s.send { fin := true } []).transcript accepted).Extends (s.transcript accepted) := by
  obtain ⟨_, empty⟩ := s.stream.atEnd_iff.mp drained
  have written : s.stream.totalWritten = s.stream.totalRead := by
    rw [← s.stream.totalRead_add_length, empty]
    rfl
  have before : s.next = s.stream.totalRead + 1 := by
    unfold endPosition at unsent
    rcases faithful.placed with ⟨next, _⟩ | next | ⟨next, _⟩
    · exact absurd next opened
    · exact next
    · omega
  have next : (s.send { fin := true } []).next = s.stream.totalRead + 2 := by
    rw [send_next, before]
    rfl
  have placed : (s.send { fin := true } []).Placed := .inr (.inr ⟨next, drained⟩)
  have closed : ((s.send { fin := true } []).transcript accepted).closed = true := by
    simp only [transcript, next, send_stream, decide_true]
  have extension :
      ((s.send { fin := true } []).transcript accepted).Extends (s.transcript accepted) :=
    ⟨rfl, fun _ => by simp only [transcript, next]; simp, List.prefix_rfl, fun _ => ⟨closed, rfl⟩⟩
  refine ⟨faithful.send rfl placed faithful.read_le faithful.buffered extension ?_, extension⟩
  constructor
  · rfl
  · rw [placed.transcript_length faithful.read_le, send_next]
  · exact List.nil_prefix
  · intro syn
    cases syn
  · exact fun start => absurd start opened
  · intro _
    refine ⟨closed, ?_⟩
    show s.next + 0 = (s.transcript accepted).text.length + 1
    rw [faithful.text_length, before]

theorem Emits.faithful {after : Sender} (emits : Emits s after) (faithful : s.Faithful accepted) :
    after.Faithful accepted ∧ (after.transcript accepted).Extends (s.transcript accepted) := by
  cases emits with
  | syn unopened => exact faithful.send_syn unopened
  | chunk _ opened _ more _ fin_eq =>
    refine faithful.send_chunk opened more fun last => ?_
    rw [fin_eq, Bool.and_eq_true] at last
    exact last.1
  | fin _ opened _ drained unsent => exact faithful.send_fin opened drained unsent

theorem Faithful.transmit (faithful : s.Faithful accepted) :
    s.transmit.Faithful accepted ∧
      (s.transmit.transcript accepted).Extends (s.transcript accepted) := by
  apply transmit_induction
    (P := fun after => after.Faithful accepted ∧
      (after.transcript accepted).Extends (s.transcript accepted))
  · exact ⟨faithful, .refl _⟩
  · intro before after emits soFar
    obtain ⟨kept, extension⟩ := emits.faithful soFar.1
    exact ⟨kept, extension.trans soFar.2⟩

theorem Faithful.retire (faithful : s.Faithful accepted) (position : Nat) (window : UInt16) :
    (s.retire position window).Faithful accepted := by
  refine ⟨faithful.placed, faithful.read_le, faithful.buffered, fun sent member => ?_,
    faithful.queued⟩
  rw [retire_outstanding] at member
  exact faithful.outstanding sent ((List.dropWhile_sublist _).subset member)

theorem Faithful.acknowledge (faithful : s.Faithful accepted) (ackno : SeqNo) (window : UInt16) :
    (s.acknowledge ackno window).Faithful accepted ∧
      ((s.acknowledge ackno window).transcript accepted).Extends (s.transcript accepted) := by
  obtain ⟨_, same⟩ | ⟨_, _, told⟩ | ⟨_, _, retired⟩ := s.acknowledge_cases ackno window rfl
  · rw [same]
    exact ⟨faithful, .refl _⟩
  · rw [told]
    exact ⟨⟨faithful.placed, faithful.read_le, faithful.buffered, faithful.outstanding,
      faithful.queued⟩, .refl _⟩
  · rw [retired]
    exact (faithful.retire _ window).transmit

theorem Faithful.queue (faithful : s.Faithful accepted) {queue : List Segment} {timer : Timer}
    (queued : ∀ segment ∈ queue, (s.transcript accepted).Allows segment ∧ segment.flags.ack = false) :
    ({ s with queue, timer } : Sender).Faithful accepted :=
  ⟨faithful.placed, faithful.read_le, faithful.buffered, faithful.outstanding, queued⟩

theorem Faithful.tick (faithful : s.Faithful accepted) (span : Duration) :
    (s.tick span).Faithful accepted ∧ (s.tick span).transcript accepted = s.transcript accepted := by
  obtain ⟨again, timer, kept, ticked⟩ := s.tick_eq span
  rw [ticked]
  refine ⟨faithful.queue fun segment member => ?_, rfl⟩
  rcases List.mem_append.mp member with earlier | repeated
  · exact faithful.queued segment earlier
  · obtain ⟨sent, outstanding, rfl⟩ := List.mem_map.mp (kept repeated)
    obtain ⟨covers, plain⟩ := faithful.outstanding sent outstanding
    exact ⟨.inr ⟨sent.start, covers⟩, plain⟩

theorem Faithful.sendEmpty (faithful : s.Faithful accepted) : s.sendEmpty.Faithful accepted := by
  apply faithful.queue
  intro segment member
  rcases List.mem_append.mp member with earlier | new
  · exact faithful.queued segment earlier
  · cases List.mem_singleton.mp new
    refine ⟨.inr ⟨_, Transcript.covers_of_space_eq_zero ?_ rfl⟩, rfl⟩
    rw [faithful.transcript_length]
    rfl

theorem Faithful.sendReset (faithful : s.Faithful accepted) : s.sendReset.Faithful accepted := by
  apply faithful.queue
  intro segment member
  cases List.mem_singleton.mp member
  exact ⟨.inl ⟨rfl, rfl⟩, rfl⟩

theorem Faithful.withStream (faithful : s.Faithful accepted) {stream : ByteStream} (more : Bytes)
    (read : stream.totalRead = s.stream.totalRead) (toList : stream.toList = s.stream.toList ++ more)
    (atEnd : s.stream.atEnd = true → stream.atEnd = true) :
    ({ s with stream } : Sender).Faithful (accepted ++ more) ∧
      ({ s with stream } : Sender).transcript (accepted ++ more) = s.transcript accepted := by
  have same : ({ s with stream } : Sender).transcript (accepted ++ more) = s.transcript accepted := by
    simp only [transcript, read, List.take_append_of_le_length faithful.read_le]
  refine ⟨⟨?_, ?_, ?_, ?_, ?_⟩, same⟩
  · unfold Placed
    rw [read]
    exact faithful.placed.imp_right (Or.imp_right (And.imp_right atEnd))
  · show stream.totalRead ≤ _
    have := faithful.read_le
    simp only [read, List.length_append]
    omega
  · show stream.toList = (accepted ++ more).drop stream.totalRead
    rw [read, toList, faithful.buffered, List.drop_append_of_le_length faithful.read_le]
  · rw [same]
    exact faithful.outstanding
  · rw [same]
    exact faithful.queued

def admitted (s : Sender) : Op → Bytes
  | .input (.write data) => data.take (s.stream.write data).1
  | _ => []

/-- Nobody but the sender takes bytes out of its stream. -/
def Op.LeavesBytes : Op → Prop
  | .input (.read _) | .input (.readInto _) | .input (.pop _) => False
  | _ => True

theorem Faithful.step (faithful : s.Faithful accepted) {op : Op} (leaves : op.LeavesBytes) :
    (s.step op).2.Faithful (accepted ++ s.admitted op) ∧
      ((s.step op).2.transcript (accepted ++ s.admitted op)).Extends (s.transcript accepted) := by
  have marks {stream : ByteStream} (read : stream.totalRead = s.stream.totalRead)
      (toList : stream.toList = s.stream.toList) (atEnd : s.stream.atEnd = true → stream.atEnd = true) :
      ({ s with stream } : Sender).Faithful (accepted ++ []) ∧
        (({ s with stream } : Sender).transcript (accepted ++ [])).Extends (s.transcript accepted) := by
    obtain ⟨kept, same⟩ := faithful.withStream [] read
      (by rw [toList, List.append_nil]) atEnd
    exact ⟨kept, by rw [same]; exact .refl _⟩
  have silent {after : Sender} (kept : after.Faithful accepted ∧
      (after.transcript accepted).Extends (s.transcript accepted)) :
      after.Faithful (accepted ++ []) ∧
        (after.transcript (accepted ++ [])).Extends (s.transcript accepted) := by
    rw [List.append_nil]
    exact kept
  cases op with
  | transmit => exact silent faithful.transmit
  | acknowledge ackno window => exact silent (faithful.acknowledge ackno window)
  | tick span =>
    obtain ⟨kept, same⟩ := faithful.tick span
    exact silent ⟨kept, by rw [← same]; exact .refl _⟩
  | sendEmpty => exact silent ⟨faithful.sendEmpty, .refl _⟩
  | sendReset => exact silent ⟨faithful.sendReset, .refl _⟩
  | input op =>
    cases op with
    | write data =>
      have written := faithful.withStream _ (s.stream.totalRead_write data)
        (s.stream.toList_write data) fun atEnd => by
          rw [ByteStream.write_of_ended (s.stream.atEnd_iff.mp atEnd).1]
          exact atEnd
      exact ⟨written.1, by rw [← written.2]; exact .refl _⟩
    | peek count | peekInto buffer => exact marks rfl rfl id
    | read count | readInto buffer | pop count => exact leaves.elim
    | endInput => exact marks rfl rfl fun atEnd =>
      (ByteStream.atEnd_iff _).mpr ⟨rfl, (s.stream.atEnd_iff.mp atEnd).2⟩
    | fail => exact marks rfl rfl id

def admittedBy (s : Sender) : List Op → Bytes
  | [] => []
  | op :: rest => s.admitted op ++ (s.step op).2.admittedBy rest

theorem Faithful.run (faithful : s.Faithful accepted) {ops : List Op}
    (leave : ∀ op ∈ ops, op.LeavesBytes) :
    (s.run ops).Faithful (accepted ++ s.admittedBy ops) ∧
      ((s.run ops).transcript (accepted ++ s.admittedBy ops)).Extends (s.transcript accepted) := by
  induction ops generalizing s accepted with
  | nil =>
    rw [admittedBy, List.append_nil]
    exact ⟨faithful, .refl _⟩
  | cons op rest ih =>
    obtain ⟨first, others⟩ := List.forall_mem_cons.mp leave
    obtain ⟨stepped, extension⟩ := faithful.step first
    obtain ⟨kept, later⟩ := ih stepped others
    rw [admittedBy, ← List.append_assoc]
    exact ⟨kept, later.trans extension⟩

theorem inputEnded_acknowledge (s : Sender) (ackno : SeqNo) (window : UInt16) :
    (s.acknowledge ackno window).stream.inputEnded = s.stream.inputEnded := by
  obtain ⟨_, same⟩ | ⟨_, _, told⟩ | ⟨_, _, retired⟩ := s.acknowledge_cases ackno window rfl
  · rw [same]
  · rw [told]
  · rw [retired, (s.retire _ window).transmit_keeps.2.2]
    rfl

theorem inputEnded_step_iff {s : Sender} {op : Op} (leaves : op.LeavesBytes) :
    (s.step op).2.stream.inputEnded = true ↔
      s.stream.inputEnded = true ∨ op = .input .endInput := by
  have kept (other : op ≠ .input .endInput)
      (same : (s.step op).2.stream.inputEnded = s.stream.inputEnded) :
      (s.step op).2.stream.inputEnded = true ↔
        s.stream.inputEnded = true ∨ op = .input .endInput := by
    rw [same, or_iff_left other]
  cases op with
  | transmit => exact kept (by simp) s.transmit_keeps.2.2
  | acknowledge ackno window => exact kept (by simp) (s.inputEnded_acknowledge ackno window)
  | tick span =>
    obtain ⟨again, timer, _, ticked⟩ := s.tick_eq span
    apply kept (by simp)
    rw [show (s.step (.tick span)).2 = s.tick span from rfl, ticked]
  | sendEmpty | sendReset => exact kept (by simp) rfl
  | input op =>
    cases op with
    | write data => exact kept (by simp) (s.stream.inputEnded_write data)
    | endInput => exact ⟨fun _ => .inr rfl, fun _ => rfl⟩
    | read | readInto | pop => exact leaves.elim
    | peek | peekInto | fail => exact kept (by simp) rfl

theorem inputEnded_run_iff {s : Sender} {ops : List Op} (leave : ∀ op ∈ ops, op.LeavesBytes) :
    (s.run ops).stream.inputEnded = true ↔
      s.stream.inputEnded = true ∨ .input .endInput ∈ ops := by
  induction ops generalizing s with
  | nil => simp [run]
  | cons op rest ih =>
    obtain ⟨first, others⟩ := List.forall_mem_cons.mp leave
    have later := ih (s := (s.step op).2) others
    rw [inputEnded_step_iff first, or_assoc] at later
    rw [List.mem_cons, eq_comm (a := Op.input .endInput)]
    exact later

end NetStack.Tcp.Sender
