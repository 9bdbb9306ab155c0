import NetStack.Proofs.Stream.Pending
import NetStack.Proofs.Tcp.Following
import NetStack.Proofs.Tcp.Halves

namespace NetStack.Tcp

namespace Receiver

def place (r : Receiver) (segment : Segment) : Nat :=
  segment.seqno.positionNear (r.isn.getD segment.seqno) (r.stream.totalWritten + 1) +
    segment.flags.syn.toNat - 1

def reach (r : Receiver) (segment : Segment) : Nat := r.place segment + segment.payload.length

theorem receive_cases (r : Receiver) (segment : Segment) :
    (r.receive segment).reassembler = r.reassembler ∨
      ((r.receive segment).isn.isSome = true ∧ (r.receive segment).reassembler =
        r.reassembler.insert segment.payload (r.place segment) segment.flags.fin) := by
  have accepted (isn : SeqNo) (known : r.isn.getD segment.seqno = isn) :
      (r.accept isn segment).reassembler = r.reassembler ∨
        ((r.accept isn segment).isn.isSome = true ∧ (r.accept isn segment).reassembler =
          r.reassembler.insert segment.payload (r.place segment) segment.flags.fin) := by
    unfold accept place
    rw [known]
    dsimp only
    split
    · exact .inl rfl
    · exact .inr ⟨rfl, rfl⟩
  unfold receive
  split
  · rename_i isn synced
    exact accepted isn (by rw [synced, Option.getD_some])
  · rename_i unsynced
    split
    · exact accepted segment.seqno (by rw [unsynced, Option.getD_none])
    · exact .inl rfl

theorem tidy_receive {r : Receiver} (tidy : r.reassembler.Tidy) (segment : Segment) :
    (r.receive segment).reassembler.Tidy := by
  rcases r.receive_cases segment with same | ⟨_, inserted⟩
  · rw [same]
    exact tidy
  · rw [inserted]
    exact tidy.insert _ _ _

end Receiver

namespace Sender

theorem Emits.drained {s after : Sender} (emits : Emits s after) (drained : s.stream.atEnd = true) :
    after.stream.atEnd = true := by
  cases emits with
  | syn | fin => exact drained
  | chunk _ _ _ more => simp [drained] at more

theorem transmit_drained {s : Sender} (drained : s.stream.atEnd = true) :
    s.transmit.stream.atEnd = true :=
  transmit_induction (P := fun after => after.stream.atEnd = true) drained
    fun _ _ emits soFar => emits.drained soFar

theorem drained_step {s : Sender} {op : Op} (leaves : op.LeavesBytes)
    (drained : s.stream.atEnd = true) : (s.step op).2.stream.atEnd = true := by
  cases op with
  | transmit => exact transmit_drained drained
  | acknowledge ackno window =>
    show (s.acknowledge ackno window).stream.atEnd = true
    obtain ⟨_, same⟩ | ⟨_, _, told⟩ | ⟨_, _, retired⟩ := s.acknowledge_cases ackno window rfl
    · rw [same]
      exact drained
    · rw [told]
      exact drained
    · rw [retired]
      exact transmit_drained drained
  | tick span =>
    obtain ⟨again, timer, _, ticked⟩ := s.tick_eq span
    show (s.tick span).stream.atEnd = true
    rw [ticked]
    exact drained
  | sendEmpty | sendReset => exact drained
  | input op =>
    obtain ⟨ended, empty⟩ := s.stream.atEnd_iff.mp drained
    cases op with
    | write data =>
      -- nothing can be written any more
      show (s.stream.write data).2.atEnd = true
      rw [ByteStream.write_of_ended ended]
      exact drained
    | endInput => exact (ByteStream.atEnd_iff _).mpr ⟨rfl, empty⟩
    | peek | peekInto | fail => exact drained
    | read | readInto | pop => exact leaves.elim

theorem drained_run {s : Sender} {ops : List Op} (leave : ∀ op ∈ ops, op.LeavesBytes)
    (drained : s.stream.atEnd = true) : (s.run ops).stream.atEnd = true := by
  induction ops generalizing s with
  | nil => exact drained
  | cons op rest ih =>
    obtain ⟨first, others⟩ := List.forall_mem_cons.mp leave
    exact ih others (drained_step first drained)

end Sender

namespace Connection

structure Sound (c : Connection) : Prop where
  ready : c.sender.queue = []
  accounted : c.sender.Accounted
  faithful : ∃ accepted, c.sender.Faithful accepted
  tidy : c.receiver.reassembler.Tidy
  synced : c.inbound.inputEnded = true → c.receiver.isn.isSome = true

theorem ofStorage_sound (config : Config) (inbound outbound : Array UInt8) :
    (ofStorage config inbound outbound).Sound where
  ready := rfl
  accounted := Sender.ofStream_accounted _ _ _ _
  faithful := ⟨[], Sender.ofStorage_faithful _ _ _ _⟩
  tidy := Reassembler.ofStorage_tidy inbound
  synced := by simp [ofStorage, Connection.inbound, Receiver.ofStream, Receiver.stream,
    Reassembler.ofStream]

variable {c : Connection}

/-- The receiving half takes a segment in, fails, or is read from. -/
theorem receiver_step (sound : c.Sound) (op : Op) :
    (c.step op).2.receiver = c.receiver ∨
    (∃ segment, op = .receive segment ∧ c.active = true ∧
      (c.step op).2.receiver = c.receiver.receive segment) ∨
    (c.step op).2.receiver = c.receiver.withStream c.inbound.fail ∨
    ∃ count, (c.step op).2.receiver = c.receiver.withStream (c.inbound.pop count) := by
  obtain ⟨asked, fed, carries, does⟩ := c.step_carries op sound.ready
  rw [does.receiver]
  generalize (c.step op).1 = reply at carries
  cases carries with
  | ignored | deaf | connect | write | finish | tick => exact .inl rfl
  | receive active => exact .inr (.inl ⟨_, rfl, active, rfl⟩)
  | reset | giveUp | abort => exact .inr (.inr (.inl rfl))
  | read => exact .inr (.inr (.inr ⟨_, rfl⟩))

theorem reassembler_step (sound : c.Sound) (op : Op) :
    (∃ output : ByteStream, output.inputEnded = c.inbound.inputEnded ∧
      (c.step op).2.receiver.reassembler = { c.receiver.reassembler with output }) ∨
    ∃ segment, op = .receive segment ∧ (c.step op).2.receiver.reassembler =
      c.receiver.reassembler.insert segment.payload (c.receiver.place segment)
        segment.flags.fin := by
  rcases receiver_step sound op with same | ⟨segment, heard, _, taken⟩ | failed | ⟨count, read⟩
  · rw [same]
    exact .inl ⟨_, rfl, rfl⟩
  · rw [taken]
    rcases c.receiver.receive_cases segment with kept | ⟨_, inserted⟩
    · rw [kept]
      exact .inl ⟨_, rfl, rfl⟩
    · exact .inr ⟨segment, heard, inserted⟩
  · rw [failed]
    exact .inl ⟨c.inbound.fail, rfl, rfl⟩
  · rw [read]
    exact .inl ⟨c.inbound.pop count, rfl, rfl⟩

theorem Sound.step (sound : c.Sound) (op : Op) : (c.step op).2.Sound := by
  obtain ⟨asked, fed, carries, does⟩ := c.step_carries op sound.ready
  obtain ⟨accepted, faithful⟩ := sound.faithful
  constructor
  · rw [does.sender]
  · rw [does.sender]
    have accounted := sound.accounted.run asked
    exact accounted.congr rfl rfl rfl rfl
  · rw [does.sender]
    have kept := (faithful.run fun request member => (carries.warrants request member).leaves).1
    exact ⟨_, kept.queue (by simp)⟩
  · rcases receiver_step sound op with same | ⟨segment, _, _, heard⟩ | failed | ⟨count, read⟩
    · rw [same]
      exact sound.tidy
    · rw [heard]
      exact Receiver.tidy_receive sound.tidy segment
    · rw [failed]
      exact sound.tidy.fail
    · rw [read]
      exact sound.tidy.pop count
  · unfold Connection.inbound
    rcases receiver_step sound op with same | ⟨segment, _, _, heard⟩ | failed | ⟨count, read⟩
    · rw [same]
      exact sound.synced
    · rw [heard]
      intro ended
      rcases c.receiver.receive_cases segment with kept | ⟨isSome, _⟩
      · have before : c.inbound.inputEnded = true := by
          rw [← ended]
          unfold Connection.inbound Receiver.stream
          rw [kept]
        rw [(c.receiver.receive_grows segment).2 (sound.synced before)]
        exact sound.synced before
      · exact isSome
    · rw [failed]
      exact sound.synced
    · rw [read]
      exact sound.synced

theorem Sound.run (sound : c.Sound) (ops : List Op) : (c.run ops).Sound := by
  induction ops generalizing c with
  | nil => exact sound
  | cons op rest ih => exact ih (sound.step op)

theorem run_append (c : Connection) (first second : List Op) :
    c.run (first ++ second) = (c.run first).run second := List.foldl_append

theorem step_last (c : Connection) (ops : List Op) (op : Op) :
    c.run (ops ++ [op]) = ((c.run ops).step op).2 := c.run_append ops [op]

theorem run_keeps {P : Connection → Prop} (sound : c.Sound)
    (step : ∀ current : Connection, current.Sound → ∀ op, P current → P (current.step op).2)
    {passed ops : List Op} (front : passed <+: ops) (holds : P (c.run passed)) : P (c.run ops) := by
  obtain ⟨rest, rfl⟩ := front
  rw [run_append]
  have reached := sound.run passed
  generalize c.run passed = current at holds reached
  induction rest generalizing current with
  | nil => exact holds
  | cons op rest ih => exact ih _ (step current reached op holds) (reached.step op)

theorem drained_step (sound : c.Sound) (op : Op) (drained : c.outbound.atEnd = true) :
    (c.step op).2.outbound.atEnd = true := by
  obtain ⟨asked, fed, carries, does⟩ := c.step_carries op sound.ready
  unfold outbound
  rw [does.sender]
  exact Sender.drained_run (fun request member => (carries.warrants request member).leaves) drained

end Connection

end NetStack.Tcp
