import NetStack.Proofs.Tcp.Soundness

namespace NetStack

namespace Tcp

/-- The longest payload that a window lets out, up to a limit. A closed window is probed with one
    byte. -/
def reach (limit : Nat) (window : UInt16) : Nat := min (max window.toNat 1) limit

namespace Sender

/-- A sender that cuts payloads of at most `limit` bytes, and has nothing longer than `bound` queued
    or outstanding, nor the window for it. -/
structure Sized (s : Sender) (limit bound : Nat) : Prop where
  limited : min s.maxPayload s.stream.capacity ≤ limit
  window : reach limit s.window ≤ bound
  outstanding : ∀ sent ∈ s.outstanding, sent.segment.payload.length ≤ bound
  queued : ∀ segment ∈ s.queue, segment.payload.length ≤ bound

variable {s : Sender} {limit bound : Nat}

theorem Sized.send (sized : s.Sized limit bound) {stream : ByteStream} {flags : Flags}
    {payload : Bytes} (capacity : stream.capacity = s.stream.capacity)
    (short : payload.length ≤ bound) :
    (Sender.send { s with stream } flags payload).Sized limit bound where
  limited := by
    rw [send_maxPayload, send_stream, capacity]
    exact sized.limited
  window := sized.window
  outstanding := by
    rw [send_outstanding]
    exact List.forall_mem_append.mpr ⟨sized.outstanding, List.forall_mem_singleton.mpr short⟩
  queued := by
    rw [send_queue]
    exact List.forall_mem_append.mpr ⟨sized.queued, List.forall_mem_singleton.mpr short⟩

theorem Emits.sized {after : Sender} (emits : Emits s after) (accounted : s.Accounted)
    (sized : s.Sized limit bound) : after.Sized limit bound := by
  cases emits with
  | syn | fin => exact sized.send rfl (Nat.zero_le _)
  | @chunk count fin _ _ _ _ count_eq =>
    -- there is no more room than the window, and no more to cut than the stream can hold
    apply sized.send (s.stream.capacity_pop count)
    have limited := sized.limited
    have window := sized.window
    have acked := accounted.acked_le
    have held : s.stream.size ≤ s.stream.capacity := s.stream.size_le
    unfold reach at window
    unfold rightEdge at count_eq
    rw [ByteStream.peek_eq, List.length_take, ByteStream.toList_length]
    omega

theorem Sized.transmit (sized : s.Sized limit bound) (accounted : s.Accounted) :
    s.transmit.Sized limit bound := by
  have both : s.transmit.Accounted ∧ s.transmit.Sized limit bound := by
    apply transmit_induction (P := fun after => after.Accounted ∧ after.Sized limit bound)
    · exact ⟨accounted, sized⟩
    · intro before after emits soFar
      exact ⟨emits.accounted soFar.1, emits.sized soFar.1 soFar.2⟩
  exact both.2

theorem transmit_of_full (answered : s.acked ≠ 0) (opened : s.next ≠ 0) {room : Nat}
    (edge : s.rightEdge = s.next + (room + 1)) (allowed : room + 1 ≤ s.maxPayload)
    (full : room + 1 ≤ s.stream.size) :
    s.transmit = Sender.send { s with stream := s.stream.pop (room + 1) } {}
      (s.stream.peek (room + 1)) := by
  have gap : s.rightEdge - s.next = room + 1 := by omega
  have held : s.stream.toList.length = s.stream.size := s.stream.toList_length
  have cut : (s.stream.peek (room + 1)).length = room + 1 := by
    rw [ByteStream.peek_eq, List.length_take]
    omega
  have more : s.stream.atEnd ≠ true := by
    intro drained
    rw [(s.stream.atEnd_iff.mp drained).2, List.length_nil] at held
    omega
  -- the chunk fills the room, so there is none for a FIN
  have chunk : s.sendChunk? = some (Sender.send { s with stream := s.stream.pop (room + 1) } {}
      (s.stream.peek (room + 1))) := by
    have something : s.stream.peek (room + 1) ≠ [] := by
      rw [← List.length_pos_iff, cut]
      exact Nat.succ_pos _
    unfold sendChunk? ByteStream.read
    dsimp only
    rw [gap, Nat.min_eq_left allowed, cut]
    simp only [Nat.lt_irrefl, decide_false, Bool.and_false, something, false_and, if_false]
  have filled : s.rightEdge ≤ s.next + ((s.stream.peek (room + 1)).length + 0 + 0) := by omega
  unfold Sender.transmit
  dsimp only
  rw [if_neg opened, if_neg answered, gap]
  unfold sendUpTo
  rw [if_neg (by omega), if_neg more, chunk]
  cases room with
  | zero => rfl
  | succ room => exact if_pos filled

theorem Sized.requeue (sized : s.Sized limit bound) (timer : Timer) {again : List Segment}
    (known : ∀ segment ∈ again, segment ∈ s.outstanding.map Sent.segment ∨ segment.payload = []) :
    ({ s with queue := s.queue ++ again, timer } : Sender).Sized limit bound := by
  refine { sized with queued := List.forall_mem_append.mpr ⟨sized.queued, ?_⟩ }
  intro segment member
  rcases known segment member with repeated | bare
  · obtain ⟨sent, waiting, rfl⟩ := List.mem_map.mp repeated
    exact sized.outstanding sent waiting
  · rw [bare]
    exact Nat.zero_le _

def Op.OpensWithin (limit bound : Nat) : Op → Prop
  | .acknowledge _ window => reach limit window ≤ bound
  | _ => True

theorem Sized.step (sized : s.Sized limit bound) (accounted : s.Accounted) {op : Op}
    (opens : op.OpensWithin limit bound) : (s.step op).2.Sized limit bound := by
  cases op with
  | transmit => exact sized.transmit accounted
  | acknowledge ackno window =>
    show (s.acknowledge ackno window).Sized limit bound
    obtain ⟨_, same⟩ | ⟨_, _, told⟩ | ⟨sent, news, retired⟩ := s.acknowledge_cases ackno window rfl
    · rw [same]
      exact sized
    · rw [told]
      exact { sized with window := opens }
    · rw [retired]
      apply Sized.transmit _ (accounted.retire _ news sent)
      refine { sized with window := opens, outstanding := ?_ }
      intro other member
      rw [retire_outstanding] at member
      exact sized.outstanding other ((List.dropWhile_sublist _).subset member)
  | tick span =>
    obtain ⟨again, timer, oldest, ticked⟩ := s.tick_eq span
    show (s.tick span).Sized limit bound
    rw [ticked]
    exact sized.requeue timer fun segment member => .inl (oldest member)
  | sendEmpty => exact sized.requeue s.timer (by simp)
  | sendReset => exact { sized with queued := List.forall_mem_singleton.mpr (Nat.zero_le _) }
  | input op =>
    refine { sized with limited := ?_ }
    show min s.maxPayload (s.stream.step op).2.capacity ≤ limit
    rw [s.stream.capacity_step op]
    exact sized.limited

theorem Sized.run (sized : s.Sized limit bound) (accounted : s.Accounted) {ops : List Op}
    (open_within : ∀ op ∈ ops, op.OpensWithin limit bound) : (s.run ops).Sized limit bound := by
  induction ops generalizing s with
  | nil => exact sized
  | cons op rest ih =>
    obtain ⟨first, others⟩ := List.forall_mem_cons.mp open_within
    exact ih (sized.step accounted first) (accounted.step op) others

end Sender

namespace Connection

/-- Nothing longer than `bound` has left the sending half, nor will until the peer opens its window
    further. -/
structure Sized (c : Connection) (limit bound : Nat) : Prop where
  sender : c.sender.Sized limit bound
  queued : ∀ segment ∈ c.queue, segment.payload.length ≤ bound

variable {c : Connection} {limit bound : Nat}

theorem ofStorage_sized (config : Config) (inbound outbound : Array UInt8)
    (limited : min config.maxPayload outbound.size ≤ limit) (some_fits : 0 < bound) :
    (ofStorage config inbound outbound).Sized limit bound where
  sender := {
    limited
    window := Nat.le_trans (Nat.min_le_left _ _) some_fits
    outstanding := by simp [ofStorage, Sender.ofStream]
    queued := by simp [ofStorage, Sender.ofStream] }
  queued := by simp [ofStorage]

theorem Sized.step (sized : c.Sized limit bound) (sound : c.Sound) {op : Op}
    (opens : ∀ heard, op = .receive heard → reach limit heard.window ≤ bound) :
    (c.step op).2.Sized limit bound := by
  obtain ⟨asked, fed, carries, does⟩ := c.step_carries op sound.ready
  have asked_within : ∀ request ∈ asked, request.OpensWithin limit bound := by
    intro request member
    have warrants := carries.warrants request member
    cases request with
    | acknowledge ackno window =>
      obtain ⟨heard, received, _, _, _, rfl⟩ := warrants
      exact opens heard received
    | transmit | tick | sendEmpty | sendReset | input => trivial
  have reached := sized.sender.run sound.accounted asked_within
  constructor
  · rw [does.sender]
    exact { reached with queued := by simp }
  · rcases does.queue with appended | ⟨_, left⟩
    · rw [appended]
      refine List.forall_mem_append.mpr ⟨sized.queued, ?_⟩
      intro segment member
      obtain ⟨bare, waiting, rfl⟩ := List.mem_map.mp member
      rw [stamp_payload]
      exact reached.queued bare waiting
    · exact fun segment member => sized.queued segment (left.subset member)

theorem Sized.run (sized : c.Sized limit bound) (sound : c.Sound) {ops : List Op}
    (opens : ∀ heard, .receive heard ∈ ops → reach limit heard.window ≤ bound) :
    (c.run ops).Sized limit bound := by
  induction ops generalizing c with
  | nil => exact sized
  | cons op rest ih =>
    refine ih (sized.step sound ?_) (sound.step op) ?_
    · rintro heard rfl
      exact opens heard List.mem_cons_self
    · exact fun heard member => opens heard (List.mem_cons_of_mem _ member)

/-- A long payload needs three things: a limit and a storage that it fits into, and a peer that has
    advertised a window for it. -/
theorem exists_window_of_queued {config : Config} {inbound outbound : Array UInt8} {ops : List Op}
    {segment : Segment} (queued : segment ∈ ((ofStorage config inbound outbound).run ops).queue)
    (some_fits : 0 < bound) (long : bound < segment.payload.length) :
    bound < config.maxPayload ∧ bound < outbound.size ∧
      ∃ heard, .receive heard ∈ ops ∧ bound < heard.window.toNat := by
  let limit := min config.maxPayload outbound.size
  have sound := ofStorage_sound config inbound outbound
  have begins : (ofStorage config inbound outbound).Sized limit bound :=
    ofStorage_sized config inbound outbound (Nat.le_refl _) some_fits
  have wide : ∃ heard, .receive heard ∈ ops ∧ bound < reach limit heard.window := by
    by_contra narrow
    have within : ((ofStorage config inbound outbound).run ops).Sized limit bound :=
      begins.run sound fun heard member =>
        Nat.le_of_not_lt fun wide => narrow ⟨heard, member, wide⟩
    exact absurd long (Nat.not_lt_of_le (within.queued segment queued))
  obtain ⟨heard, member, wide⟩ := wide
  unfold reach limit at wide
  exact ⟨by omega, by omega, heard, member, by omega⟩

end Connection

end Tcp

end NetStack
