import NetStack.Proofs.Tcp.Halves

namespace NetStack.Tcp

/-- A reset is not looked at, whatever it acknowledges. -/
def Segment.acknowledges (segment : Segment) : Bool := segment.flags.ack && !segment.flags.rst

namespace Sender

variable {s : Sender}

theorem rightEdge_eq {s after : Sender} (acked : after.acked = s.acked)
    (window : after.window = s.window) : after.rightEdge = s.rightEdge := by
  rw [rightEdge, rightEdge, acked, window]

/-- The SYN fits any window, and everything else is cut to the room there is. -/
theorem Emits.next_le {after : Sender} (emits : Emits s after) : after.next ≤ s.rightEdge := by
  cases emits with
  | syn unopened =>
    show s.next + 1 ≤ s.rightEdge
    unfold rightEdge
    omega
  | @chunk count fin _ _ room _ count_eq fin_eq =>
    have short : (s.stream.peek count).length ≤ s.rightEdge - s.next := by
      rw [ByteStream.peek_eq, List.length_take]
      omega
    show s.next + ((s.stream.peek count).length + 0 + fin.toNat) ≤ s.rightEdge
    cases fin with
    | false =>
      rw [Bool.toNat_false]
      omega
    | true =>
      have spare := (Bool.and_eq_true _ _).mp fin_eq.symm
      have spare := of_decide_eq_true spare.2
      rw [Bool.toNat_true]
      omega
  | fin _ _ room =>
    show s.next + 1 ≤ s.rightEdge
    omega

theorem transmit_next_le (s : Sender) : s.transmit.next ≤ max s.next s.rightEdge := by
  have bounded : s.transmit.rightEdge = s.rightEdge ∧
      s.transmit.next ≤ max s.next s.rightEdge := by
    apply transmit_induction
      (P := fun after => after.rightEdge = s.rightEdge ∧ after.next ≤ max s.next s.rightEdge)
    · exact ⟨rfl, Nat.le_max_left _ _⟩
    · intro before after emits soFar
      have reached := emits.next_le
      rw [soFar.1] at reached
      have edge := rightEdge_eq emits.keeps.1 emits.keeps.2.1
      exact ⟨edge.trans soFar.1, Nat.le_trans reached (Nat.le_max_right _ _)⟩
  exact bounded.2

theorem acknowledge_next_le (s : Sender) (ackno : SeqNo) (window : UInt16) :
    (s.acknowledge ackno window).next ≤ max s.next (s.acknowledge ackno window).rightEdge := by
  obtain ⟨_, same⟩ | ⟨_, _, told⟩ | ⟨_, _, retired⟩ := s.acknowledge_cases ackno window rfl
  · rw [same]
    exact Nat.le_max_left _ _
  · rw [told]
    exact Nat.le_max_left _ _
  · rw [retired]
    have kept := transmit_keeps (s.retire (ackno.positionNear s.isn s.acked) window)
    rw [rightEdge_eq kept.1 kept.2.1]
    exact transmit_next_le _

def Quiet (ops : List Op) : Prop := ∀ ackno window, .acknowledge ackno window ∉ ops

theorem quiet_run {ops : List Op} (quiet : Quiet ops) :
    (s.run ops).acked = s.acked ∧ (s.run ops).window = s.window ∧
      (s.run ops).next ≤ max s.next s.rightEdge := by
  induction ops generalizing s with
  | nil => exact ⟨rfl, rfl, Nat.le_max_left _ _⟩
  | cons op rest ih =>
    have still : (s.step op).2.acked = s.acked ∧ (s.step op).2.window = s.window ∧
        (s.step op).2.next ≤ max s.next s.rightEdge := by
      cases op with
      | transmit =>
        exact ⟨s.transmit_keeps.1, s.transmit_keeps.2.1, s.transmit_next_le⟩
      | acknowledge ackno window => exact absurd List.mem_cons_self (quiet ackno window)
      | tick span =>
        obtain ⟨again, timer, _, ticked⟩ := s.tick_eq span
        rw [show (s.step (.tick span)).2 = s.tick span from rfl, ticked]
        exact ⟨rfl, rfl, Nat.le_max_left _ _⟩
      | sendEmpty | sendReset | input => exact ⟨rfl, rfl, Nat.le_max_left _ _⟩
    obtain ⟨acked, window, next⟩ := ih (s := (s.step op).2)
      fun ackno window member => quiet ackno window (List.mem_cons_of_mem _ member)
    rw [rightEdge_eq still.1 still.2.1] at next
    exact ⟨acked.trans still.1, window.trans still.2.1,
      Nat.le_trans next (Nat.max_le.mpr ⟨still.2.2, Nat.le_max_right _ _⟩)⟩

def Holds (isn : SeqNo) (stop : Nat) (segment : Segment) (position : Nat) : Prop :=
  segment.flags.syn = false ∧ ∃ start < stop, segment.seqno = .ofPosition start isn ∧
    start ≤ position ∧ position < start + segment.payload.length

structure Speaks (before after : Sender) : Prop where
  isn : after.isn = before.isn
  next : before.next ≤ after.next
  queue : before.queue ⊆ after.queue
  bytes : ∀ position, before.stream.totalRead < position → position ≤ after.stream.totalRead →
    ∃ segment ∈ after.queue, Holds before.isn after.next segment position

theorem Speaks.ofKept {before after : Sender} (isn : after.isn = before.isn)
    (next : before.next ≤ after.next) (queue : before.queue ⊆ after.queue)
    (read : after.stream.totalRead = before.stream.totalRead) : before.Speaks after where
  isn := isn
  next := next
  queue := queue
  bytes := by
    intro position beyond within
    omega

theorem Speaks.trans {before between after : Sender} (first : before.Speaks between)
    (second : between.Speaks after) : before.Speaks after where
  isn := second.isn.trans first.isn
  next := Nat.le_trans first.next second.next
  queue := List.Subset.trans first.queue second.queue
  bytes := by
    intro position beyond within
    by_cases early : position ≤ between.stream.totalRead
    · obtain ⟨segment, queued, noSyn, start, before_stop, place⟩ := first.bytes position beyond early
      exact ⟨segment, second.queue queued, noSyn, start,
        Nat.lt_of_lt_of_le before_stop second.next, place⟩
    · rw [← first.isn]
      exact second.bytes position (by omega) within

theorem Emits.speaks {after : Sender} (emits : Emits s after) (placed : s.Placed) :
    s.Speaks after := by
  cases emits with
  | syn | fin =>
    exact .ofKept rfl (Nat.le_add_right _ _) (List.subset_append_left _ _) rfl
  | @chunk count fin _ opened _ more =>
    refine ⟨rfl, Nat.le_add_right _ _, List.subset_append_left _ _, ?_⟩
    intro position beyond within
    have next := placed.next_eq opened more
    have read : (s.stream.pop count).totalRead =
        s.stream.totalRead + (s.stream.peek count).length := by
      rw [ByteStream.totalRead_pop, ByteStream.peek_eq]
    have within : position ≤ (s.stream.pop count).totalRead := within
    refine ⟨s.fresh { fin } (s.stream.peek count), List.mem_append_right _ List.mem_cons_self, rfl,
      s.next, ?_, rfl, by omega, ?_⟩
    · show s.next < s.next + ((s.stream.peek count).length + 0 + fin.toNat)
      omega
    · show position < s.next + (s.stream.peek count).length
      omega

variable {accepted : Bytes}

theorem Faithful.transmit_speaks (faithful : s.Faithful accepted) : s.Speaks s.transmit := by
  have both : s.transmit.Faithful accepted ∧ s.Speaks s.transmit := by
    apply transmit_induction (P := fun after => after.Faithful accepted ∧ s.Speaks after)
    · exact ⟨faithful, .ofKept rfl (Nat.le_refl _) (List.Subset.refl _) rfl⟩
    · intro before after emits soFar
      exact ⟨(emits.faithful soFar.1).1, soFar.2.trans (emits.speaks soFar.1.placed)⟩
  exact both.2

theorem Faithful.acknowledge_speaks (faithful : s.Faithful accepted) (ackno : SeqNo)
    (window : UInt16) : s.Speaks (s.acknowledge ackno window) := by
  have kept (after : Sender) (isn : after.isn = s.isn) (next : after.next = s.next)
      (queue : after.queue = s.queue) (stream : after.stream = s.stream) : s.Speaks after :=
    .ofKept isn (Nat.le_of_eq next.symm) (by rw [queue]; exact List.Subset.refl _)
      (by rw [stream])
  obtain ⟨_, same⟩ | ⟨_, _, told⟩ | ⟨_, _, retired⟩ := s.acknowledge_cases ackno window rfl
  · rw [same]
    exact kept s rfl rfl rfl rfl
  · rw [told]
    exact kept _ rfl rfl rfl rfl
  · rw [retired]
    have retiring := kept (s.retire (ackno.positionNear s.isn s.acked) window) rfl rfl rfl rfl
    exact retiring.trans (faithful.retire _ window).transmit_speaks

theorem Faithful.step_speaks (faithful : s.Faithful accepted) {op : Op} (leaves : op.LeavesBytes)
    (noReset : op ≠ .sendReset) : s.Speaks (s.step op).2 := by
  cases op with
  | transmit => exact faithful.transmit_speaks
  | acknowledge ackno window => exact faithful.acknowledge_speaks ackno window
  | tick span =>
    obtain ⟨again, timer, _, ticked⟩ := s.tick_eq span
    rw [show (s.step (.tick span)).2 = s.tick span from rfl, ticked]
    exact .ofKept rfl (Nat.le_refl _) (List.subset_append_left _ _) rfl
  | sendEmpty => exact .ofKept rfl (Nat.le_refl _) (List.subset_append_left _ _) rfl
  | sendReset => exact absurd rfl noReset
  | input op =>
    cases op with
    | write data =>
      exact .ofKept rfl (Nat.le_refl _) (List.Subset.refl _) (s.stream.totalRead_write data)
    | read | readInto | pop => exact leaves.elim
    | peek | peekInto | endInput | fail =>
      exact .ofKept rfl (Nat.le_refl _) (List.Subset.refl _) rfl

theorem Faithful.run_speaks (faithful : s.Faithful accepted) {ops : List Op}
    (leave : ∀ op ∈ ops, op.LeavesBytes) (noReset : .sendReset ∉ ops) : s.Speaks (s.run ops) := by
  induction ops generalizing s accepted with
  | nil => exact .ofKept rfl (Nat.le_refl _) (List.Subset.refl _) rfl
  | cons op rest ih =>
    obtain ⟨first, others⟩ := List.forall_mem_cons.mp leave
    have current := faithful.step_speaks first (List.ne_of_not_mem_cons noReset).symm
    exact current.trans
      (ih (faithful.step first).1 others (List.not_mem_of_not_mem_cons noReset))

end Sender

namespace Connection

variable {c : Connection} {op : Op} {reply : Reply} {asked : List Sender.Op}
  {fed : List Receiver.Op}

theorem Carries.speaks (carries : c.Carries op reply asked fed) {accepted : Bytes}
    (faithful : c.sender.Faithful accepted) {position : Nat}
    (beyond : c.sender.stream.totalRead < position)
    (within : position ≤ (c.sender.run asked).stream.totalRead) :
    ∃ segment ∈ (c.sender.run asked).queue,
      Sender.Holds c.sender.isn (c.sender.run asked).next segment position := by
  have warrants := carries.warrants
  have plain (noReset : .sendReset ∉ asked) := (faithful.run_speaks
    (fun request member => (warrants request member).leaves) noReset).bytes position beyond within
  cases carries with
  | @giveUp span =>
    obtain ⟨again, timer, _, ticked⟩ := c.sender.tick_eq span
    have within : position ≤ (c.sender.tick span).stream.totalRead := within
    rw [ticked] at within
    exact absurd within (Nat.not_le_of_lt beyond)
  | abort => exact absurd within (Nat.not_le_of_lt beyond)
  | ignored | deaf | connect | reset | tick | read => exact plain (by simp)
  | write | finish | receive =>
    apply plain
    intro member
    rcases warrants _ member with aborts | ⟨span, ticks⟩
    · cases aborts
    · cases ticks

theorem Carries.totalRead_of_inactive (carries : c.Carries op reply asked fed)
    (inactive : c.active = false) :
    (c.sender.run asked).stream.totalRead = c.sender.stream.totalRead := by
  cases carries with
  | ignored | deaf | read => rfl
  | finish =>
    rw [inactive, Bool.false_and]
    rfl
  | connect active | write active | receive active | reset active | tick active | giveUp active
    | abort active => simp [inactive] at active

/-- What the sending half is told in an operation, if nothing is acknowledged before the SYN was
    sent: no more than the acknowledgement that the connection received, and that comes first. -/
theorem Carries.hearing (carries : c.Carries op reply asked fed) (active : c.active = true)
    (opened : ∀ segment, op = .receive segment → segment.flags.ack = true → c.isUnopened = false) :
    (Sender.Quiet asked ∧ ∀ segment, op = .receive segment → segment.acknowledges = false) ∨
    ∃ segment rest, op = .receive segment ∧ segment.acknowledges = true ∧
      asked = .acknowledge segment.ackno segment.window :: rest ∧ Sender.Quiet rest := by
  by_cases hears : ∃ segment, op = .receive segment ∧ segment.acknowledges = true
  · right
    obtain ⟨segment, rfl, hears⟩ := hears
    obtain ⟨ack, plain⟩ := (Bool.and_eq_true _ _).mp hears
    have opened := opened segment rfl ack
    cases carries with
    | ignored _ _ noSegment => exact absurd rfl (noSegment segment)
    | deaf waits => simp [active, isListening, opened] at waits
    | reset _ rst => simp [rst] at plain
    | @receive _ closing _ _ bare =>
      refine ⟨segment, .transmit :: closing, rfl, hears, ?_, ?_⟩
      · simp [answerOps, openingOps, ack, opened]
      · intro ackno window member
        rcases List.mem_cons.mp member with same | closes
        · cases same
        · cases bare _ closes
  · left
    constructor
    · intro ackno window member
      obtain ⟨segment, received, plain, ack, _⟩ := carries.warrants _ member
      exact hears ⟨segment, received, by simp [Segment.acknowledges, plain, ack]⟩
    · intro segment received
      exact eq_false_of_ne_true fun acknowledges => hears ⟨segment, received, acknowledges⟩

theorem Carries.next_le (carries : c.Carries op reply asked fed) (active : c.active = true)
    (opened : ∀ segment, op = .receive segment → segment.flags.ack = true → c.isUnopened = false) :
    (c.sender.run asked).next ≤ max c.sender.next (c.sender.run asked).rightEdge := by
  rcases carries.hearing active opened with ⟨quiet, _⟩ | ⟨segment, rest, _, _, rfl, quiet⟩
  · obtain ⟨acked, window, next⟩ := Sender.quiet_run (s := c.sender) quiet
    rw [Sender.rightEdge_eq acked window]
    exact next
  · obtain ⟨acked, window, next⟩ := Sender.quiet_run
      (s := c.sender.acknowledge segment.ackno segment.window) quiet
    have first := c.sender.acknowledge_next_le segment.ackno segment.window
    show ((c.sender.acknowledge segment.ackno segment.window).run rest).next ≤
      max c.sender.next ((c.sender.acknowledge segment.ackno segment.window).run rest).rightEdge
    rw [Sender.rightEdge_eq acked window]
    omega

theorem active_of_step (active : (c.step op).2.active = true) : c.active = true := by
  by_contra inactive
  have inactive : c.active = false := eq_false_of_ne_true inactive
  have still : (c.step op).2.active = false := by
    cases op with
    | connect => simp [step_connect, inactive]
    | write data => simp [step_write, inactive]
    | finish => simp [step, Connection.finish, inactive]
    | receive segment => simp [step, Connection.receive, inactive]
    | tick span => simp [step, Connection.tick, inactive]
    | abort => simp [step, Connection.abort, inactive]
    | read | dispatch | wait => exact inactive
  simp [still] at active

theorem active_of_run {ops : List Op} (active : (c.run ops).active = true) : c.active = true := by
  induction ops generalizing c with
  | nil => exact active
  | cons op rest ih => exact active_of_step (ih active)

end Connection

end NetStack.Tcp
