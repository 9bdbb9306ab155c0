import Mathlib.Data.List.TakeWhile
import NetStack.Proofs.Tcp.Numbering
import NetStack.Proofs.Tcp.Transmission

namespace NetStack.Tcp

namespace Sent

/-- The segments follow each other without a gap or an overlap from one position to another. -/
def Contiguous : Nat → List Sent → Nat → Prop
  | start, [], stop => start = stop
  | start, sent :: rest, stop => sent.start = start ∧ Contiguous sent.stop rest stop

theorem contiguous_append (start : Nat) (left right : List Sent) (stop : Nat) :
    Contiguous start (left ++ right) stop ↔
      ∃ middle, Contiguous start left middle ∧ Contiguous middle right stop := by
  induction left generalizing start with
  | nil => simp [Contiguous]
  | cons sent rest ih => simp [Contiguous, ih, and_assoc]

theorem totalSpace_append (left right : List Sent) :
    totalSpace (left ++ right) = totalSpace left + totalSpace right := by
  induction left with
  | nil => simp [totalSpace]
  | cons sent rest ih =>
    simp only [totalSpace, List.cons_append, List.foldr_cons] at ih ⊢
    omega

theorem Contiguous.stop_eq {start stop : Nat} {segments : List Sent}
    (contiguous : Contiguous start segments stop) : stop = start + totalSpace segments := by
  induction segments generalizing start with
  | nil => exact contiguous.symm
  | cons sent rest ih =>
    obtain ⟨rfl, following⟩ := contiguous
    have := ih following
    simp only [totalSpace, List.foldr_cons, Sent.stop] at this ⊢
    omega

theorem Contiguous.stop_le {start stop position : Nat} {segments : List Sent}
    (contiguous : Contiguous start segments stop) (from_below : start ≤ position)
    (below : ∀ sent ∈ segments, sent.stop ≤ position) : stop ≤ position := by
  induction segments generalizing start with
  | nil =>
    have none_between : start = stop := contiguous
    omega
  | cons sent rest ih =>
    obtain ⟨_, following⟩ := contiguous
    apply ih following
    · exact below sent List.mem_cons_self
    · intro other member
      exact below other (List.mem_cons_of_mem _ member)

end Sent

namespace Sender

structure Accounted (s : Sender) : Prop where
  contiguous : ∃ first ≤ s.acked, Sent.Contiguous first s.outstanding s.next
  unfinished : ∀ oldest ∈ s.outstanding.head?, s.acked < oldest.stop
  inFlight : s.inFlight = Sent.totalSpace s.outstanding
  acked_le : s.acked ≤ s.next

theorem ofStream_accounted (stream : ByteStream) (isn : SeqNo) (timeout : Duration)
    (maxPayload : Nat) : (ofStream stream isn timeout maxPayload).Accounted where
  contiguous := ⟨0, Nat.le_refl 0, rfl⟩
  unfinished := by simp [ofStream]
  inFlight := rfl
  acked_le := Nat.le_refl 0

variable {s : Sender}

theorem Accounted.congr {after : Sender} (accounted : s.Accounted) (acked : after.acked = s.acked)
    (next : after.next = s.next) (inFlight : after.inFlight = s.inFlight)
    (outstanding : after.outstanding = s.outstanding) : after.Accounted where
  contiguous := by
    rw [acked, next, outstanding]
    exact accounted.contiguous
  unfinished := by
    rw [acked, outstanding]
    exact accounted.unfinished
  inFlight := by
    rw [inFlight, outstanding]
    exact accounted.inFlight
  acked_le := by
    rw [acked, next]
    exact accounted.acked_le

theorem Accounted.acked_eq_next (accounted : s.Accounted) (landed : s.inFlight = 0) :
    s.acked = s.next := by
  obtain ⟨first, reached, contiguous⟩ := accounted.contiguous
  have stop := contiguous.stop_eq
  have total := accounted.inFlight
  have bound := accounted.acked_le
  omega

theorem Accounted.send (accounted : s.Accounted) (stream : ByteStream) {flags : Flags}
    {payload : Bytes} (occupies : 0 < (s.fresh flags payload).space) :
    (send { s with stream } flags payload).Accounted := by
  obtain ⟨first, reached, contiguous⟩ := accounted.contiguous
  constructor
  · refine ⟨first, reached, ?_⟩
    rw [send_outstanding, Sent.contiguous_append]
    exact ⟨s.next, contiguous, rfl, rfl⟩
  · intro oldest head
    rw [send_outstanding] at head
    cases outstanding : s.outstanding with
    | nil =>
      have landed : s.acked = s.next :=
        accounted.acked_eq_next (by rw [accounted.inFlight, outstanding]; rfl)
      simp only [outstanding, List.nil_append, List.head?_cons, Option.mem_def,
        Option.some.injEq] at head
      subst head
      show s.acked < s.next + (s.fresh flags payload).space
      omega
    | cons sent rest =>
      apply accounted.unfinished
      simpa [outstanding] using head
  · rw [send_outstanding, Sent.totalSpace_append]
    show s.inFlight + (s.fresh flags payload).space = _
    rw [accounted.inFlight]
    rfl
  · have bound := accounted.acked_le
    simp only [send_acked, send_next]
    omega

theorem Emits.accounted {after : Sender} (emits : Emits s after) (accounted : s.Accounted) :
    after.Accounted := by
  cases emits with
  | syn => exact accounted.send s.stream Nat.one_pos
  | chunk _ _ _ _ _ _ something =>
    apply accounted.send
    rcases something with bytes | rfl
    · have := List.length_pos_iff.mpr bytes
      simp only [fresh, Segment.space]
      omega
    · simp [fresh, Segment.space]
  | fin => exact accounted.send s.stream Nat.one_pos

theorem Accounted.transmit (accounted : s.Accounted) : s.transmit.Accounted :=
  transmit_induction accounted fun _ _ emits => emits.accounted

theorem Accounted.retire (accounted : s.Accounted) {position : Nat} (window : UInt16)
    (news : s.acked < position) (sent : position ≤ s.next) :
    (s.retire position window).Accounted := by
  obtain ⟨first, reached, contiguous⟩ := accounted.contiguous
  have split := List.takeWhile_append_dropWhile
    (p := fun sent : Sent => decide (sent.stop ≤ position)) (l := s.outstanding)
  have total := accounted.inFlight
  rw [← split] at contiguous total
  obtain ⟨middle, retired, kept⟩ := (Sent.contiguous_append _ _ _ _).mp contiguous
  rw [Sent.totalSpace_append] at total
  constructor
  · simp only [retire_acked, retire_outstanding, retire_next]
    refine ⟨middle, ?_, kept⟩
    apply retired.stop_le (by omega)
    intro sent member
    simpa using List.mem_takeWhile_imp member
  · intro oldest head
    simp only [retire_outstanding, retire_acked] at head ⊢
    have stays := List.head?_dropWhile_not (fun sent : Sent => decide (sent.stop ≤ position))
      s.outstanding
    rw [Option.mem_def.mp head] at stays
    simpa using stays
  · simp only [retire_inFlight, retire_outstanding]
    omega
  · exact sent

theorem Accounted.acknowledge (accounted : s.Accounted) (ackno : SeqNo) (window : UInt16) :
    (s.acknowledge ackno window).Accounted := by
  obtain ⟨_, same⟩ | ⟨_, _, told⟩ | ⟨sent, news, retired⟩ := s.acknowledge_cases ackno window rfl
  · rw [same]
    exact accounted
  · rw [told]
    exact accounted.congr rfl rfl rfl rfl
  · rw [retired]
    exact (accounted.retire window news sent).transmit

theorem Accounted.tick (accounted : s.Accounted) (span : Duration) : (s.tick span).Accounted := by
  obtain ⟨again, timer, _, ticked⟩ := s.tick_eq span
  rw [ticked]
  exact accounted.congr rfl rfl rfl rfl

theorem Accounted.step (accounted : s.Accounted) (op : Op) : (s.step op).2.Accounted := by
  cases op with
  | transmit => exact accounted.transmit
  | acknowledge ackno window => exact accounted.acknowledge ackno window
  | tick span => exact accounted.tick span
  | sendEmpty | sendReset | input =>
    exact accounted.congr rfl rfl rfl rfl

theorem Accounted.run (accounted : s.Accounted) (ops : List Op) : (s.run ops).Accounted := by
  induction ops generalizing s with
  | nil => exact accounted
  | cons op rest ih => exact ih (accounted.step op)

structure Advances (before after : Sender) : Prop where
  isn : after.isn = before.isn
  acked : before.acked ≤ after.acked
  next : before.next ≤ after.next
  kept : ∀ sent ∈ before.outstanding, sent ∈ after.outstanding ∨ sent.stop ≤ after.acked

theorem Advances.refl (s : Sender) : s.Advances s :=
  ⟨rfl, Nat.le_refl _, Nat.le_refl _, fun _ member => .inl member⟩

theorem Advances.trans {before between after : Sender} (first : before.Advances between)
    (second : between.Advances after) : before.Advances after where
  isn := second.isn.trans first.isn
  acked := Nat.le_trans first.acked second.acked
  next := Nat.le_trans first.next second.next
  kept := by
    intro sent member
    rcases first.kept sent member with still | left
    · exact second.kept sent still
    · exact .inr (Nat.le_trans left second.acked)

theorem send_advances (s : Sender) (stream : ByteStream) (flags : Flags) (payload : Bytes) :
    s.Advances (send { s with stream } flags payload) where
  isn := rfl
  acked := Nat.le_refl _
  next := Nat.le_add_right _ _
  kept := fun _ member => .inl (List.mem_append_left _ member)

theorem emissions_advance {after : Sender} (emissions : Relation.ReflTransGen Emits s after) :
    s.Advances after := by
  induction emissions with
  | refl => exact .refl s
  | tail _ last soFar =>
    cases last with
    | syn | fin => exact soFar.trans (send_advances _ _ _ _)
    | chunk => exact soFar.trans (send_advances _ _ _ _)

theorem transmit_advances (s : Sender) : s.Advances s.transmit :=
  emissions_advance s.transmit_emits

theorem transmit_next_pos (s : Sender) : 0 < s.transmit.next := by
  by_cases unopened : s.next = 0
  · have opened : 0 < (s.send { syn := true } []).next := Nat.succ_pos _
    unfold transmit
    simp only [unopened, if_true]
    split
    · exact opened
    · rename_i answered
      have later := emissions_advance (sendUpTo_emits
        ((s.send { syn := true } []).rightEdge - (s.send { syn := true } []).next) _ answered
        (Nat.ne_of_gt opened))
      exact Nat.lt_of_lt_of_le opened later.next
  · exact Nat.lt_of_lt_of_le (Nat.pos_of_ne_zero unopened) s.transmit_advances.next

theorem retire_advances {position : Nat} (window : UInt16) (news : s.acked < position) :
    s.Advances (s.retire position window) where
  isn := rfl
  acked := Nat.le_of_lt news
  next := Nat.le_refl _
  kept := by
    intro sent member
    rw [← List.takeWhile_append_dropWhile (p := fun sent : Sent => decide (sent.stop ≤ position))
      (l := s.outstanding), List.mem_append] at member
    rcases member with left | stays
    · exact .inr (by simpa using List.mem_takeWhile_imp left)
    · exact .inl (by simpa using stays)

theorem acknowledge_advances (s : Sender) (ackno : SeqNo) (window : UInt16) :
    s.Advances (s.acknowledge ackno window) := by
  obtain ⟨_, same⟩ | ⟨_, _, told⟩ | ⟨_, news, retired⟩ := s.acknowledge_cases ackno window rfl
  · rw [same]
    exact .refl s
  · rw [told]
    exact ⟨rfl, Nat.le_refl _, Nat.le_refl _, fun _ member => .inl member⟩
  · rw [retired]
    exact (retire_advances window news).trans (transmit_advances _)

theorem acknowledge_next_eq_zero (s : Sender) (ackno : SeqNo) (window : UInt16) :
    (s.acknowledge ackno window).next = 0 ↔ s.next = 0 := by
  obtain ⟨_, same⟩ | ⟨_, _, told⟩ | ⟨sent, news, retired⟩ := s.acknowledge_cases ackno window rfl
  · rw [same]
  · rw [told]
  · have advanced := s.acknowledge_advances ackno window
    constructor
    · intro zero
      have := advanced.next
      omega
    · intro zero
      omega

theorem tick_advances (s : Sender) (span : Duration) : s.Advances (s.tick span) := by
  obtain ⟨again, timer, _, ticked⟩ := s.tick_eq span
  rw [ticked]
  exact ⟨rfl, Nat.le_refl _, Nat.le_refl _, fun _ member => .inl member⟩

theorem step_advances (s : Sender) (op : Op) : s.Advances (s.step op).2 := by
  cases op with
  | transmit => exact s.transmit_advances
  | acknowledge ackno window => exact s.acknowledge_advances ackno window
  | tick span => exact s.tick_advances span
  | sendEmpty | sendReset | input =>
    exact ⟨rfl, Nat.le_refl _, Nat.le_refl _, fun _ member => .inl member⟩

theorem run_advances (s : Sender) (ops : List Op) : s.Advances (s.run ops) := by
  induction ops generalizing s with
  | nil => exact .refl s
  | cons op rest ih => exact (s.step_advances op).trans (ih _)

theorem acknowledge_heard {position : Nat} (window : UInt16) (sent : position ≤ s.next)
    (acked : s.acked < 0x80000000) (near : position < 0x80000000) :
    (s.acknowledge (.ofPosition position s.isn) window).acked = max s.acked position ∧
      (s.acknowledge (.ofPosition position s.isn) window).window = window := by
  obtain ⟨unsent, _⟩ | ⟨_, stale, told⟩ | ⟨_, news, retired⟩ :=
    s.acknowledge_cases (.ofPosition position s.isn) window
      (SeqNo.positionNear_of_small s.isn near acked)
  · omega
  · rw [told]
    exact ⟨(Nat.max_eq_left stale).symm, rfl⟩
  · obtain ⟨kept, told, _⟩ := (s.retire position window).transmit_keeps
    rw [retired, kept, told]
    exact ⟨(Nat.max_eq_right (Nat.le_of_lt news)).symm, rfl⟩

theorem acknowledge_acked_le {position : Nat} (window : UInt16) (acked : s.acked < 0x80000000)
    (near : position < 0x80000000) :
    (s.acknowledge (.ofPosition position s.isn) window).acked ≤ max s.acked position := by
  obtain ⟨_, same⟩ | ⟨_, _, told⟩ | ⟨_, _, retired⟩ :=
    s.acknowledge_cases (.ofPosition position s.isn) window
      (SeqNo.positionNear_of_small s.isn near acked)
  · rw [same]
    exact Nat.le_max_left _ _
  · rw [told]
    exact Nat.le_max_left _ _
  · rw [retired, (s.retire position window).transmit_keeps.1]
    exact Nat.le_max_right _ _

theorem acked_run_le {limit : Nat} (small : limit < 0x80000000) {ops : List Op}
    (start : s.acked ≤ limit)
    (honest : ∀ ackno window, .acknowledge ackno window ∈ ops →
      ∃ position ≤ limit, ackno = .ofPosition position s.isn) :
    (s.run ops).acked ≤ limit := by
  induction ops generalizing s with
  | nil => exact start
  | cons op rest ih =>
    have isn := (s.step_advances op).isn
    apply ih
    · cases op with
      | transmit =>
        show s.transmit.acked ≤ limit
        rw [s.transmit_keeps.1]
        exact start
      | acknowledge ackno window =>
        obtain ⟨position, reached, rfl⟩ := honest ackno window List.mem_cons_self
        have told : (s.acknowledge (.ofPosition position s.isn) window).acked ≤ _ :=
          acknowledge_acked_le window (by omega) (by omega)
        exact Nat.le_trans told (Nat.max_le.mpr ⟨start, reached⟩)
      | tick span =>
        obtain ⟨again, timer, _, ticked⟩ := s.tick_eq span
        show (s.tick span).acked ≤ limit
        rw [ticked]
        exact start
      | sendEmpty | sendReset | input => exact start
    · intro ackno window member
      rw [isn]
      exact honest ackno window (List.mem_cons_of_mem _ member)

end Sender

end NetStack.Tcp
