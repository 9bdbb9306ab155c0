import NetStack.Proofs.Tcp.Accounting

namespace NetStack.Tcp

namespace Sent

def Numbered (isn : SeqNo) (segments : List Sent) : Prop :=
  ∀ sent ∈ segments, sent.segment.seqno = .ofPosition sent.start isn

theorem Contiguous.start_eq {start stop : Nat} {segments : List Sent}
    (contiguous : Contiguous start segments stop) : ∀ oldest ∈ segments.head?, oldest.start = start := by
  intro oldest head
  cases segments with
  | nil => cases head
  | cons sent rest =>
    cases head
    exact contiguous.1

end Sent

namespace Sender

variable {s : Sender}

theorem Emits.numbered {after : Sender} (emits : Emits s after)
    (numbered : Sent.Numbered s.isn s.outstanding) : Sent.Numbered after.isn after.outstanding := by
  have sends (flags : Flags) (payload : Bytes) :
      Sent.Numbered s.isn (s.outstanding ++ [⟨s.next, s.fresh flags payload⟩]) := by
    intro sent member
    rcases List.mem_append.mp member with earlier | new
    · exact numbered sent earlier
    · rw [List.mem_singleton.mp new]
      rfl
  cases emits with
  | syn | fin => exact sends _ _
  | chunk => exact sends _ _

theorem numbered_transmit (numbered : Sent.Numbered s.isn s.outstanding) :
    Sent.Numbered s.transmit.isn s.transmit.outstanding := by
  apply transmit_induction (P := fun after => Sent.Numbered after.isn after.outstanding)
  · exact numbered
  · exact fun _ _ emits before => emits.numbered before

theorem numbered_step (numbered : Sent.Numbered s.isn s.outstanding) (op : Op) :
    Sent.Numbered (s.step op).2.isn (s.step op).2.outstanding := by
  cases op with
  | transmit => exact numbered_transmit numbered
  | acknowledge ackno window =>
    show Sent.Numbered (s.acknowledge ackno window).isn (s.acknowledge ackno window).outstanding
    rcases s.acknowledge_cases ackno window rfl with ⟨_, same⟩ | ⟨_, _, told⟩ | ⟨_, _, retired⟩
    · rw [same]
      exact numbered
    · rw [told]
      exact numbered
    · rw [retired]
      apply numbered_transmit
      intro sent member
      apply numbered sent
      rw [retire_outstanding] at member
      exact (List.dropWhile_sublist _).subset member
  | tick span =>
    rcases s.tick_eq span with ⟨again, timer, _, ticked⟩
    show Sent.Numbered (s.tick span).isn (s.tick span).outstanding
    rw [ticked]
    exact numbered
  | sendEmpty | sendReset | input => exact numbered

theorem numbered_run (numbered : Sent.Numbered s.isn s.outstanding) (ops : List Op) :
    Sent.Numbered (s.run ops).isn (s.run ops).outstanding := by
  induction ops generalizing s with
  | nil => exact numbered
  | cons op rest ih => exact ih (numbered_step numbered op)

theorem acked_le_of_isPrefix {passed ops : List Op} (front : passed <+: ops) :
    (s.run passed).acked ≤ (s.run ops).acked := by
  rcases front with ⟨rest, rfl⟩
  unfold run
  rw [List.foldl_append]
  exact ((s.run passed).run_advances rest).acked

theorem Accounted.oldest (accounted : s.Accounted) :
    ∀ oldest ∈ s.outstanding.head?, oldest.start ≤ s.acked ∧ s.acked < oldest.stop := by
  intro oldest head
  rcases accounted.contiguous with ⟨first, reached, contiguous⟩
  rw [contiguous.start_eq oldest head]
  exact ⟨reached, accounted.unfinished oldest head⟩

/-- The states within an operation: segments leave one at a time, from the state in which the
    operation began or from the one that an acknowledgement made of it. -/
inductive Passes (s : Sender) : Sender → Prop
  | sending {during : Sender} (emissions : Relation.ReflTransGen Emits s during) : Passes s during
  | retiring {position : Nat} {window : UInt16} {during : Sender} (news : s.acked < position)
      (sent : position ≤ s.next)
      (emissions : Relation.ReflTransGen Emits (s.retire position window) during) : Passes s during

theorem Accounted.emissions (accounted : s.Accounted) {during : Sender}
    (emissions : Relation.ReflTransGen Emits s during) : during.Accounted := by
  induction emissions with
  | refl => exact accounted
  | tail _ last soFar => exact last.accounted soFar

theorem Accounted.passes (accounted : s.Accounted) {during : Sender} (passes : s.Passes during) :
    during.Accounted := by
  cases passes with
  | sending emissions => exact accounted.emissions emissions
  | retiring news sent emissions => exact (accounted.retire _ news sent).emissions emissions

/-- Whatever is acknowledged: what is outstanding ends at the next position and begins around the
    first one that is not acknowledged, the count in flight is its length, an acknowledgement of
    what was never sent changes nothing and an old one the window only. Therefore what was
    acknowledged is never beyond what was sent, not even while segments leave, and whatever is taken
    off the front was counted. -/
theorem inFlight_accounts (storage : Array UInt8) (isn : SeqNo) (timeout : Duration)
    (maxPayload : Nat) (ops : List Op) :
    let start := ofStream (.ofStorage storage) isn timeout maxPayload
    let last := start.run ops
    (∃ first, Sent.Contiguous first last.outstanding last.next) ∧
    Sent.Numbered isn last.outstanding ∧
    last.inFlight = Sent.totalSpace last.outstanding ∧
    (∀ oldest ∈ last.outstanding.head?, oldest.start ≤ last.acked ∧ last.acked < oldest.stop) ∧
    (last.outstanding = [] → last.acked = last.next) ∧
    (∀ passed, passed <+: ops → (start.run passed).acked ≤ last.acked) ∧
    last.acked ≤ last.next ∧
    (∀ ackno window, last.next < ackno.positionNear isn last.acked →
      last.acknowledge ackno window = last) ∧
    (∀ ackno window, ackno.positionNear isn last.acked ≤ last.acked →
      last.acknowledge ackno window = { last with window }) ∧
    (∀ during, last.Passes during → during.acked ≤ during.next) ∧
    ∀ retired kept, last.outstanding = retired ++ kept →
      Sent.totalSpace retired ≤ last.inFlight ∧
        last.inFlight - Sent.totalSpace retired = Sent.totalSpace kept := by
  intro start last
  have accounted : last.Accounted := (ofStream_accounted _ isn timeout maxPayload).run ops
  have isn_eq : last.isn = isn := (start.run_advances ops).isn
  have numbered : Sent.Numbered last.isn last.outstanding :=
    numbered_run (s := start) (by simp [start, Sent.Numbered, ofStream]) ops
  rcases accounted.contiguous with ⟨first, _, contiguous⟩
  rw [isn_eq] at numbered
  refine ⟨⟨first, contiguous⟩, numbered, accounted.inFlight, accounted.oldest, ?_,
    fun passed front => acked_le_of_isPrefix front, accounted.acked_le, ?_, ?_,
    fun during passes => (accounted.passes passes).acked_le, ?_⟩
  · intro nothing
    apply accounted.acked_eq_next
    rw [accounted.inFlight, nothing]
    rfl
  · intro ackno window unsent
    rcases last.acknowledge_cases ackno window rfl with ⟨_, same⟩ | ⟨sent, _⟩ | ⟨sent, _⟩
    · exact same
    · rw [isn_eq] at sent
      omega
    · rw [isn_eq] at sent
      omega
  · intro ackno window stale
    have bound := accounted.acked_le
    rcases last.acknowledge_cases ackno window rfl with ⟨unsent, _⟩ | ⟨_, _, told⟩ | ⟨_, news, _⟩
    · rw [isn_eq] at unsent
      omega
    · exact told
    · rw [isn_eq] at news
      omega
  · intro retired kept split
    have total := accounted.inFlight
    rw [split, Sent.totalSpace_append] at total
    omega

/-- An acknowledgement reaches into the first of two segments, and one from before it arrives
    again. -/
def reachingInto : List Op :=
  [.transmit, .acknowledge ⟨0⟩ 8, .input (.write [1, 2, 3, 4]), .transmit, .acknowledge ⟨1⟩ 8,
    .acknowledge ⟨0⟩ 3]

theorem inFlight_accounts_reachingInto :
    let last := (ofStream (.ofStorage (Array.replicate 4 0)) ⟨0xffffffff⟩ (.ofMillis 1000) 2).run
      reachingInto
    last.acked = 2 ∧ last.next = 5 ∧
      (∀ oldest ∈ last.outstanding.head?, oldest.start ≤ 2 ∧ 2 < oldest.stop) ∧
      last.acknowledge ⟨5⟩ 8 = last ∧ last.acknowledge ⟨0⟩ 8 = { last with window := 8 } := by
  intro last
  have acked : last.acked = 2 := by decide +kernel
  have next : last.next = 5 := by decide +kernel
  rcases inFlight_accounts (Array.replicate 4 0) ⟨0xffffffff⟩ (.ofMillis 1000) 2 reachingInto with
    ⟨_, _, _, oldest, _, _, _, unsent, stale, _⟩
  rw [show (ofStream (.ofStorage (Array.replicate 4 0)) ⟨0xffffffff⟩ (.ofMillis 1000) 2).run
    reachingInto = last from rfl, acked] at oldest
  exact ⟨acked, next, oldest, unsent ⟨5⟩ 8 (by decide +kernel), stale ⟨0⟩ 8 (by decide +kernel)⟩

end Sender

end NetStack.Tcp
