import Mathlib.Data.List.TakeDrop
import Mathlib.Logic.Relation
import NetStack.Proofs.Stream.Contents
import NetStack.Tcp.Sender

namespace NetStack.Tcp.Sender

section Send

variable (s : Sender) (flags : Flags) (payload : Bytes)

def fresh : Segment := { seqno := s.nextSeqno, flags, payload }

@[simp] theorem send_isn : (s.send flags payload).isn = s.isn := rfl

@[simp] theorem send_stream : (s.send flags payload).stream = s.stream := rfl

@[simp] theorem send_maxPayload : (s.send flags payload).maxPayload = s.maxPayload := rfl

@[simp] theorem send_acked : (s.send flags payload).acked = s.acked := rfl

@[simp] theorem send_window : (s.send flags payload).window = s.window := rfl

@[simp] theorem send_next :
    (s.send flags payload).next = s.next + (s.fresh flags payload).space := rfl

@[simp] theorem send_inFlight :
    (s.send flags payload).inFlight = s.inFlight + (s.fresh flags payload).space := rfl

@[simp] theorem send_outstanding :
    (s.send flags payload).outstanding =
      s.outstanding ++ [⟨s.next, s.fresh flags payload⟩] := rfl

@[simp] theorem send_queue :
    (s.send flags payload).queue = s.queue ++ [s.fresh flags payload] := rfl

end Send

/-- A sender puts one new segment on the way: the SYN before anything else, then, once that is
    acknowledged and as long as there is room up to the right edge, pieces of the stream and the
    FIN. -/
inductive Emits (s : Sender) : Sender → Prop
  | syn (unopened : s.next = 0) : Emits s (s.send { syn := true } [])
  | chunk {count : Nat} {fin : Bool} (answered : s.acked ≠ 0) (opened : s.next ≠ 0)
      (room : s.next < s.rightEdge) (more : s.stream.atEnd = false)
      (count_eq : count = min (s.rightEdge - s.next) s.maxPayload)
      (fin_eq : fin = ((s.stream.pop count).atEnd &&
        decide ((s.stream.peek count).length < s.rightEdge - s.next)))
      (something : s.stream.peek count ≠ [] ∨ fin = true) :
      Emits s (send { s with stream := s.stream.pop count } { fin } (s.stream.peek count))
  | fin (answered : s.acked ≠ 0) (opened : s.next ≠ 0) (room : s.next < s.rightEdge)
      (drained : s.stream.atEnd = true) (unsent : s.next < s.endPosition) :
      Emits s (s.send { fin := true } [])

theorem emits_of_sendChunk? {s sent : Sender} (answered : s.acked ≠ 0) (opened : s.next ≠ 0)
    (room : s.next < s.rightEdge) (more : s.stream.atEnd = false)
    (chunk : s.sendChunk? = some sent) : Emits s sent := by
  unfold sendChunk? ByteStream.read at chunk
  dsimp only at chunk
  split at chunk
  · cases chunk
  · rename_i something
    cases chunk
    refine .chunk answered opened room more rfl rfl ?_
    by_cases empty : s.stream.peek (min (s.rightEdge - s.next) s.maxPayload) = []
    · exact .inr (eq_true_of_ne_false fun off => something ⟨empty, off⟩)
    · exact .inl empty

theorem sendUpTo_emits (count : Nat) (s : Sender) (answered : s.acked ≠ 0) (opened : s.next ≠ 0) :
    Relation.ReflTransGen Emits s (sendUpTo count s) := by
  induction count generalizing s with
  | zero => exact .refl
  | succ count ih =>
    unfold sendUpTo
    split
    · exact .refl
    · rename_i room
      split
      · rename_i drained
        unfold sendFin
        split
        · rename_i unsent
          exact .single (.fin answered opened (by omega) drained unsent)
        · exact .refl
      · rename_i more
        split
        · rename_i sent chunk
          have first := emits_of_sendChunk? answered opened (by omega) (by simpa using more) chunk
          have later : sent.acked ≠ 0 ∧ sent.next ≠ 0 := by
            cases first <;> exact ⟨answered, by simp only [send_next]; omega⟩
          exact .head first (ih sent later.1 later.2)
        · exact .refl

theorem transmit_emits (s : Sender) : Relation.ReflTransGen Emits s s.transmit := by
  unfold transmit
  by_cases unopened : s.next = 0
  · simp only [unopened, if_true]
    split
    · exact .single (.syn unopened)
    · rename_i answered
      refine .head (.syn unopened) (sendUpTo_emits _ _ answered ?_)
      simp [unopened, fresh, Segment.space]
  · simp only [unopened, if_false]
    split
    · exact .refl
    · rename_i answered
      exact sendUpTo_emits _ s answered unopened

theorem transmit_induction {P : Sender → Prop} {s : Sender} (start : P s)
    (emission : ∀ before after, Emits before after → P before → P after) : P s.transmit := by
  have emissions := s.transmit_emits
  generalize s.transmit = last at emissions
  induction emissions with
  | refl => exact start
  | tail _ last ih => exact emission _ _ last ih

theorem Emits.keeps {s after : Sender} (emits : Emits s after) :
    after.acked = s.acked ∧ after.window = s.window ∧
      after.stream.inputEnded = s.stream.inputEnded := by
  cases emits with
  | syn | fin => exact ⟨rfl, rfl, rfl⟩
  | chunk => exact ⟨rfl, rfl, rfl⟩

theorem transmit_keeps (s : Sender) :
    s.transmit.acked = s.acked ∧ s.transmit.window = s.window ∧
      s.transmit.stream.inputEnded = s.stream.inputEnded := by
  apply transmit_induction (P := fun after => after.acked = s.acked ∧ after.window = s.window ∧
    after.stream.inputEnded = s.stream.inputEnded)
  · exact ⟨rfl, rfl, rfl⟩
  · intro before after emits soFar
    obtain ⟨acked, window, ended⟩ := emits.keeps
    exact ⟨acked.trans soFar.1, window.trans soFar.2.1, ended.trans soFar.2.2⟩

/-- The sender after an acknowledgement of `position`, which nothing had reached before. -/
def retire (s : Sender) (position : Nat) (window : UInt16) : Sender :=
  let (retired, outstanding) := s.outstanding.span fun sent => sent.stop ≤ position
  { s with
    window
    acked := position
    inFlight := s.inFlight - Sent.totalSpace retired
    outstanding
    timer := s.timer.reset (!outstanding.isEmpty) }

section Retire

variable (s : Sender) (position : Nat) (window : UInt16)

@[simp] theorem retire_isn : (s.retire position window).isn = s.isn := rfl

@[simp] theorem retire_stream : (s.retire position window).stream = s.stream := rfl

@[simp] theorem retire_next : (s.retire position window).next = s.next := rfl

@[simp] theorem retire_acked : (s.retire position window).acked = position := rfl

@[simp] theorem retire_window : (s.retire position window).window = window := rfl

@[simp] theorem retire_queue : (s.retire position window).queue = s.queue := rfl

@[simp] theorem retire_outstanding : (s.retire position window).outstanding =
    s.outstanding.dropWhile fun sent => sent.stop ≤ position := by
  simp [retire, List.span_eq_takeWhile_dropWhile]

@[simp] theorem retire_inFlight : (s.retire position window).inFlight =
    s.inFlight - Sent.totalSpace (s.outstanding.takeWhile fun sent => sent.stop ≤ position) := by
  simp [retire, List.span_eq_takeWhile_dropWhile]

end Retire

/-- An acknowledgement reaches beyond what was sent, or not beyond what was acknowledged, or into
    what is outstanding. -/
theorem acknowledge_cases (s : Sender) (ackno : SeqNo) (window : UInt16) {position : Nat}
    (place : ackno.positionNear s.isn s.acked = position) :
    (s.next < position ∧ s.acknowledge ackno window = s) ∨
    (position ≤ s.next ∧ position ≤ s.acked ∧ s.acknowledge ackno window = { s with window }) ∨
    (position ≤ s.next ∧ s.acked < position ∧
      s.acknowledge ackno window = (s.retire position window).transmit) := by
  subst place
  unfold acknowledge
  dsimp only
  by_cases unsent : s.next < ackno.positionNear s.isn s.acked
  · rw [if_pos unsent]
    exact .inl ⟨unsent, rfl⟩
  · rw [if_neg unsent]
    by_cases stale : ackno.positionNear s.isn s.acked ≤ s.acked
    · rw [if_pos stale]
      exact .inr (.inl ⟨by omega, stale, rfl⟩)
    · rw [if_neg stale]
      exact .inr (.inr ⟨by omega, by omega, rfl⟩)

/-- As time passes, all that may happen to a sender beside its timer is that something outstanding
    is queued again. -/
theorem tick_eq (s : Sender) (span : Duration) :
    ∃ again timer, again ⊆ s.outstanding.map Sent.segment ∧
      s.tick span = { s with queue := s.queue ++ again, timer } := by
  have silent (timer : Timer) : ∃ again timer', again ⊆ s.outstanding.map Sent.segment ∧
      { s with timer } = { s with queue := s.queue ++ again, timer := timer' } :=
    ⟨[], timer, List.nil_subset _, by rw [List.append_nil]⟩
  unfold tick
  dsimp only
  split
  · split
    · exact silent _
    · rename_i oldest rest outstanding
      exact ⟨[oldest.segment], _, by simp [outstanding], rfl⟩
  · exact silent _

end NetStack.Tcp.Sender
