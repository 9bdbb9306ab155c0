import NetStack.Proofs.Machine.Stream
import NetStack.Proofs.Tcp.Replies

namespace NetStack

open Tcp

namespace Machine

def retryLimit : Nat := 0x100000000

/-- The position of a wire number: the nearest one, or a turn from it if that is none. -/
def position (s isn : SeqNo) (checkpoint : Nat) : Option Nat :=
  let offset := s.distance (.ofPosition checkpoint isn)
  let nearest : Int := checkpoint + offset
  if 0 ≤ nearest ∧ nearest < wordLimit then some nearest.toNat
  else if offset < 0 then add checkpoint (offset + SeqNo.modulus).toNat
  else sub checkpoint (SeqNo.modulus - offset).toNat

def space (segment : Segment) : Option Nat := do
  add (← add segment.payload.length segment.flags.syn.toNat) segment.flags.fin.toNat

def backOff (timer : Timer) (windowOpen : Bool) : Option Timer :=
  if timer.retries + 1 < retryLimit then some (timer.backOff windowOpen) else none

structure Sender where
  isn : SeqNo
  stream : Stream
  timer : Timer
  maxPayload : Nat
  next : Nat
  acked : Nat
  window : UInt16
  inFlight : Nat
  outstanding : List Sent
  queue : List Segment

namespace Sender

def nextSeqno (s : Sender) : SeqNo := .ofPosition s.next s.isn

def send (s : Sender) (flags : Flags) (payload : Bytes) : Option Sender := do
  let segment : Segment := { seqno := s.nextSeqno, flags, payload }
  let length ← space segment
  let next ← add s.next length
  let inFlight ← add s.inFlight length
  some { s with
    next
    inFlight
    outstanding := s.outstanding ++ [⟨s.next, segment⟩]
    queue := s.queue ++ [segment]
    timer := if s.timer.isRunning then s.timer else s.timer.start }

def finGoes (stream : Stream) (payload : Bytes) (room : Nat) : Bool :=
  stream.atEnd && decide (payload.length < room)

theorem send_next {s after : Sender} {flags : Flags} {payload : Bytes}
    (sent : s.send flags payload = some after) (occupied : payload ≠ [] ∨ flags.fin = true) :
    s.next < after.next ∧ after.next < wordLimit := by
  have length : 0 < payload.length ∨ 0 < flags.fin.toNat :=
    occupied.imp List.length_pos_iff.mpr fun fin => by rw [fin]; decide
  obtain ⟨space, spaced, sent⟩ := Option.bind_eq_some_iff.mp sent
  obtain ⟨next, added, sent⟩ := Option.bind_eq_some_iff.mp sent
  obtain ⟨inFlight, _, sent⟩ := Option.bind_eq_some_iff.mp sent
  obtain ⟨front, fronted, spaced⟩ := Option.bind_eq_some_iff.mp spaced
  obtain ⟨rfl, small⟩ := eq_of_add added
  obtain ⟨rfl, _⟩ := eq_of_add spaced
  obtain ⟨rfl, _⟩ := eq_of_add fronted
  cases sent
  dsimp only at *
  omega

/-- Send one segment if there is room in the window and something to send. After a chunk of the
    stream there may be more. -/
def sendNext (window : Nat) (s : Sender) : Option (ForInStep Sender) := do
  let flying ← sub s.next s.acked
  if flying < window then
    let remain ← sub window flying
    if s.stream.atEnd then
      let stop ← add s.stream.totalWritten 2
      if s.next < stop then (s.send { fin := true } []).map .done else some (.done s)
    else
      let (payload, stream) ← s.stream.read (min remain s.maxPayload)
      if payload = [] ∧ finGoes stream payload remain = false then some (.done { s with stream })
      else
        ({ s with stream }.send { fin := finGoes stream payload remain } payload).map .yield
  else some (.done s)

/-- There are fewer positions left in a word after every pass. -/
theorem sendNext_left_lt {s after : Sender} {window : Nat}
    (sent : s.sendNext window = some (.yield after)) :
    wordLimit - after.next < wordLimit - s.next := by
  obtain ⟨flying, _, sent⟩ := Option.bind_eq_some_iff.mp sent
  split at sent
  · obtain ⟨remain, _, sent⟩ := Option.bind_eq_some_iff.mp sent
    split at sent
    · obtain ⟨stop, _, sent⟩ := Option.bind_eq_some_iff.mp sent
      split at sent
      · obtain ⟨_, _, done⟩ := Option.map_eq_some_iff.mp sent
        nomatch done
      · nomatch sent
    · obtain ⟨⟨payload, stream⟩, _, sent⟩ := Option.bind_eq_some_iff.mp sent
      dsimp only at sent
      split at sent
      · nomatch sent
      · rename_i something
        obtain ⟨_, sent, same⟩ := Option.map_eq_some_iff.mp sent
        cases same
        have further := send_next (s := { s with stream }) sent
          (by simpa [or_iff_not_imp_left] using something)
        dsimp only at further
        omega
  · nomatch sent

def fill (s : Sender) (window : Nat) : Option Sender :=
  loop (sendNext window) (wordLimit - ·.next) sendNext_left_lt s

def fillOpened (s : Sender) : Option Sender :=
  if s.acked = 0 then some s else s.fill (max s.window.toNat 1)

def transmit (s : Sender) : Option Sender :=
  if s.next = 0 then do (← s.send { syn := true } []).fillOpened else s.fillOpened

def retire (position : Nat) : Nat → List Sent → Option (Nat × List Sent)
  | inFlight, [] => some (inFlight, [])
  | inFlight, sent :: rest => do
    let length ← space sent.segment
    let stop ← add sent.start length
    if position < stop then some (inFlight, sent :: rest)
    else retire position (← sub inFlight length) rest

def acknowledge (s : Sender) (ackno : SeqNo) (window : UInt16) : Option Sender := do
  let position ← position ackno s.isn s.acked
  if s.next < position then some s
  else if position ≤ s.acked then some { s with window }
  else
    let (inFlight, outstanding) ← retire position s.inFlight s.outstanding
    transmit { s with
      window
      acked := position
      inFlight
      outstanding
      timer := s.timer.reset (!outstanding.isEmpty) }

def tick (s : Sender) (span : Duration) : Option Sender :=
  let (expired, timer) := s.timer.tick span
  if expired then
    match s.outstanding with
    | [] => some { s with timer := timer.close }
    | oldest :: _ => do
      let timer ← backOff timer (s.window != 0)
      some { s with queue := s.queue ++ [oldest.segment], timer }
  else some { s with timer }

def sendEmpty (s : Sender) : Sender :=
  { s with queue := s.queue ++ [{ seqno := s.nextSeqno }] }

def sendReset (s : Sender) : Sender :=
  { s with
    queue := [{ seqno := s.nextSeqno, flags := { rst := true } }]
    timer := s.timer.close }

def state (s : Sender) : Option Sender.State := do
  if s.stream.failed then some .failed
  else if s.next = 0 then some .closed
  else if s.next = s.inFlight then some .synSent
  else
    let stop ← add s.stream.totalWritten 2
    if s.next < stop then some .synAcked
    else if 0 < s.inFlight then some .finSent
    else some .finAcked

end Sender

theorem position_eq (s isn : SeqNo) (checkpoint : Nat) (small : checkpoint < wordLimit) :
    position s isn checkpoint = some (s.positionNear isn checkpoint) := by
  have lower := s.distance_lower (.ofPosition checkpoint isn)
  have upper := s.distance_upper (.ofPosition checkpoint isn)
  have limit : SeqNo.positionLimit = wordLimit := rfl
  unfold position SeqNo.positionNear
  dsimp only
  generalize s.distance (.ofPosition checkpoint isn) = offset at *
  rw [limit]
  unfold SeqNo.modulus wordLimit at *
  by_cases negative : (checkpoint : Int) + offset < 0
  · rw [if_neg (by omega), if_pos (by omega), if_pos negative, add_eq (by unfold wordLimit; omega)]
    congr 1
    omega
  · by_cases beyond : (checkpoint : Int) + offset < 0x10000000000000000
    · rw [if_pos (by omega), if_neg negative, if_pos (by omega)]
    · rw [if_neg (by omega), if_neg (by omega), if_neg negative, if_neg (by omega),
        sub_eq (by omega)]
      congr 1
      omega

theorem space_eq {segment : Segment} (small : segment.space < wordLimit) :
    space segment = some segment.space := by
  unfold Segment.space at small
  unfold space
  simp only [Option.bind_eq_bind]
  rw [add_eq (by omega), Option.bind_some, add_eq small]
  rfl

end Machine

namespace Tcp.Sender

open Machine

def machine (s : Sender) : Machine.Sender where
  isn := s.isn
  stream := s.stream.machine
  timer := s.timer
  maxPayload := s.maxPayload
  next := s.next
  acked := s.acked
  window := s.window
  inFlight := s.inFlight
  outstanding := s.outstanding
  queue := s.queue

variable {s : Sender} {flags : Flags} {payload : Bytes}

theorem Accounted.inFlight_le (accounted : s.Accounted) : s.inFlight ≤ s.next := by
  obtain ⟨first, _, contiguous⟩ := accounted.contiguous
  have stop := contiguous.stop_eq
  have total := accounted.inFlight
  omega

theorem Placed.next_le (placed : s.Placed) : s.next ≤ s.stream.totalWritten + 2 := by
  have total : s.stream.totalWritten = s.stream.totalRead + s.stream.size := rfl
  rcases placed with ⟨next, _⟩ | next | ⟨next, _⟩
  · omega
  · omega
  · omega

structure Fits (s : Sender) : Prop where
  accounted : s.Accounted
  faithful : ∃ accepted, s.Faithful accepted
  small : s.stream.capacity ≤ sliceLimit
  counted : s.stream.totalWritten + 2 < wordLimit

theorem Fits.next_lt (fits : s.Fits) : s.next < wordLimit := by
  obtain ⟨accepted, faithful⟩ := fits.faithful
  exact Nat.lt_of_le_of_lt faithful.placed.next_le fits.counted

theorem Fits.stop_lt (fits : s.Fits) : ∀ sent ∈ s.outstanding, sent.stop < wordLimit := by
  obtain ⟨accepted, faithful⟩ := fits.faithful
  intro sent member
  have within := (faithful.outstanding sent member).1.stop_le
  rw [faithful.transcript_length] at within
  exact Nat.lt_of_le_of_lt within fits.next_lt

theorem Emits.fits {after : Sender} (emits : Emits s after) (fits : s.Fits) : after.Fits := by
  obtain ⟨accepted, faithful⟩ := fits.faithful
  refine ⟨emits.accounted fits.accounted, ⟨accepted, (emits.faithful faithful).1⟩, ?_, ?_⟩
  · cases emits with
    | syn | fin => exact fits.small
    | chunk => simpa using fits.small
  · cases emits with
    | syn | fin => exact fits.counted
    | chunk => simpa using fits.counted

theorem Fits.transmit (fits : s.Fits) : s.transmit.Fits :=
  transmit_induction fits fun _ _ emits => emits.fits

theorem machine_send (fits : (s.send flags payload).Fits) :
    s.machine.send flags payload = some (s.send flags payload).machine := by
  have next : s.next + (s.fresh flags payload).space < wordLimit := fits.next_lt
  have inFlight : s.inFlight + (s.fresh flags payload).space ≤
      s.next + (s.fresh flags payload).space := fits.accounted.inFlight_le
  have length : space (s.fresh flags payload) = _ := space_eq (by omega)
  unfold Machine.Sender.send
  simp only [Option.bind_eq_bind]
  show ((space (s.fresh flags payload)).bind _) = _
  rw [length, Option.bind_some]
  show ((add s.next (s.fresh flags payload).space).bind fun next =>
    (add s.inFlight (s.fresh flags payload).space).bind _) = _
  rw [add_eq next, Option.bind_some, add_eq (by omega), Option.bind_some]
  rfl

theorem machine_sendNext_of_full (fits : s.Fits) (full : s.rightEdge ≤ s.next) :
    s.machine.sendNext (max s.window.toNat 1) = some (.done s.machine) := by
  have order := fits.accounted.acked_le
  unfold rightEdge at full
  unfold Machine.Sender.sendNext
  show ((sub s.next s.acked).bind _) = _
  rw [sub_eq order, Option.bind_some, if_neg (by omega)]

theorem machine_sendNext_of_drained (fits : s.Fits) (room : s.next < s.rightEdge)
    (answered : s.acked ≠ 0) (opened : s.next ≠ 0) (drained : s.stream.atEnd = true) :
    s.machine.sendNext (max s.window.toNat 1) = some (.done s.sendFin.machine) := by
  have order := fits.accounted.acked_le
  have ended : s.machine.stream.atEnd = true := drained
  have within : s.next - s.acked < max s.window.toNat 1 := by
    unfold rightEdge at room
    omega
  unfold Machine.Sender.sendNext
  show ((sub s.next s.acked).bind _) = _
  rw [sub_eq order, Option.bind_some, if_pos within]
  simp only [Option.bind_eq_bind]
  rw [sub_eq (Nat.le_of_lt within), Option.bind_some, if_pos ended]
  show ((add s.stream.totalWritten 2).bind fun stop =>
    if s.next < stop then (s.machine.send { fin := true } []).map ForInStep.done
    else some (ForInStep.done s.machine)) = _
  rw [add_eq fits.counted, Option.bind_some]
  unfold sendFin endPosition
  by_cases unsent : s.next < s.stream.totalWritten + 2
  · have emits := Emits.fin answered opened room drained unsent
    rw [if_pos unsent, if_pos unsent, machine_send (emits.fits fits), Option.map_some]
  · rw [if_neg unsent, if_neg unsent]

theorem machine_sendNext_of_chunk (fits : s.Fits) (room : s.next < s.rightEdge)
    (answered : s.acked ≠ 0) (opened : s.next ≠ 0) (more : s.stream.atEnd = false) :
    s.machine.sendNext (max s.window.toNat 1) = some (match s.sendChunk? with
      | some sent => .yield sent.machine
      | none => .done s.machine) := by
  have order := fits.accounted.acked_le
  have going : ¬ s.stream.machine.atEnd = true := by
    show ¬ s.stream.atEnd = true
    simp [more]
  have remain : max s.window.toNat 1 - (s.next - s.acked) = s.rightEdge - s.next := by
    unfold rightEdge
    omega
  have within : s.next - s.acked < max s.window.toNat 1 := by
    unfold rightEdge at room
    omega
  unfold Machine.Sender.sendNext
  show ((sub s.next s.acked).bind _) = _
  rw [sub_eq order, Option.bind_some, if_pos within]
  simp only [Option.bind_eq_bind]
  rw [sub_eq (Nat.le_of_lt within), Option.bind_some,
    if_neg (show ¬ s.machine.stream.atEnd = true from going), remain]
  change ((s.stream.machine.read (min (s.rightEdge - s.next) s.maxPayload)).bind _) = _
  have emits (sent : Sender) (chunk : s.sendChunk? = some sent) :=
    emits_of_sendChunk? answered opened room more chunk
  have peeked := s.stream.length_peek (min (s.rightEdge - s.next) s.maxPayload)
  unfold sendChunk? ByteStream.read at emits ⊢
  dsimp only at emits ⊢
  generalize min (s.rightEdge - s.next) s.maxPayload = count at *
  by_cases nothing : min count s.stream.size = 0
  · have empty : s.stream.peek count = [] := List.eq_nil_of_length_eq_zero (peeked.trans nothing)
    have unended : (s.stream.pop count).atEnd = false :=
      (ByteStream.atEnd_pop_of_nothing nothing).trans more
    have silent : (s.stream.machine.atEnd && decide (([] : Bytes).length < s.rightEdge - s.next)) =
        false := by
      rw [eq_false_of_ne_true going, Bool.false_and]
    rw [if_pos ⟨empty, by rw [unended, Bool.false_and]⟩, ByteStream.machine_read_of_nothing nothing,
      Option.bind_some, if_pos ⟨rfl, silent⟩]
    rfl
  · have something : s.stream.peek count ≠ [] := by
      intro empty
      rw [empty] at peeked
      exact nothing peeked.symm
    have counted := fits.counted
    have sent := (emits _ (if_neg fun silent => something silent.1)).fits fits
    rw [if_neg fun silent => something silent.1,
      ByteStream.machine_read fits.small (by omega) (absurd · nothing), Option.bind_some,
      if_neg fun silent => something silent.1]
    exact congrArg (Option.map _) (machine_send sent)

theorem machine_sendUpTo (fits : s.Fits) (answered : s.acked ≠ 0) (opened : s.next ≠ 0)
    {count : Nat} (enough : s.rightEdge - s.next ≤ count) :
    s.machine.fill (max s.window.toNat 1) = some (sendUpTo count s).machine := by
  -- a pass that goes on takes some of the room, while the edge of the window stays where it is
  induction count generalizing s with
  | zero => exact loop_of_done (machine_sendNext_of_full fits (by omega))
  | succ count ih =>
    unfold sendUpTo
    by_cases full : s.rightEdge ≤ s.next
    · rw [if_pos full]
      exact loop_of_done (machine_sendNext_of_full fits full)
    · rw [if_neg full]
      have room : s.next < s.rightEdge := by omega
      cases drained : s.stream.atEnd with
      | true =>
        exact loop_of_done
          (machine_sendNext_of_drained fits room answered opened drained)
      | false =>
        have chunk := machine_sendNext_of_chunk fits room answered opened drained
        rw [if_neg Bool.false_ne_true]
        cases sent : s.sendChunk? with
        | none =>
          rw [sent] at chunk
          exact loop_of_done chunk
        | some after =>
          have emits := emits_of_sendChunk? answered opened room drained sent
          obtain ⟨acked, window, _⟩ := emits.keeps
          have further := emits.next_lt
          have edge : after.rightEdge = s.rightEdge := by rw [rightEdge, acked, window, rightEdge]
          rw [sent] at chunk
          rw [Machine.Sender.fill, loop_of_yield chunk, ← window]
          exact ih (emits.fits fits) (by rw [acked]; exact answered) (by omega) (by omega)

theorem machine_fillOpened (fits : s.Fits) (opened : s.next ≠ 0) : s.machine.fillOpened =
    some (if s.acked = 0 then s else sendUpTo (s.rightEdge - s.next) s).machine := by
  unfold Machine.Sender.fillOpened
  change (if s.acked = 0 then some s.machine else s.machine.fill (max s.window.toNat 1)) = _
  by_cases unanswered : s.acked = 0
  · rw [if_pos unanswered, if_pos unanswered]
  · rw [if_neg unanswered, if_neg unanswered,
      machine_sendUpTo fits unanswered opened (Nat.le_refl _)]

theorem machine_transmit (fits : s.Fits) : s.machine.transmit = some s.transmit.machine := by
  unfold Machine.Sender.transmit transmit
  change (if s.next = 0 then _ else _) = _
  by_cases unopened : s.next = 0
  · have opening := (Emits.syn unopened).fits fits
    have opened : (s.send { syn := true } []).next ≠ 0 := Nat.succ_ne_zero _
    simp only [Option.bind_eq_bind]
    rw [if_pos unopened, if_pos unopened, machine_send opening, Option.bind_some,
      machine_fillOpened opening opened]
  · rw [if_neg unopened, if_neg unopened, machine_fillOpened fits unopened]

theorem retire_eq {position inFlight : Nat} {outstanding : List Sent}
    (stops : ∀ sent ∈ outstanding, sent.stop < wordLimit)
    (counted : Sent.totalSpace outstanding ≤ inFlight) :
    Machine.Sender.retire position inFlight outstanding =
      some (inFlight - Sent.totalSpace (outstanding.takeWhile fun sent => sent.stop ≤ position),
        outstanding.dropWhile fun sent => sent.stop ≤ position) := by
  induction outstanding generalizing inFlight with
  | nil => rfl
  | cons sent rest ih =>
    obtain ⟨own, others⟩ := List.forall_mem_cons.mp stops
    have total : Sent.totalSpace (sent :: rest) = sent.segment.space + Sent.totalSpace rest := rfl
    have stop_eq : sent.start + sent.segment.space = sent.stop := rfl
    unfold Machine.Sender.retire
    simp only [Option.bind_eq_bind]
    rw [space_eq (by omega), Option.bind_some, add_eq own, Option.bind_some, stop_eq]
    by_cases covered : sent.stop ≤ position
    · rw [if_neg (by omega), sub_eq (by omega), Option.bind_some, ih others (by omega),
        List.takeWhile_cons_of_pos (by simpa using covered),
        List.dropWhile_cons_of_pos (by simpa using covered), Nat.sub_sub]
      rfl
    · rw [if_pos (by omega), List.takeWhile_cons_of_neg (by simpa using covered),
        List.dropWhile_cons_of_neg (by simpa using covered)]
      rfl

theorem Fits.retire (fits : s.Fits) {position : Nat} (window : UInt16) (news : s.acked < position)
    (sent : position ≤ s.next) : (s.retire position window).Fits where
  accounted := fits.accounted.retire window news sent
  faithful := fits.faithful.imp fun _ faithful => faithful.retire position window
  small := fits.small
  counted := fits.counted

theorem machine_acknowledge (fits : s.Fits) (ackno : SeqNo) (window : UInt16) :
    s.machine.acknowledge ackno window = some (s.acknowledge ackno window).machine := by
  have next := fits.next_lt
  have order := fits.accounted.acked_le
  have position := position_eq ackno s.isn s.acked (by omega)
  unfold Machine.Sender.acknowledge
  simp only [Option.bind_eq_bind]
  change ((Machine.position ackno s.isn s.acked).bind _) = _
  rw [position, Option.bind_some]
  generalize place : ackno.positionNear s.isn s.acked = position
  change (if s.next < position then some s.machine
    else if position ≤ s.acked then some { s.machine with window }
    else (Machine.Sender.retire position s.inFlight s.outstanding).bind _) = _
  obtain ⟨unsent, same⟩ | ⟨sent, stale, told⟩ | ⟨sent, news, retired⟩ :=
    s.acknowledge_cases ackno window place
  · rw [if_pos unsent, same]
  · rw [if_neg (by omega), if_pos stale, told]
    rfl
  · rw [if_neg (by omega), if_neg (by omega), retired,
      ← machine_transmit (fits.retire window news sent),
      retire_eq fits.stop_lt fits.accounted.inFlight.ge, Option.bind_some]
    unfold retire
    rw [List.span_eq_takeWhile_dropWhile]
    rfl

theorem Fits.acknowledge (fits : s.Fits) (ackno : SeqNo) (window : UInt16) :
    (s.acknowledge ackno window).Fits := by
  obtain ⟨_, same⟩ | ⟨_, _, told⟩ | ⟨sent, news, retired⟩ := s.acknowledge_cases ackno window rfl
  · rw [same]
    exact fits
  · have accounted := fits.accounted.acknowledge ackno window
    have faithful := fits.faithful.imp fun _ faithful => (faithful.acknowledge ackno window).1
    rw [told] at accounted faithful ⊢
    exact ⟨accounted, faithful, fits.small, fits.counted⟩
  · rw [retired]
    exact (fits.retire window news sent).transmit

theorem machine_tick {span : Duration} (few : s.timer.retries + 1 < retryLimit) :
    s.machine.tick span = some (s.tick span).machine := by
  have retries : (s.timer.tick span).2.retries = s.timer.retries := by
    unfold Timer.tick
    split <;> rfl
  have again (windowOpen : Bool) : backOff (s.timer.tick span).2 windowOpen =
      some ((s.timer.tick span).2.backOff windowOpen) := if_pos (by rw [retries]; exact few)
  unfold Machine.Sender.tick tick
  change (if (s.timer.tick span).1 = true then _ else _) = _
  dsimp only
  by_cases expired : (s.timer.tick span).1 = true
  · rw [if_pos expired, if_pos expired]
    change (match s.outstanding with
      | [] => some { s.machine with timer := (s.timer.tick span).2.close }
      | oldest :: _ => (backOff (s.timer.tick span).2 (s.window != 0)).bind fun timer =>
        some { s.machine with queue := s.queue ++ [oldest.segment], timer }) = _
    rw [again]
    split
    · rename_i none_waits
      simp only [machine, none_waits]
    · rename_i oldest rest waiting
      simp only [machine, waiting, Option.bind_some]
  · rw [if_neg expired, if_neg expired]
    rfl

theorem machine_state (counted : s.stream.totalWritten + 2 < wordLimit) :
    s.machine.state = some s.state := by
  unfold Machine.Sender.state state
  simp only [Option.bind_eq_bind]
  change (if s.stream.failed = true then some State.failed
    else if s.next = 0 then some State.closed
    else if s.next = s.inFlight then some State.synSent
    else (add s.stream.totalWritten 2).bind fun stop =>
      if s.next < stop then some State.synAcked
      else if 0 < s.inFlight then some State.finSent else some State.finAcked) = _
  rw [add_eq counted, Option.bind_some]
  unfold endPosition
  repeat' split
  all_goals rfl

end Tcp.Sender

end NetStack
