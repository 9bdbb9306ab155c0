import NetStack.Proofs.Tcp.Exhaustion
import NetStack.Proofs.Tcp.History

namespace NetStack

namespace Reassembler

structure Current (r : Reassembler) : Prop where
  next_eq : r.next = r.output.totalWritten
  pending : r.pending = []
  ended : r.finalIndex.isSome = true → r.output.inputEnded = true

variable {r : Reassembler}

theorem ofStorage_current (storage : Array UInt8) : (ofStream (.ofStorage storage)).Current where
  next_eq := rfl
  pending := rfl
  ended := by simp [ofStream]

theorem Current.tidy (current : r.Current) : r.Tidy := by
  refine ⟨current.next_eq, ?_, fun _ => ?_, fun _ => ?_⟩ <;> rw [current.pending]
  · trivial
  · trivial
  · simp [Piece.covered]

theorem Current.insert_nil (current : r.Current) (index : Nat) : r.insert [] index false = r := by
  have nothing : r.acceptable? [] index = none := by
    unfold acceptable?
    dsimp only [List.length_nil]
    rw [if_neg (by omega)]
  have absorbed : r.absorb [] index = r := by
    unfold absorb
    rw [nothing]
  rw [insert_stages, note, if_neg Bool.false_ne_true, absorbed]
  unfold finish
  split
  · rename_i reached
    have ended : r.output.inputEnded = true := current.ended (by rw [reached.1]; rfl)
    rw [ByteStream.endInput, ← ended]
  · rfl

theorem absorb_next (next_eq : r.next = r.output.totalWritten) (nothing : r.pending = [])
    (unended : r.output.inputEnded = false) {data : Bytes} (fits : r.next + data.length ≤ r.edge) :
    r.absorb data r.next =
      { r with output := (r.output.write data).2, next := r.next + data.length } := by
  have limit_eq := limit_eq_edge next_eq
  have start_eq : max r.next r.next = r.next := Nat.max_self _
  have stop_eq : min (r.next + data.length) r.limit = r.next + data.length := by omega
  unfold absorb acceptable?
  dsimp only
  rw [start_eq, stop_eq]
  by_cases empty : data = []
  · rw [empty, List.length_nil, Nat.add_zero, if_neg (Nat.lt_irrefl _), ByteStream.write,
      if_neg (by simp [unended])]
    rfl
  · have something := List.length_pos_iff.mpr empty
    have whole : (data.take (r.next + data.length - r.next)).drop (r.next - r.next) = data := by
      simp
    have room : data.length ≤ r.output.room := by
      rw [← limit_eq, limit] at fits
      omega
    have all := ByteStream.write_of_fits unended room
    have stored : r.store ⟨r.next, data⟩ = assemble { r with pending := [⟨r.next, data⟩] } := by
      rw [store, nothing]
      rfl
    rw [if_pos (by omega), whole]
    dsimp only
    rw [stored, assemble_turn rfl rfl]
    dsimp only
    rw [all, List.drop_length, nothing]
    rfl

theorem Current.insert_next (current : r.Current) (unended : r.output.inputEnded = false)
    {data : Bytes} (isLast : Bool) (fits : r.next + data.length ≤ r.edge) :
    (r.insert data r.next isLast).Current ∧
      (r.insert data r.next isLast).output.totalWritten = r.output.totalWritten + data.length ∧
      (r.insert data r.next isLast).output.inputEnded = isLast := by
  have unknown : r.finalIndex = none := by
    by_contra known
    have ended := current.ended (Option.isSome_iff_ne_none.mpr known)
    simp [unended] at ended
  have limit_eq := limit_eq_edge current.next_eq
  have room : data.length ≤ r.output.room := by
    rw [← limit_eq, limit] at fits
    omega
  have written := ByteStream.totalWritten_write r.output data
  rw [ByteStream.write_of_fits unended room] at written
  have next_eq := current.next_eq
  rw [insert_stages]
  cases isLast with
  | false =>
    rw [note, if_neg Bool.false_ne_true, absorb_next next_eq current.pending unended fits, finish,
      if_neg (by simp [unknown])]
    refine ⟨⟨?_, current.pending, by simp [unknown]⟩, written, ?_⟩
    · rw [written, next_eq]
    · rw [ByteStream.inputEnded_write, unended]
  | true =>
    have noted := absorb_next (r := { r with finalIndex := some (r.next + data.length) }) next_eq
      current.pending unended fits
    rw [note, if_pos rfl, noted, finish, if_pos ⟨rfl, current.pending⟩]
    exact ⟨⟨by rw [next_eq]; exact written.symm, current.pending, fun _ => rfl⟩, written, rfl⟩

end Reassembler

namespace Tcp

namespace Transcript

/-- The segments follow each other without a gap, an overlap or a repetition from one position to
    another, and none of them is a reset. -/
def Successive (t : Transcript) : Nat → List Segment → Nat → Prop
  | start, [], stop => start = stop
  | start, segment :: rest, stop => t.Covers start segment ∧ segment.flags.rst = false ∧
      Successive t (start + segment.space) rest stop

variable {t later : Transcript} {start stop : Nat} {segments : List Segment}

theorem successive_append (t : Transcript) (start : Nat) (left right : List Segment) (stop : Nat) :
    t.Successive start (left ++ right) stop ↔
      ∃ middle, t.Successive start left middle ∧ t.Successive middle right stop := by
  induction left generalizing start with
  | nil => simp [Successive]
  | cons segment rest ih => simp [Successive, ih, and_assoc]

theorem Successive.extend (successive : t.Successive start segments stop)
    (extension : later.Extends t) : later.Successive start segments stop := by
  induction segments generalizing start with
  | nil => exact successive
  | cons segment rest ih =>
    obtain ⟨covers, plain, following⟩ := successive
    exact ⟨covers.extend extension, plain, ih following⟩

theorem Successive.start_le (successive : t.Successive start segments stop) : start ≤ stop := by
  induction segments generalizing start with
  | nil => exact Nat.le_of_eq successive
  | cons segment rest ih =>
    have beyond := ih successive.2.2
    omega

end Transcript

namespace Sender

variable {s : Sender} {accepted : Bytes}

theorem Emits.successive {after : Sender} (emits : Emits s after) (faithful : s.Faithful accepted) :
    ∃ segment, after.queue = s.queue ++ [segment] ∧
      (after.transcript accepted).Successive s.next [segment] after.next := by
  have said := (emits.faithful faithful).1.outstanding
  have last {sent : Sent} : sent ∈ s.outstanding ++ [sent] :=
    List.mem_append_right _ List.mem_cons_self
  cases emits with
  | syn | fin => exact ⟨_, rfl, (said ⟨s.next, _⟩ last).1, rfl, rfl⟩
  | chunk => exact ⟨_, rfl, (said ⟨s.next, _⟩ last).1, rfl, rfl⟩

def GoesOn (before after : Sender) (accepted : Bytes) : Prop :=
  ∃ added, after.queue = before.queue ++ added ∧
    (after.transcript accepted).Successive before.next added after.next

theorem goesOn_of_kept {before after : Sender} (next : after.next = before.next)
    (queue : after.queue = before.queue) (accepted : Bytes) : before.GoesOn after accepted :=
  ⟨[], by rw [queue, List.append_nil], next.symm⟩

theorem GoesOn.trans {before between after : Sender} {earlier : Bytes}
    (first : before.GoesOn between earlier)
    (extension : (after.transcript accepted).Extends (between.transcript earlier))
    (second : between.GoesOn after accepted) : before.GoesOn after accepted := by
  obtain ⟨left, leftQueue, leftRun⟩ := first
  obtain ⟨right, rightQueue, rightRun⟩ := second
  refine ⟨left ++ right, ?_, ?_⟩
  · rw [rightQueue, leftQueue, List.append_assoc]
  · rw [Transcript.successive_append]
    exact ⟨between.next, leftRun.extend extension, rightRun⟩

theorem Faithful.transmit_goesOn (faithful : s.Faithful accepted) :
    s.GoesOn s.transmit accepted := by
  have reached : s.transmit.Faithful accepted ∧ s.GoesOn s.transmit accepted := by
    apply transmit_induction (P := fun after => after.Faithful accepted ∧ s.GoesOn after accepted)
    · exact ⟨faithful, goesOn_of_kept rfl rfl accepted⟩
    · intro before after emits soFar
      obtain ⟨kept, extension⟩ := emits.faithful soFar.1
      obtain ⟨segment, queue, successive⟩ := emits.successive soFar.1
      exact ⟨kept, soFar.2.trans extension ⟨[segment], queue, successive⟩⟩
  exact reached.2

theorem Faithful.sendEmpty_goesOn (faithful : s.Faithful accepted) :
    s.GoesOn s.sendEmpty accepted := by
  refine ⟨[{ seqno := s.nextSeqno }], rfl, ?_, rfl, rfl⟩
  show (s.transcript accepted).Covers s.next ({ seqno := s.nextSeqno } : Segment)
  rw [← faithful.transcript_length]
  apply Transcript.covers_of_space_eq_zero
  · rw [faithful.transcript_length]
    rfl
  · rfl

def Op.Calm : Op → Prop
  | .transmit | .acknowledge _ _ | .sendEmpty | .input (.write _) | .input .endInput => True
  | _ => False

theorem Op.Calm.leaves {op : Op} (calm : op.Calm) : op.LeavesBytes := by
  cases op with
  | input op =>
    cases op with
    | write | endInput => trivial
    | peek | read | peekInto | readInto | pop | fail => exact calm.elim
  | transmit | acknowledge | tick | sendEmpty | sendReset => trivial

theorem Faithful.step_goesOn (faithful : s.Faithful accepted) {op : Op} (calm : op.Calm) :
    s.GoesOn (s.step op).2 (accepted ++ s.admitted op) := by
  have silent {after : Sender} (goesOn : s.GoesOn after accepted) :
      s.GoesOn after (accepted ++ []) := by
    rw [List.append_nil]
    exact goesOn
  cases op with
  | transmit => exact silent faithful.transmit_goesOn
  | acknowledge ackno window =>
    apply silent
    show s.GoesOn (s.acknowledge ackno window) accepted
    rcases s.acknowledge_cases ackno window rfl with ⟨_, same⟩ | ⟨_, _, told⟩ | ⟨_, _, retired⟩
    · rw [same]
      exact goesOn_of_kept rfl rfl accepted
    · rw [told]
      exact goesOn_of_kept rfl rfl accepted
    · rw [retired]
      exact (faithful.retire _ window).transmit_goesOn
  | sendEmpty => exact silent faithful.sendEmpty_goesOn
  | input => exact goesOn_of_kept rfl rfl _
  | tick | sendReset => exact calm.elim

theorem Faithful.run_goesOn (faithful : s.Faithful accepted) {ops : List Op}
    (calm : ∀ op ∈ ops, op.Calm) : s.GoesOn (s.run ops) (accepted ++ s.admittedBy ops) := by
  induction ops generalizing s accepted with
  | nil => exact goesOn_of_kept rfl rfl _
  | cons op rest ih =>
    obtain ⟨first, others⟩ := List.forall_mem_cons.mp calm
    have stepped := (faithful.step first.leaves).1
    have extension := (stepped.run fun op member => (others op member).leaves).2
    rw [admittedBy, ← List.append_assoc]
    exact (faithful.step_goesOn first).trans extension (ih stepped others)

theorem Op.Calm.failed {op : Op} (calm : op.Calm) :
    (s.step op).2.stream.failed = s.stream.failed := by
  cases op with
  | transmit => exact s.transmit_failed
  | acknowledge ackno window =>
    show (s.acknowledge ackno window).stream.failed = _
    rcases s.acknowledge_cases ackno window rfl with ⟨_, same⟩ | ⟨_, _, told⟩ | ⟨_, _, retired⟩
    · rw [same]
    · rw [told]
    · rw [retired, transmit_failed, retire_stream]
  | sendEmpty => rfl
  | input op =>
    cases op with
    | write data => exact s.stream.failed_write data
    | endInput => rfl
    | peek | read | peekInto | readInto | pop | fail => exact calm.elim
  | tick | sendReset => exact calm.elim

theorem failed_run_calm {ops : List Op} (calm : ∀ op ∈ ops, op.Calm) :
    (s.run ops).stream.failed = s.stream.failed := by
  induction ops generalizing s with
  | nil => rfl
  | cons op rest ih =>
    obtain ⟨first, others⟩ := List.forall_mem_cons.mp calm
    exact (ih others).trans first.failed

end Sender

namespace Receiver

variable {r : Receiver} {t : Transcript} {taken : Bytes} {segment : Segment}

/-- The position up to which the peer was heard, its SYN included. -/
def heardTo (r : Receiver) : Nat := if r.isn.isSome then r.ackPosition else 0

/-- Nothing waits for a gap to be filled, and nothing came before the SYN. -/
structure InStep (r : Receiver) : Prop where
  current : r.reassembler.Current
  fresh : r.isn = none → r.ackPosition = 1

theorem ofStorage_inStep (storage : Array UInt8) : (ofStream (.ofStorage storage)).InStep where
  current := Reassembler.ofStorage_current storage
  fresh := fun _ => rfl

theorem InStep.receive_bare (inStep : r.InStep) (payload : segment.payload = [])
    (noFin : segment.flags.fin = false)
    (unsynced : (r.receive segment).isn = none → r.isn = none) :
    (r.receive segment).InStep ∧ (r.receive segment).ackPosition = r.ackPosition := by
  have same : (r.receive segment).reassembler = r.reassembler := by
    rw [r.receive_reassembler, payload, noFin, inStep.current.insert_nil]
    split <;> rfl
  have position : (r.receive segment).ackPosition = r.ackPosition := by
    unfold ackPosition stream
    rw [same]
  exact ⟨⟨same ▸ inStep.current, fun now => position.trans (inStep.fresh (unsynced now))⟩, position⟩

theorem InStep.place_next (inStep : r.InStep) (follows : r.Follows t taken)
    (covers : t.Covers r.heardTo segment) (bound : t.text.length + 2 < SeqNo.positionLimit) :
    segment.seqno.positionNear t.isn (r.stream.totalWritten + 1) = r.heardTo := by
  have written := follows.written_le
  have ended := r.stream.inputEnded.toNat_le
  have stands : r.heardTo ≤ r.stream.totalWritten + 2 ∧ r.stream.totalWritten ≤ r.heardTo + 1 := by
    unfold heardTo
    cases synced : r.isn with
    | some isn =>
      rw [Option.isSome_some, if_pos rfl, ackPosition]
      omega
    | none =>
      have fresh := inStep.fresh synced
      unfold ackPosition at fresh
      rw [Option.isSome_none, if_neg Bool.false_ne_true]
      omega
  rw [covers.seqno]
  apply SeqNo.positionNear_ofPosition
  · omega
  · omega
  · omega

theorem InStep.receive_first (inStep : r.InStep) (unsynced : r.isn = none)
    (covers : t.Covers 0 segment) :
    (r.receive segment).InStep ∧ (r.receive segment).heardTo = segment.space := by
  cases syn : segment.flags.syn with
  | false =>
    have same : r.receive segment = r := by
      rw [receive, unsynced]
      exact if_neg (by simp [syn])
    have empty : segment.space = 0 := by
      rcases covers.start rfl with opens | empty
      · simp [syn] at opens
      · exact empty
    rw [same, empty, heardTo, unsynced]
    exact ⟨inStep, rfl⟩
  | true =>
    obtain ⟨payload, noFin⟩ := covers.alone_of_syn syn
    obtain ⟨kept, position⟩ := inStep.receive_bare payload noFin (fun _ => unsynced)
    have synced : (r.receive segment).isn.isSome = true := (r.isn_receive segment).mpr (.inr syn)
    refine ⟨kept, ?_⟩
    rw [heardTo, if_pos synced, position, inStep.fresh unsynced, (covers.syn syn).2.2]

theorem Follows.space_eq_zero (follows : r.Follows t taken) (ended : r.stream.inputEnded = true)
    (covers : t.Covers r.ackPosition segment) : segment.space = 0 := by
  obtain ⟨_, all⟩ := follows.reads.ended ended
  have whole := congrArg List.length all
  rw [follows.reads.received_length, follows.reads.next_eq] at whole
  have position : r.ackPosition = t.text.length + 2 := by
    rw [ackPosition, ended, ← whole]
    rfl
  have stop := covers.stop_le
  have opened := t.opened.toNat_le
  have closed := t.closed.toNat_le
  unfold Transcript.length at stop
  omega

theorem InStep.receive_data (inStep : r.InStep) (follows : r.Follows t taken) (synced : r.isn = some t.isn)
    (unended : r.stream.inputEnded = false) (covers : t.Covers r.ackPosition segment)
    (place : segment.seqno.positionNear t.isn (r.stream.totalWritten + 1) = r.ackPosition)
    (noSyn : segment.flags.syn = false) (room : t.text.length ≤ r.reassembler.edge) :
    (r.receive segment).InStep ∧
      (r.receive segment).ackPosition = r.ackPosition + segment.space := by
  have next_eq : r.reassembler.next = r.stream.totalWritten := inStep.current.next_eq
  have position : r.ackPosition = r.reassembler.next + 1 := by
    rw [ackPosition, unended, next_eq]
    rfl
  rw [position] at covers place ⊢
  have admitted : r.admits segment = true := by
    simp [admits, synced, place]
  have index : r.place segment = r.reassembler.next := by
    rw [Receiver.place, synced, Option.getD_some, place, noSyn]
    rfl
  have excerpt := covers.payload.length_le
  have written := follows.written_le
  rw [List.length_drop] at excerpt
  obtain ⟨current, total, last⟩ := inStep.current.insert_next unended segment.flags.fin
    (show r.reassembler.next + segment.payload.length ≤ r.reassembler.edge by omega)
  have taken_in := r.receive_reassembler segment
  rw [if_pos admitted, index] at taken_in
  rw [← taken_in] at current total last
  have now : (r.receive segment).isn.isSome = true :=
    (r.isn_receive segment).mpr (.inl (by rw [synced]; rfl))
  refine ⟨⟨current, fun unsynced => by simp [unsynced] at now⟩, ?_⟩
  rw [ackPosition, stream, total, last, Segment.space, noSyn]
  unfold stream at next_eq
  rw [Bool.toNat_false]
  omega

/-- A receiver that is handed what follows takes in all of it. -/
theorem InStep.receive_next (inStep : r.InStep) (follows : r.Follows t taken)
    (covers : t.Covers r.heardTo segment) (room : t.text.length ≤ r.reassembler.edge)
    (bound : t.text.length + 2 < SeqNo.positionLimit) :
    (r.receive segment).Follows t taken ∧ (r.receive segment).InStep ∧
      (r.receive segment).heardTo = r.heardTo + segment.space := by
  have place := inStep.place_next follows covers bound
  refine ⟨follows.receive_placed covers place, ?_⟩
  cases synced : r.isn with
  | none =>
    have start : r.heardTo = 0 := by
      rw [heardTo, synced]
      rfl
    rw [start] at covers ⊢
    rw [Nat.zero_add]
    exact inStep.receive_first synced covers
  | some isn =>
    obtain ⟨rfl, _⟩ := follows.synced isn synced
    have before : r.isn.isSome = true := by rw [synced]; rfl
    have now : (r.receive segment).isn.isSome = true := (r.isn_receive segment).mpr (.inl before)
    have stands : r.heardTo = r.ackPosition := if_pos before
    rw [heardTo, if_pos now, stands]
    rw [stands] at covers place
    cases ended : r.stream.inputEnded with
    | true =>
      have empty := follows.space_eq_zero ended covers
      rw [empty, Nat.add_zero]
      unfold Segment.space at empty
      have payload : segment.payload = [] := List.length_eq_zero_iff.mp (by omega)
      have noFin : segment.flags.fin = false := Bool.toNat_eq_zero.mp (by omega)
      exact inStep.receive_bare payload noFin fun unsynced => by simp [unsynced] at now
    | false =>
      have noSyn : segment.flags.syn = false := by
        by_contra syn
        have start := (covers.syn (eq_true_of_ne_false syn)).2.1
        rw [ackPosition] at start
        omega
      exact inStep.receive_data follows synced ended covers place noSyn room

theorem failed_receive (r : Receiver) (segment : Segment) :
    (r.receive segment).stream.failed = r.stream.failed := by
  unfold stream
  rcases r.receive_cases segment with same | ⟨_, inserted⟩
  · rw [same]
  · rw [inserted]
    exact (r.reassembler.insert_alike segment.payload (r.place segment) segment.flags.fin).failed

end Receiver

namespace Connection

variable {c : Connection} {op : Op} {reply : Reply} {asked : List Sender.Op}
  {fed : List Receiver.Op} {segment : Segment}

def Op.Calm : Op → Prop
  | .connect | .write _ | .finish => True
  | .receive segment => segment.flags.rst = false
  | _ => False

theorem calm_answerOps (c : Connection) (segment : Segment) :
    ∀ request ∈ c.answerOps segment, request.Calm := by
  intro request member
  rcases mem_answerOps member with rfl | ⟨_, rfl⟩ <;> trivial

theorem Carries.calm (carries : c.Carries op reply asked fed) (calm : op.Calm) :
    ∀ request ∈ asked, request.Calm := by
  intro request member
  cases carries with
  | ignored | deaf => cases member
  | connect =>
    rw [List.mem_singleton.mp member]
    trivial
  | write =>
    rcases List.mem_cons.mp member with rfl | sends
    · trivial
    · rw [List.mem_ite_nil_left, List.mem_singleton] at sends
      rw [sends.2]
      trivial
  | finish =>
    rcases List.mem_cons.mp member with rfl | sends
    · trivial
    · rw [List.mem_ite_nil_right, List.mem_singleton] at sends
      rw [sends.2]
      trivial
  | receive _ _ bare =>
    rcases List.mem_append.mp member with answers | closes
    · exact c.calm_answerOps _ request answers
    · rw [bare _ closes]
      trivial
  | reset _ rst => simp [Op.Calm, rst] at calm
  | tick | giveUp | abort | read => exact calm.elim

theorem Carries.fed_calm (carries : c.Carries op reply asked fed) (calm : op.Calm) :
    fed = [] ∨ ∃ segment, op = .receive segment ∧ fed = [.receive segment] := by
  cases carries with
  | ignored | deaf | connect | write | finish => exact .inl rfl
  | receive => exact .inr ⟨_, rfl, rfl⟩
  | reset _ rst => simp [Op.Calm, rst] at calm
  | tick | giveUp | abort | read => exact calm.elim

theorem Carries.kept_of_inactive (carries : c.Carries op reply asked fed)
    (inactive : c.active = false) :
    (c.sender.run asked).next = c.sender.next ∧ (c.sender.run asked).acked = c.sender.acked := by
  cases carries with
  | ignored | deaf | read => exact ⟨rfl, rfl⟩
  | finish =>
    rw [inactive, Bool.false_and]
    exact ⟨rfl, rfl⟩
  | connect active | write active | receive active | reset active | tick active | giveUp active
    | abort active => simp [inactive] at active

theorem Carries.opened (carries : c.Carries op reply asked fed) (calm : op.Calm)
    (before : c.receiver.isn.isSome = true → c.sender.next ≠ 0)
    (synced : (c.receiver.run fed).isn.isSome = true) : (c.sender.run asked).next ≠ 0 := by
  have later := (c.sender.run_advances asked).next
  cases carries with
  | ignored | deaf | connect | write | finish =>
    have opened := before synced
    omega
  | @receive segment closing =>
    rcases (c.receiver.isn_receive segment).mp synced with early | syn
    · have opened := before early
      omega
    · have opened := (not_congr (c.openingOps_next segment)).mpr (by simp [syn])
      have following := ((c.sender.run (c.openingOps segment)).run_advances
        ((if segment.flags.ack then .acknowledge segment.ackno segment.window ::
          if c.isUnopened && !segment.flags.syn then [] else [.transmit] else []) ++ closing)).next
      rw [← Sender.run_append, ← List.append_assoc] at following
      unfold answerOps
      omega
  | reset _ rst => simp [Op.Calm, rst] at calm
  | tick | giveUp | abort | read => exact calm.elim

end Connection

end Tcp

end NetStack
