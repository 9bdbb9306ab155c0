import NetStack.Proofs.Machine.Connection
import NetStack.Proofs.Tcp.Advertising
import NetStack.Proofs.Tcp.Linger
import NetStack.Proofs.Tcp.Patience
import NetStack.Proofs.Tcp.Renumbering

namespace NetStack.Tcp

open Machine

namespace Sender

variable {s : Sender}

structure Continues (before after : Sender) : Prop where
  written : before.stream.totalWritten ≤ after.stream.totalWritten
  capacity : after.stream.capacity = before.stream.capacity

theorem Continues.ofStream {before after : Sender} (same : after.stream = before.stream) :
    before.Continues after := by
  constructor <;> rw [same]

theorem Continues.trans {before between after : Sender} (first : before.Continues between)
    (second : between.Continues after) : before.Continues after where
  written := Nat.le_trans first.written second.written
  capacity := second.capacity.trans first.capacity

theorem transmit_continues (s : Sender) : s.Continues s.transmit := by
  apply transmit_induction (P := s.Continues)
  · exact .ofStream rfl
  · intro before after emits soFar
    apply soFar.trans
    cases emits with
    | syn | fin => exact .ofStream rfl
    | chunk => exact ⟨by simp, by simp⟩

theorem step_continues (s : Sender) (op : Op) : s.Continues (s.step op).2 := by
  cases op with
  | transmit => exact s.transmit_continues
  | acknowledge ackno window =>
    show s.Continues (s.acknowledge ackno window)
    obtain ⟨_, same⟩ | ⟨_, _, told⟩ | ⟨_, _, retired⟩ := s.acknowledge_cases ackno window rfl
    · rw [same]
      exact .ofStream rfl
    · rw [told]
      exact .ofStream rfl
    · rw [retired]
      have kept : s.Continues (s.retire (ackno.positionNear s.isn s.acked) window) := .ofStream rfl
      exact kept.trans (transmit_continues _)
  | tick span =>
    obtain ⟨_, _, _, ticked⟩ := s.tick_eq span
    show s.Continues (s.tick span)
    rw [ticked]
    exact .ofStream rfl
  | sendEmpty | sendReset => exact .ofStream rfl
  | input op => exact ⟨s.stream.totalWritten_le_step op, s.stream.capacity_step op⟩

theorem run_continues (s : Sender) (ops : List Op) : s.Continues (s.run ops) := by
  induction ops generalizing s with
  | nil => exact .ofStream rfl
  | cons op rest ih => exact (s.step_continues op).trans (ih _)

theorem fits_input (op : ByteStream.Op) (leaves : (Op.input op).LeavesBytes)
    (accounted : s.Accounted) (faithful : ∃ accepted, s.Faithful accepted)
    (small : s.stream.capacity ≤ sliceLimit)
    (counted : (s.step (.input op)).2.stream.totalWritten + 2 < wordLimit) :
    (s.step (.input op)).2.Fits where
  accounted := accounted.step _
  faithful := by
    obtain ⟨accepted, faithful⟩ := faithful
    exact ⟨_, (faithful.step leaves).1⟩
  small := by
    rw [(s.step_continues (.input op)).capacity]
    exact small
  counted := counted

end Sender

namespace Connection

variable {c : Connection} {op : Op}

structure Regular (c : Connection) : Prop where
  sound : c.Sound
  bounded : c.receiver.reassembler.Bounded
  rested : c.inbound.Rested
  inboundSize : c.inbound.capacity ≤ sliceLimit
  outboundSize : c.outbound.capacity ≤ sliceLimit
  patience : c.maxRetransmissions + 1 < retryLimit
  retries : c.active = true → c.sender.timer.retries ≤ c.maxRetransmissions

theorem ofStorage_regular (config : Config) {inbound outbound : Array UInt8}
    (inboundSize : inbound.size ≤ sliceLimit) (outboundSize : outbound.size ≤ sliceLimit)
    (patience : config.maxRetransmissions + 1 < retryLimit) :
    (ofStorage config inbound outbound).Regular where
  sound := ofStorage_sound config inbound outbound
  bounded := by simp [ofStorage, Receiver.ofStream, Reassembler.ofStream, Reassembler.Bounded]
  rested := ByteStream.rested_ofStorage inbound
  inboundSize := inboundSize
  outboundSize := outboundSize
  patience := patience
  retries := fun _ => Nat.zero_le _

theorem Regular.reassembler_step (regular : c.Regular) (op : Op) :
    (c.step op).2.receiver.reassembler.Bounded ∧ (c.step op).2.inbound.Rested := by
  have tidy := regular.sound.tidy
  unfold Connection.inbound Receiver.stream
  rcases receiver_step regular.sound op with same | ⟨segment, _, _, taken⟩ | failed | ⟨count, read⟩
  · rw [same]
    exact ⟨regular.bounded, regular.rested⟩
  · rw [taken]
    rcases c.receiver.receive_cases segment with kept | ⟨_, inserted⟩
    · rw [kept]
      exact ⟨regular.bounded, regular.rested⟩
    · rw [inserted]
      exact ⟨regular.bounded.insert tidy _ _ _, Reassembler.rested_insert regular.rested _ _ _⟩
  · rw [failed]
    exact ⟨regular.bounded, regular.rested⟩
  · rw [read]
    exact ⟨regular.bounded.pop count, c.inbound.rested_pop count⟩

theorem Regular.step (regular : c.Regular) (op : Op) : (c.step op).2.Regular := by
  obtain ⟨asked, _, _, does⟩ := c.step_carries op regular.sound.ready
  have inbound := (step_progresses regular.sound op).capacity
  have outbound : (c.step op).2.outbound.capacity = c.outbound.capacity := by
    unfold Connection.outbound
    rw [does.sender]
    exact (c.sender.run_continues asked).capacity
  have kept := maxRetransmissions_step c op
  exact {
    sound := regular.sound.step op
    bounded := (regular.reassembler_step op).1
    rested := (regular.reassembler_step op).2
    inboundSize := Nat.le_trans (Nat.le_of_eq inbound) regular.inboundSize
    outboundSize := Nat.le_trans (Nat.le_of_eq outbound) regular.outboundSize
    patience := by
      rw [kept]
      exact regular.patience
    retries := by
      rw [kept]
      exact retries_le regular.sound regular.retries op }

theorem edge_step_le (sound : c.Sound) (op : Op) :
    c.receiver.reassembler.edge ≤ (c.step op).2.receiver.reassembler.edge := by
  have progresses := step_progresses sound op
  exact Nat.add_le_add progresses.totalRead (Nat.le_of_eq progresses.capacity.symm)

theorem Counted.of_step (sound : c.Sound) (counted : (c.step op).2.Counted) : c.Counted := by
  obtain ⟨asked, fed, carries, does⟩ := c.step_carries op sound.ready
  have continues := c.sender.run_continues asked
  constructor
  · have later := counted.outbound
    unfold Connection.outbound at later ⊢
    rw [does.sender] at later
    exact Nat.lt_of_le_of_lt (Nat.add_le_add_right continues.written 2) later
  · exact Nat.lt_of_le_of_lt (Nat.add_le_add_right (edge_step_le sound op) 2) counted.inbound

theorem Counted.of_run (sound : c.Sound) {ops : List Op} (counted : (c.run ops).Counted) :
    c.Counted := by
  induction ops generalizing c with
  | nil => exact counted
  | cons op rest ih => exact .of_step sound (ih (sound.step op) counted)

theorem Regular.fits (regular : c.Regular) (counted : c.Counted) : c.sender.Fits :=
  ⟨regular.sound.accounted, regular.sound.faithful, regular.outboundSize, counted.outbound⟩

theorem Regular.fits_write (regular : c.Regular) {data : Bytes}
    (counted : (c.step (.write data)).2.Counted)
    (usable : (c.active && !c.outbound.inputEnded && !c.outbound.failed) = true) :
    (c.withOutbound (c.outbound.write data).2).sender.Fits := by
  apply Sender.fits_input (.write data) trivial regular.sound.accounted regular.sound.faithful
    regular.outboundSize
  show (c.outbound.write data).2.totalWritten + 2 < wordLimit
  have later := counted.outbound
  rw [step_write, if_pos usable] at later
  dsimp only at later
  split at later
  · exact later
  · have kept := (Sender.transmit_continues
      { c.sender with stream := (c.outbound.write data).2 }).written
    exact Nat.lt_of_le_of_lt (Nat.add_le_add_right kept 2) later

theorem machine_step (regular : c.Regular) (counted : (c.step op).2.Counted)
    (short : ∀ segment, op = .receive segment → segment.payload.length ≤ sliceLimit)
    (reached : ∀ arrival ∈ c.arrivalsBy op, arrival.stop + 1 < wordLimit) :
    c.machine.step op = some ((c.step op).1, (c.step op).2.machine) := by
  have before := Counted.of_step regular.sound counted
  have fits := regular.fits before
  have inbound := before.inbound
  have done {after : Option Machine.Connection} {next : Connection}
      (same : after = some next.machine) :
      (after.bind fun after => some (Reply.done, after)) = some (Reply.done, next.machine) := by
    rw [same]
    rfl
  cases op with
  | connect => exact machine_connect fits inbound
  | write data =>
    exact machine_write regular.outboundSize inbound fun active unended usable =>
      regular.fits_write counted (by simp [active, unended, usable])
  | finish =>
    refine done (machine_finish ?_ inbound)
    exact Sender.fits_input .endInput trivial regular.sound.accounted
      regular.sound.faithful regular.outboundSize before.outbound
  | receive segment =>
    have assembles : c.receiver.reassembler.Fits :=
      ⟨regular.sound.tidy, regular.bounded, regular.inboundSize, by omega⟩
    exact done (machine_receive fits assembles inbound (short segment rfl) reached)
  | tick span =>
    have patience := regular.patience
    refine done (machine_tick fits inbound fun active => ?_)
    have tolerated := regular.retries active
    omega
  | abort => exact done (machine_abort before)
  | read count =>
    have written : c.inbound.totalWritten ≤ c.receiver.reassembler.edge := c.receiver.written_le
    have read := machine_read count regular.inboundSize (by omega) regular.rested
    show ((c.machine.read count).bind fun read => some (Reply.bytes read.1, read.2)) = _
    rw [read]
    rfl
  | dispatch limit =>
    show some (Reply.dispatched (c.machine.dispatch limit).1, (c.machine.dispatch limit).2) = _
    rw [machine_dispatch]
    rfl
  | wait => rfl

theorem machine_run (regular : c.Regular) {ops : List Op} (counted : (c.run ops).Counted)
    (short : ∀ segment, .receive segment ∈ ops → segment.payload.length ≤ sliceLimit)
    (reached : ∀ arrival ∈ c.arrivals ops, arrival.stop + 1 < wordLimit) :
    c.machine.run ops = some (c.replies ops, (c.run ops).machine) := by
  induction ops generalizing c with
  | nil => rfl
  | cons op rest ih =>
    have next := regular.step op
    obtain ⟨now, later⟩ := List.forall_mem_append.mp reached
    have stepped := machine_step regular (.of_run next.sound counted)
      (fun segment heard => short segment (by rw [heard]; exact List.mem_cons_self)) now
    have ran := ih next counted (fun segment heard => short segment (List.mem_cons_of_mem _ heard))
      later
    unfold Machine.Connection.run
    simp only [Option.bind_eq_bind]
    rw [stepped, Option.bind_some, ran, Option.bind_some]
    rfl

/-- Whatever a peer and an application do, a connection runs on a machine without a fault, and every
    loop ends: it gives the replies and comes to the state that it is meant to. No storage and no
    payload is longer than a slice, the retransmissions that are tolerated are counted in 32 bits
    with one to spare, and no position overflows a word. -/
theorem run_without_fault (config : Config) (inbound outbound : Array UInt8) (ops : List Op)
    (inboundSize : inbound.size ≤ sliceLimit) (outboundSize : outbound.size ≤ sliceLimit)
    (short : ∀ segment, .receive segment ∈ ops → segment.payload.length ≤ sliceLimit)
    (patience : config.maxRetransmissions + 1 < retryLimit)
    (counted : ((ofStorage config inbound outbound).run ops).Counted)
    (reached : ∀ arrival ∈ (ofStorage config inbound outbound).arrivals ops,
      arrival.stop + 1 < wordLimit) :
    (Machine.Connection.ofStorage config inbound.toList outbound.toList).run ops =
      some ((ofStorage config inbound outbound).replies ops,
        ((ofStorage config inbound outbound).run ops).machine) :=
  machine_run (ofStorage_regular config inboundSize outboundSize patience) counted short reached

def cramped : Config where
  timeout := .zero
  maxRetransmissions := 1
  maxPayload := 0
  isn := some ⟨0xffffffff⟩

/-- The peer ends its stream early, sends more than there is room for, acknowledges what was never
    sent, and claims positions half a turn away. -/
def storming : List Op :=
  [.connect, .write [1, 2, 3, 4],
    .receive {
      seqno := ⟨7⟩, ackno := ⟨0⟩, payload := [5, 6, 7, 8, 9]
      flags := { syn := true, ack := true, fin := true } },
    .receive {
      seqno := ⟨11⟩, ackno := ⟨0x80000000⟩, window := 9, payload := [9, 9, 9]
      flags := { ack := true } },
    .receive {
      seqno := ⟨0x80000007⟩, ackno := ⟨0⟩, payload := [3], flags := { fin := true, ack := true } },
    .tick .zero, .read 9, .dispatch (some 2), .finish, .tick .zero, .tick .zero, .abort]

theorem run_without_fault_cramped : ∃ answers last,
    (Machine.Connection.ofStorage cramped [0, 0, 0] []).run storming = some (answers, last) ∧
      answers.length = 12 ∧ last.receiver.stream.totalRead = 3 ∧ last.active = false := by
  have short : ∀ segment, .receive segment ∈ storming → segment.payload.length ≤ sliceLimit := by
    intro segment heard
    simp only [storming, List.mem_cons, Op.receive.injEq, reduceCtorEq, List.not_mem_nil, false_or,
      or_false] at heard
    rcases heard with rfl | rfl | rfl <;> decide
  have ran := run_without_fault cramped #[0, 0, 0] #[] storming (by decide) (by decide) short
    (by decide) ⟨by decide +kernel, by decide +kernel⟩ (by decide +kernel)
  refine ⟨_, _, ran, ?_, ?_, ?_⟩
  · decide +kernel
  · decide +kernel
  · decide +kernel

end Connection

end NetStack.Tcp
