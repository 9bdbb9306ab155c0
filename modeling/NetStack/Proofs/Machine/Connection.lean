import NetStack.Proofs.Machine.Reassembler
import NetStack.Proofs.Machine.Sender
import NetStack.Proofs.Stream.Acceptance
import NetStack.Proofs.Tcp.Arrivals

namespace NetStack

open Tcp

namespace Machine

structure Receiver where
  reassembler : Reassembler
  isn : Option SeqNo

namespace Receiver

def stream (r : Receiver) : Stream := r.reassembler.output

def withStream (r : Receiver) (stream : Stream) : Receiver :=
  { r with reassembler := { r.reassembler with output := stream } }

def ackno? (r : Receiver) : Option (Option SeqNo) :=
  match r.isn with
  | none => some none
  | some isn => do
    let position ← add (← add r.stream.totalWritten 1) r.stream.inputEnded.toNat
    some (some (.ofPosition position isn))

def accept (r : Receiver) (isn : SeqNo) (segment : Segment) : Option Receiver := do
  let position ← position segment.seqno isn (← add r.stream.totalWritten 1)
  if position = 0 ∧ segment.flags.syn = false then some { r with isn := some isn }
  else
    let index ← sub (← add position segment.flags.syn.toNat) 1
    let reassembler ← r.reassembler.insert segment.payload index segment.flags.fin
    some ⟨reassembler, some isn⟩

def receive (r : Receiver) (segment : Segment) : Option Receiver :=
  match r.isn with
  | some isn => r.accept isn segment
  | none => if segment.flags.syn then r.accept segment.seqno segment else some r

def state (r : Receiver) : Receiver.State :=
  if r.stream.failed then .failed
  else if r.isn.isNone then .listen
  else if r.stream.inputEnded then .finReceived
  else .synReceived

end Receiver

structure Connection where
  sender : Sender
  receiver : Receiver
  queue : List Segment
  timeout : Duration
  maxRetransmissions : Nat
  active : Bool
  established : Bool
  lingers : Bool
  idle : Duration

namespace Connection

def ofStorage (config : Config) (inbound outbound : Bytes) : Connection where
  sender := {
    isn := config.initialSeqno
    stream := .ofStorage outbound
    timer := .ofTimeout config.timeout
    maxPayload := config.maxPayload
    next := 0
    acked := 0
    window := 1
    inFlight := 0
    outstanding := []
    queue := [] }
  receiver := ⟨⟨.ofStorage inbound, [], 0, 0, none⟩, none⟩
  queue := []
  timeout := config.timeout
  maxRetransmissions := config.maxRetransmissions
  active := true
  established := false
  lingers := true
  idle := .zero

def withOutbound (c : Connection) (stream : Stream) : Connection :=
  { c with sender := { c.sender with stream } }

def isUnopened (c : Connection) : Bool := c.sender.next == 0

def state (c : Connection) : Option Connection.State := do
  let sending ← c.sender.state
  some <|
    match sending, c.receiver.state with
    | .failed, _ | _, .failed => .reset
    | sending, receiving =>
      if !c.active then .closed
      else
        match sending, receiving with
        | .closed, _ => .listen
        | _, .listen => .synSent
        | .synSent, _ => .synReceived
        | .synAcked, .synReceived => .established
        | .synAcked, _ => .closeWait
        | .finSent, .synReceived => .finWait1
        | .finSent, _ => if c.lingers then .closing else .lastAck
        | _, .synReceived => .finWait2
        | _, _ => .timeWait

/-- The state is derived after every operation, and only told. -/
def tell (c : Connection) : Option Connection := do
  let _ ← c.state
  some c

def stamp (ackno : Option SeqNo) (window : UInt16) (segment : Segment) : Segment :=
  match ackno with
  | some ackno => { segment with flags := { segment.flags with ack := true }, ackno, window }
  | none => { segment with window }

def move (ackno : Option SeqNo) (window : UInt16) (moved : List Segment) :
    List Segment → List Segment
  | [] => moved
  | segment :: rest => move ackno window (moved ++ [stamp ackno window segment]) rest

def flush (c : Connection) : Option Connection := do
  let ackno ← c.receiver.ackno?
  let room ← c.receiver.stream.room
  let queue := move ackno (.ofNat (min room 0xffff)) c.queue c.sender.queue
  some { c with queue, sender := { c.sender with queue := [] } }

def outboundComplete (c : Connection) : Option Bool :=
  if c.sender.stream.atEnd then do
    let stop ← add c.sender.stream.totalWritten 2
    some (c.sender.next == stop && c.sender.inFlight == 0)
  else some false

def settle (c : Connection) : Option Connection := do
  let inboundComplete := c.receiver.reassembler.unassembled == 0 && c.receiver.stream.inputEnded
  let outboundComplete ← c.outboundComplete
  let lingers := c.lingers && !(inboundComplete && !c.sender.stream.atEnd)
  let ended := inboundComplete && outboundComplete &&
    (!lingers || decide (c.timeout.scale 10 ≤ c.idle))
  some { c with lingers, active := c.active && !ended }

def conclude (c : Connection) : Option Connection := do
  (← (← c.flush).settle).tell

def transmit (c : Connection) : Option Connection := do
  some { c with sender := ← c.sender.transmit }

def push (c : Connection) : Option Connection := do
  (← (← c.transmit).flush).tell

def pushOpened (c : Connection) : Option Connection := if c.isUnopened then c.tell else c.push

def failStreams (c : Connection) : Connection :=
  { c.withOutbound c.sender.stream.fail with
    receiver := c.receiver.withStream c.receiver.stream.fail }

def connect (c : Connection) : Option (Connection.Reply × Connection) :=
  if c.active && c.isUnopened then do
    let c ← c.push
    some (.done, c)
  else some (.refused .cannotConnect, c)

def write (c : Connection) (data : Bytes) : Option (Connection.Reply × Connection) :=
  if c.active && !c.sender.stream.inputEnded && !c.sender.stream.failed then do
    let (written, stream) ← c.sender.stream.write data
    let c ← (c.withOutbound stream).pushOpened
    some (.count written, c)
  else some (.refused .cannotWrite, c)

def finish (c : Connection) : Option Connection :=
  let ended := c.withOutbound c.sender.stream.endInput
  if c.active && !c.isUnopened then do
    (← ended.transmit).conclude
  else ended.tell

def receiveReset (c : Connection) : Option Connection :=
  let failed := c.failStreams
  tell { failed with sender := { failed.sender with queue := [] }, queue := [], active := false }

def openFor (c : Connection) (segment : Segment) : Option Connection :=
  if segment.flags.syn && c.isUnopened then c.transmit else some c

def note (c : Connection) (segment : Segment) : Option Connection :=
  if segment.flags.ack then do
    let sender ← c.sender.acknowledge segment.ackno segment.window
    let noted := { c with established := true, sender }
    if sender.next = 0 then some noted else noted.transmit
  else some c

def confirm (c : Connection) (segment : Segment) : Option Connection := do
  let ackno ← c.receiver.ackno?
  let length ← space segment
  let asks := length == 0 && ackno == some (segment.seqno.advance 1)
  if (decide (0 < length) || asks) && c.sender.queue.isEmpty && ackno.isSome then
    some { c with sender := c.sender.sendEmpty }
  else some c

def answer (c : Connection) (segment : Segment) : Option Connection := do
  (← (← c.openFor segment).note segment).confirm segment

def receive (c : Connection) (segment : Segment) : Option Connection :=
  if c.active then do
    let ackno ← c.receiver.ackno?
    if ackno.isNone && c.isUnopened && !segment.flags.syn then some c
    else if segment.flags.rst then c.receiveReset
    else
      let receiver ← c.receiver.receive segment
      (← answer { c with idle := .zero, receiver } segment).conclude
  else some c

def abort (c : Connection) : Option Connection :=
  if c.active then do
    let failed := c.failStreams
    let flushed ← flush { failed with sender := failed.sender.sendReset }
    tell { flushed with active := false }
  else some c

def tick (c : Connection) (span : Duration) : Option Connection :=
  if c.active then do
    let sender ← c.sender.tick span
    let ticked := { c with idle := c.idle + span, sender }
    if c.maxRetransmissions < sender.timer.retries then ticked.abort else ticked.conclude
  else some c

def read (c : Connection) (count : Nat) : Option (Bytes × Connection) := do
  let (size, buffer, stream) ← c.receiver.stream.readSlice (List.replicate count 0)
  some (buffer.take size, { c with receiver := c.receiver.withStream stream })

def hand (limit : Option Nat) (accepted : List Segment) : List Segment → List Segment × List Segment
  | [] => (accepted, [])
  | segment :: rest =>
    if limit = some 0 then (accepted, segment :: rest)
    else hand (limit.map (· - 1)) (accepted ++ [segment]) rest

def dispatch (c : Connection) (limit : Option Nat) : Connection.Dispatch × Connection :=
  let (accepted, rest) := hand limit [] c.queue
  (⟨accepted, rest.head?⟩, { c with queue := rest })

def step (c : Connection) : Connection.Op → Option (Connection.Reply × Connection)
  | .connect => c.connect
  | .write data => c.write data
  | .finish => do some (.done, ← c.finish)
  | .receive segment => do some (.done, ← c.receive segment)
  | .tick span => do some (.done, ← c.tick span)
  | .abort => do some (.done, ← c.abort)
  | .read count => do
    let (data, c) ← c.read count
    some (.bytes data, c)
  | .dispatch limit =>
    let (result, c) := c.dispatch limit
    some (.dispatched result, c)
  | .wait => some (.done, c)

def run (c : Connection) : List Connection.Op → Option (List Connection.Reply × Connection)
  | [] => some ([], c)
  | op :: rest => do
    let (reply, c) ← c.step op
    let (replies, c) ← run c rest
    some (reply :: replies, c)

end Connection

end Machine

namespace Tcp

open Machine

namespace Receiver

def machine (r : Receiver) : Machine.Receiver := ⟨r.reassembler.machine, r.isn⟩

variable {r : Receiver} {segment : Segment}

theorem written_le (r : Receiver) : r.stream.totalWritten ≤ r.reassembler.edge :=
  Nat.add_le_add_left r.stream.size_le _

theorem machine_ackno? (counted : r.reassembler.edge + 2 < wordLimit) :
    r.machine.ackno? = some r.ackno? := by
  have written := r.written_le
  have ended := r.stream.inputEnded.toNat_le
  unfold Machine.Receiver.ackno? ackno?
  change (match r.isn with
    | none => some none
    | some isn => (add r.stream.totalWritten 1).bind fun start =>
      (add start r.stream.inputEnded.toNat).bind fun position =>
        some (some (SeqNo.ofPosition position isn))) = _
  cases r.isn with
  | none => rfl
  | some isn =>
    dsimp only
    rw [add_eq (by omega), Option.bind_some, add_eq (by omega), Option.bind_some]
    rfl

theorem machine_accept {isn : SeqNo} (fits : r.reassembler.Fits)
    (counted : r.reassembler.edge + 2 < wordLimit) (known : r.isn.getD segment.seqno = isn)
    (synced : segment.flags.syn = true ∨ r.isn.isSome = true)
    (reached : r.admits segment = true → r.reach segment + 1 < wordLimit) :
    r.machine.accept isn segment = some (r.accept isn segment).machine := by
  have written := r.written_le
  have place : r.place segment = segment.seqno.positionNear isn (r.stream.totalWritten + 1) +
      segment.flags.syn.toNat - 1 := by
    rw [place, known]
  have nearest := position_eq segment.seqno isn (r.stream.totalWritten + 1) (by omega)
  unfold Machine.Receiver.accept accept
  simp only [Option.bind_eq_bind]
  change ((add r.stream.totalWritten 1).bind fun checkpoint =>
    (Machine.position segment.seqno isn checkpoint).bind fun position =>
      if position = 0 ∧ segment.flags.syn = false then some { r.machine with isn := some isn }
      else (add position segment.flags.syn.toNat).bind fun stop => (sub stop 1).bind fun index =>
        (r.reassembler.machine.insert segment.payload index segment.flags.fin).bind
          fun reassembler => some ⟨reassembler, some isn⟩) = _
  unfold admits reach at reached
  rw [known, place] at reached
  rw [add_eq (by omega), Option.bind_some, nearest, Option.bind_some]
  generalize segment.seqno.positionNear isn (r.stream.totalWritten + 1) = position at *
  by_cases unmarked : position = 0 ∧ segment.flags.syn = false
  · rw [if_pos unmarked, if_pos unmarked]
    rfl
  · have positive : 1 ≤ position + segment.flags.syn.toNat := by
      cases syn : segment.flags.syn with
      | true => exact Nat.le_add_left _ _
      | false =>
        have moved : position ≠ 0 := fun zero => unmarked ⟨zero, syn⟩
        omega
    have stop := reached <| by
      cases syn : segment.flags.syn with
      | true => rfl
      | false =>
        have moved : position ≠ 0 := fun zero => unmarked ⟨zero, syn⟩
        simpa [syn, moved] using synced
    have inserted : r.reassembler.machine.insert segment.payload
        (position + segment.flags.syn.toNat - 1) segment.flags.fin = _ :=
      Reassembler.machine_insert fits (by omega) segment.flags.fin
    rw [if_neg unmarked, if_neg unmarked, add_eq (by omega), Option.bind_some, sub_eq positive,
      Option.bind_some, inserted]
    rfl

theorem machine_receive (fits : r.reassembler.Fits)
    (counted : r.reassembler.edge + 2 < wordLimit)
    (reached : r.admits segment = true → r.reach segment + 1 < wordLimit) :
    r.machine.receive segment = some (r.receive segment).machine := by
  unfold Machine.Receiver.receive receive
  change (match r.isn with
    | some isn => r.machine.accept isn segment
    | none => if segment.flags.syn then r.machine.accept segment.seqno segment
      else some r.machine) = _
  cases synced : r.isn with
  | some isn =>
    exact machine_accept fits counted (by rw [synced, Option.getD_some])
      (.inr (by rw [synced, Option.isSome_some])) reached
  | none =>
    cases syn : segment.flags.syn with
    | true =>
      exact machine_accept fits counted (by rw [synced, Option.getD_none]) (.inl syn) reached
    | false => rfl

theorem edge_receive (r : Receiver) (segment : Segment) :
    (r.receive segment).reassembler.edge = r.reassembler.edge := by
  rcases r.receive_cases segment with same | ⟨_, inserted⟩
  · rw [same]
  · rw [inserted, Reassembler.edge_insert]

end Receiver

namespace Connection

def machine (c : Connection) : Machine.Connection where
  sender := c.sender.machine
  receiver := c.receiver.machine
  queue := c.queue
  timeout := c.timeout
  maxRetransmissions := c.maxRetransmissions
  active := c.active
  established := c.established
  lingers := c.lingers
  idle := c.idle

def withOutbound (c : Connection) (stream : ByteStream) : Connection :=
  { c with sender := { c.sender with stream } }

/-- The positions of all that was written and of all that there is room for fit in words, each with
    a SYN before it and a FIN behind it. -/
structure Counted (c : Connection) : Prop where
  outbound : c.outbound.totalWritten + 2 < wordLimit
  inbound : c.receiver.reassembler.edge + 2 < wordLimit

variable {c : Connection} {segment : Segment}

theorem Counted.flush (counted : c.Counted) : c.flush.Counted := ⟨counted.outbound, counted.inbound⟩

theorem Counted.settle (counted : c.Counted) : c.settle.Counted :=
  ⟨counted.outbound, counted.inbound⟩

theorem machine_state (counted : c.Counted) : c.machine.state = some c.state := by
  unfold Machine.Connection.state state
  change (c.sender.machine.state.bind _) = _
  rw [Sender.machine_state counted.outbound, Option.bind_some]
  change some (match c.sender.state, c.receiver.state with
    | .failed, _ | _, .failed => _
    | sending, receiving => _) = _
  cases c.sender.state <;> cases c.receiver.state <;> rfl

theorem machine_tell (counted : c.Counted) : c.machine.tell = some c.machine := by
  unfold Machine.Connection.tell
  rw [machine_state counted]
  rfl

theorem move_eq (ackno : Option SeqNo) (window : UInt16) (moved queue : List Segment) :
    Machine.Connection.move ackno window moved queue =
      moved ++ queue.map (Machine.Connection.stamp ackno window) := by
  induction queue generalizing moved with
  | nil => exact (List.append_nil _).symm
  | cons segment rest ih =>
    rw [Machine.Connection.move, ih, List.append_assoc]
    rfl

theorem machine_flush (counted : c.Counted) : c.machine.flush = some c.flush.machine := by
  have ackno := Receiver.machine_ackno? counted.inbound
  have room : c.receiver.stream.machine.room = some c.receiver.stream.room :=
    c.receiver.stream.machine_room
  have stamped :
      Machine.Connection.stamp c.receiver.ackno? c.receiver.advertisedWindow = c.stamp := by
    funext segment
    unfold Machine.Connection.stamp Connection.stamp
    cases c.receiver.ackno? <;> rfl
  unfold Machine.Connection.flush
  simp only [Option.bind_eq_bind]
  change (c.receiver.machine.ackno?.bind fun ackno =>
    c.receiver.stream.machine.room.bind fun room => some { c.machine with
      queue := Machine.Connection.move ackno (.ofNat (min room 0xffff)) c.queue c.sender.queue
      sender := { c.sender.machine with queue := [] } }) = _
  rw [ackno, Option.bind_some, room, Option.bind_some, move_eq]
  change some { c.machine with
    queue := c.queue ++ c.sender.queue.map
      (Machine.Connection.stamp c.receiver.ackno? c.receiver.advertisedWindow)
    sender := { c.sender.machine with queue := [] } } = _
  rw [stamped]
  rfl

theorem machine_settle (counted : c.Counted) : c.machine.settle = some c.settle.machine := by
  have complete : c.machine.outboundComplete = some c.outboundComplete := by
    unfold Machine.Connection.outboundComplete outboundComplete
    change (if c.outbound.atEnd then (add c.outbound.totalWritten 2).bind fun stop =>
      some (c.sender.next == stop && c.sender.inFlight == 0) else some false) = _
    rw [add_eq counted.outbound, Option.bind_some]
    cases c.outbound.atEnd <;> rfl
  unfold Machine.Connection.settle
  simp only [Option.bind_eq_bind]
  rw [complete]
  rfl

theorem machine_conclude (counted : c.Counted) :
    c.machine.conclude = some c.flush.settle.machine := by
  unfold Machine.Connection.conclude
  simp only [Option.bind_eq_bind]
  rw [machine_flush counted, Option.bind_some, machine_settle counted.flush, Option.bind_some,
    machine_tell counted.flush.settle]

theorem machine_transmit (fits : c.sender.Fits) :
    c.machine.transmit = some ({ c with sender := c.sender.transmit } : Connection).machine := by
  unfold Machine.Connection.transmit
  show (c.sender.machine.transmit.bind _) = _
  rw [Sender.machine_transmit fits]
  rfl

theorem machine_push (fits : c.sender.Fits)
    (inbound : c.receiver.reassembler.edge + 2 < wordLimit) :
    c.machine.push = some ({ c with sender := c.sender.transmit } : Connection).flush.machine := by
  have sent : ({ c with sender := c.sender.transmit } : Connection).Counted :=
    ⟨fits.transmit.counted, inbound⟩
  unfold Machine.Connection.push
  simp only [Option.bind_eq_bind]
  rw [machine_transmit fits, Option.bind_some, machine_flush sent, Option.bind_some,
    machine_tell sent.flush]

theorem machine_pushOpened (fits : c.sender.Fits)
    (inbound : c.receiver.reassembler.edge + 2 < wordLimit) :
    c.machine.pushOpened = some (if c.isUnopened then c
      else ({ c with sender := c.sender.transmit } : Connection).flush).machine := by
  unfold Machine.Connection.pushOpened
  change (if c.isUnopened = true then _ else _) = _
  rw [machine_tell ⟨fits.counted, inbound⟩, machine_push fits inbound]
  split <;> rfl

theorem machine_connect (fits : c.sender.Fits)
    (inbound : c.receiver.reassembler.edge + 2 < wordLimit) :
    c.machine.connect = some ((c.step .connect).1, (c.step .connect).2.machine) := by
  rw [step_connect]
  unfold Machine.Connection.connect
  change (if (c.active && c.isUnopened) = true then _ else _) = _
  simp only [Option.bind_eq_bind]
  by_cases opens : (c.active && c.isUnopened) = true
  · rw [if_pos opens, if_pos opens, machine_push fits inbound, Option.bind_some]
  · rw [if_neg opens, if_neg opens]

theorem machine_write {data : Bytes} (small : c.outbound.capacity ≤ sliceLimit)
    (inbound : c.receiver.reassembler.edge + 2 < wordLimit)
    (filled : c.active = true → c.outbound.inputEnded = false → c.outbound.failed = false →
      (c.withOutbound (c.outbound.write data).2).sender.Fits) :
    c.machine.write data =
      some ((c.step (.write data)).1, (c.step (.write data)).2.machine) := by
  rw [step_write]
  unfold Machine.Connection.write
  change (if (c.active && !c.outbound.inputEnded && !c.outbound.failed) = true then
    (c.outbound.machine.write data).bind fun written =>
      (c.machine.withOutbound written.2).pushOpened.bind fun after =>
        some (Reply.count written.1, after)
    else some (Reply.refused .cannotWrite, c.machine)) = _
  by_cases usable : (c.active && !c.outbound.inputEnded && !c.outbound.failed) = true
  · have open_end : (c.active = true ∧ c.outbound.inputEnded = false) ∧
        c.outbound.failed = false := by simpa using usable
    have fits := filled open_end.1.1 open_end.1.2 open_end.2
    have total : (c.outbound.write data).2.totalWritten + 2 < wordLimit := fits.counted
    have pushed := machine_pushOpened fits inbound
    rw [if_pos usable, if_pos usable, c.outbound.machine_write small (by omega), Option.bind_some]
    exact (congrArg (Option.bind · _) pushed).trans rfl
  · rw [if_neg usable, if_neg usable]

theorem machine_finish (fits : (c.withOutbound c.outbound.endInput).sender.Fits)
    (inbound : c.receiver.reassembler.edge + 2 < wordLimit) :
    c.machine.finish = some c.finish.machine := by
  have sent := machine_transmit fits
  have concluded := machine_conclude (c := { c.withOutbound c.outbound.endInput with
    sender := (c.withOutbound c.outbound.endInput).sender.transmit })
    ⟨fits.transmit.counted, inbound⟩
  have told := machine_tell (c := c.withOutbound c.outbound.endInput) ⟨fits.counted, inbound⟩
  unfold Machine.Connection.finish finish
  change (if (c.active && !c.isUnopened) = true then _ else _) = _
  by_cases opened : (c.active && !c.isUnopened) = true
  · rw [if_pos opened, if_pos opened]
    exact (congrArg (Option.bind · _) sent).trans concluded
  · rw [if_neg opened, if_neg opened]
    exact told

theorem machine_receiveReset (counted : c.Counted) :
    c.machine.receiveReset = some c.receiveReset.machine :=
  machine_tell (c := c.receiveReset) ⟨counted.outbound, counted.inbound⟩

theorem machine_abort (counted : c.Counted) : c.machine.abort = some c.abort.machine := by
  unfold Machine.Connection.abort abort
  change (if c.active = true then _ else _) = _
  by_cases active : c.active = true
  · rw [if_pos active, if_pos active]
    have failed : ({ c.failStreams with sender := c.failStreams.sender.sendReset } :
        Connection).Counted := ⟨counted.outbound, counted.inbound⟩
    have told := machine_tell (c := { ({ c.failStreams with
      sender := c.failStreams.sender.sendReset } : Connection).flush with active := false })
      ⟨failed.outbound, failed.inbound⟩
    exact (congrArg (Option.bind · _) (machine_flush failed)).trans told
  · rw [if_neg active, if_neg active]

theorem machine_openFor (fits : c.sender.Fits) :
    c.machine.openFor segment = some (c.openFor segment).machine := by
  unfold Machine.Connection.openFor openFor
  change (if (segment.flags.syn && c.isUnopened) = true then _ else _) = _
  rw [machine_transmit fits]
  split <;> rfl

theorem fits_openFor (fits : c.sender.Fits) (segment : Segment) :
    (c.openFor segment).sender.Fits := by
  unfold openFor
  split
  · exact fits.transmit
  · exact fits

theorem machine_note (fits : c.sender.Fits) :
    c.machine.note segment = some (c.note segment).machine := by
  unfold Machine.Connection.note note
  change (if segment.flags.ack = true then
    (c.sender.machine.acknowledge segment.ackno segment.window).bind _ else _) = _
  have transmitted := machine_transmit (c := { c with
    established := true
    sender := c.sender.acknowledge segment.ackno segment.window }) (fits.acknowledge _ _)
  rw [Sender.machine_acknowledge fits, Option.bind_some]
  by_cases told : segment.flags.ack = true
  · rw [if_pos told, if_pos told]
    change (if (c.sender.acknowledge segment.ackno segment.window).next = 0 then _ else _) = _
    dsimp only
    split
    · rfl
    · exact transmitted
  · rw [if_neg told, if_neg told]

theorem fits_note (fits : c.sender.Fits) (segment : Segment) : (c.note segment).sender.Fits := by
  have acknowledged := fits.acknowledge segment.ackno segment.window
  unfold note
  split
  · dsimp only
    split
    · exact acknowledged
    · exact acknowledged.transmit
  · exact fits

theorem machine_confirm (inbound : c.receiver.reassembler.edge + 2 < wordLimit)
    (small : segment.space < wordLimit) :
    c.machine.confirm segment = some (c.confirm segment).machine := by
  unfold Machine.Connection.confirm confirm asksForAnswer
  simp only [Option.bind_eq_bind]
  change (c.receiver.machine.ackno?.bind fun ackno => (space segment).bind fun length =>
    if ((decide (0 < length) || (length == 0 && ackno == some (segment.seqno.advance 1))) &&
      c.sender.queue.isEmpty && ackno.isSome) = true then _ else _) = _
  rw [Receiver.machine_ackno? inbound, Option.bind_some, space_eq small, Option.bind_some]
  split <;> rfl

theorem receiver_answer (c : Connection) (segment : Segment) :
    (c.answer segment).receiver = c.receiver := by
  obtain ⟨closing, _, answers⟩ := c.answer_eq segment
  rw [answers]

theorem outbound_confirm (c : Connection) (segment : Segment) :
    (c.confirm segment).outbound = c.outbound := by
  unfold confirm
  split <;> rfl

theorem machine_answer (segment : Segment) (fits : c.sender.Fits)
    (inbound : c.receiver.reassembler.edge + 2 < wordLimit) (small : segment.space < wordLimit) :
    c.machine.answer segment = some (c.answer segment).machine := by
  have opened := fits_openFor fits segment
  have receiver : ((c.openFor segment).note segment).receiver = c.receiver := by
    rw [note_openFor_eq]
  unfold Machine.Connection.answer
  simp only [Option.bind_eq_bind]
  rw [machine_openFor fits, Option.bind_some, machine_note opened, Option.bind_some,
    machine_confirm (by rw [receiver]; exact inbound) small, answer_stages]

theorem counted_answer (fits : c.sender.Fits)
    (inbound : c.receiver.reassembler.edge + 2 < wordLimit) (segment : Segment) :
    (c.answer segment).Counted where
  outbound := by
    rw [answer_stages, outbound_confirm]
    exact (fits_note (fits_openFor fits segment) segment).counted
  inbound := by
    rw [receiver_answer]
    exact inbound

theorem machine_receive (fits : c.sender.Fits) (assembles : c.receiver.reassembler.Fits)
    (inbound : c.receiver.reassembler.edge + 2 < wordLimit)
    (small : segment.payload.length ≤ sliceLimit)
    (reached : ∀ arrival ∈ c.arrivalsBy (.receive segment), arrival.stop + 1 < wordLimit) :
    c.machine.receive segment = some (c.receive segment).machine := by
  have space : segment.space < wordLimit := by
    have syn := segment.flags.syn.toNat_le
    have fin := segment.flags.fin.toNat_le
    unfold Segment.space
    unfold sliceLimit at small
    unfold wordLimit
    omega
  have afterwards : (c.receiver.receive segment).reassembler.edge + 2 < wordLimit := by
    rw [Receiver.edge_receive]
    exact inbound
  have answered := machine_answer (c := { c with
    idle := .zero
    receiver := c.receiver.receive segment }) segment fits afterwards space
  have concluded := machine_conclude (counted_answer
    (c := { c with idle := .zero, receiver := c.receiver.receive segment }) fits afterwards segment)
  unfold Machine.Connection.receive receive isListening
  simp only [Option.bind_eq_bind]
  change (if c.active = true then c.receiver.machine.ackno?.bind fun ackno =>
      if (ackno.isNone && c.isUnopened && !segment.flags.syn) = true then some c.machine
      else if segment.flags.rst = true then c.machine.receiveReset
      else (c.receiver.machine.receive segment).bind _
    else some c.machine) = _
  rw [Receiver.machine_ackno? inbound, Option.bind_some,
    machine_receiveReset ⟨fits.counted, inbound⟩]
  generalize (c.receiver.ackno?.isNone && c.isUnopened && !segment.flags.syn) = deaf
  by_cases active : c.active = true
  · have alive : (!c.active) = false := by rw [active, Bool.not_true]
    rw [if_pos active, alive, Bool.false_or]
    cases deaf with
    | true => rfl
    | false =>
      cases rst : segment.flags.rst with
      | true => rfl
      | false =>
        have received := Receiver.machine_receive assembles inbound fun admitted =>
          reached ⟨c.receiver.reach segment, segment.flags.fin⟩
            (by simp [arrivalsBy, active, rst, admitted])
        exact (congrArg (Option.bind · _) received).trans
          ((congrArg (Option.bind · _) answered).trans concluded)
  · have dead : (!c.active) = true := by simpa using active
    rw [if_neg active, dead, Bool.true_or, if_pos rfl]

theorem machine_tick {span : Duration} (fits : c.sender.Fits)
    (inbound : c.receiver.reassembler.edge + 2 < wordLimit)
    (few : c.active = true → c.sender.timer.retries + 1 < retryLimit) :
    c.machine.tick span = some (c.tick span).machine := by
  have written : (c.sender.tick span).stream = c.sender.stream := by
    obtain ⟨_, _, _, ticked⟩ := c.sender.tick_eq span
    rw [ticked]
  have counted : ({ c with idle := c.idle + span, sender := c.sender.tick span } :
      Connection).Counted := ⟨by rw [outbound, written]; exact fits.counted, inbound⟩
  have aborted := machine_abort counted
  have concluded := machine_conclude counted
  unfold Machine.Connection.tick tick
  change (if c.active = true then (c.sender.machine.tick span).bind _ else _) = _
  by_cases active : c.active = true
  · rw [if_pos active, if_pos active, Sender.machine_tick (few active), Option.bind_some]
    change (if c.maxRetransmissions < (c.sender.tick span).timer.retries then _ else _) = _
    dsimp only
    split
    · exact aborted
    · exact concluded
  · rw [if_neg active, if_neg active]

theorem machine_read (count : Nat) (small : c.inbound.capacity ≤ sliceLimit)
    (counted : c.inbound.totalWritten < wordLimit) (rested : c.inbound.Rested) :
    c.machine.read count = some ((c.read count).1, (c.read count).2.machine) := by
  have cleared : c.inbound.machine.readSlice (List.replicate count 0) = some
      ((c.inbound.peek count).length, (c.inbound.peekInto (List.replicate count 0)).2,
        (c.inbound.pop count).machine) := by
    rw [ByteStream.machine_readSlice small counted fun _ => rested, List.length_replicate]
    simp [ByteStream.peekInto]
  unfold Machine.Connection.read
  simp only [Option.bind_eq_bind]
  change (c.inbound.machine.readSlice (List.replicate count 0)).bind _ = _
  have kept : (c.inbound.peekInto (List.replicate count 0)).2.take (c.inbound.peek count).length =
      c.inbound.peek count := by
    simp [ByteStream.peekInto]
  rw [cleared, Option.bind_some]
  dsimp only
  rw [kept]
  rfl

theorem hand_eq (limit : Option Nat) (accepted queue : List Segment) :
    Machine.Connection.hand limit accepted queue =
      (accepted ++ queue.take (limit.getD queue.length), queue.drop (limit.getD queue.length)) := by
  induction queue generalizing limit accepted with
  | nil => simp [Machine.Connection.hand]
  | cons segment rest ih =>
    unfold Machine.Connection.hand
    match limit with
    | none => simp [ih]
    | some 0 => simp
    | some (count + 1) => simp [ih]

theorem machine_dispatch (limit : Option Nat) :
    c.machine.dispatch limit = ((c.dispatch limit).1, (c.dispatch limit).2.machine) := by
  have handed : Machine.Connection.hand limit [] c.machine.queue =
      (c.queue.take (limit.getD c.queue.length), c.queue.drop (limit.getD c.queue.length)) :=
    hand_eq limit [] c.queue
  unfold Machine.Connection.dispatch
  rw [handed]
  rfl

end Connection

end Tcp

end NetStack
