import NetStack.Proofs.Session.Session
import NetStack.Proofs.Tcp.Finality

namespace NetStack.Tcp.Connection

/-- What a listener may go through before it is asked for a connection. -/
def Op.Waits : Op → Prop
  | .connect | .abort => False
  | .receive segment => segment.flags.syn = false
  | _ => True

instance (op : Op) : Decidable op.Waits := by
  cases op <;> unfold Op.Waits <;> infer_instance

/-- The bytes that the writes of a run were told to have been accepted. -/
def accepted (c : Connection) (ops : List Op) : Bytes :=
  gather (fun current op => Simulation.acceptedBy op (current.step op).1) c ops

/-- A connection as it was created, except for its outbound stream and the time without a segment. -/
def listener (config : Config) (inbound outbound : Array UInt8) (stream : ByteStream)
    (idle : Duration) : Connection :=
  let fresh := ofStorage config inbound outbound
  { fresh with sender := { fresh.sender with stream }, idle }

section Listener

variable (config : Config) (inbound outbound : Array UInt8) (stream : ByteStream) (idle : Duration)

theorem state_listener (sound : stream.failed = false) :
    (listener config inbound outbound stream idle).state = .listen := by
  simp [listener, ofStorage, state, Sender.ofStream, Sender.state, Receiver.ofStream,
    Receiver.state, Receiver.stream, Reassembler.ofStream, sound]

theorem tick_listener (span : Duration) :
    (listener config inbound outbound stream idle).tick span =
      listener config inbound outbound stream (idle + span) := by
  simp [listener, ofStorage, tick, Sender.ofStream, Sender.tick, Timer.ofTimeout, Timer.tick,
    Timer.retries, flush, settle, inboundComplete, Connection.inbound, Receiver.ofStream,
    Receiver.stream, Reassembler.ofStream]

theorem read_listener (count : Nat) :
    ((listener config inbound outbound stream idle).read count).2 =
      listener config inbound outbound stream idle := by
  simp [listener, ofStorage, Connection.read, Connection.inbound, Receiver.ofStream,
    Receiver.stream, Receiver.withStream, Reassembler.ofStream, ByteStream.read, ByteStream.pop,
    ByteStream.available, ByteStream.ofStorage]

theorem receive_listener {segment : Segment} (noSyn : segment.flags.syn = false) :
    (listener config inbound outbound stream idle).receive segment =
      listener config inbound outbound stream idle := by
  simp [listener, ofStorage, Connection.receive, isListening, isUnopened, Sender.ofStream,
    Receiver.ofStream, Receiver.ackno?, noSyn]

theorem finish_listener : (listener config inbound outbound stream idle).finish =
    listener config inbound outbound stream.endInput idle := by
  simp [listener, ofStorage, Connection.finish, isUnopened, Sender.ofStream, Connection.outbound]

theorem step_write_listener (data : Bytes) :
    (listener config inbound outbound stream idle).step (.write data) =
      if !stream.inputEnded && !stream.failed then
        (.count (stream.write data).1,
          listener config inbound outbound (stream.write data).2 idle)
      else (.refused .cannotWrite, listener config inbound outbound stream idle) := by
  rw [step_write]
  simp [listener, ofStorage, isUnopened, Sender.ofStream, Connection.outbound]

variable {stream}

theorem step_listener (sound : stream.failed = false) {op : Op} (waits : op.Waits) :
    ∃ later pause,
      ((listener config inbound outbound stream idle).step op).2 =
        listener config inbound outbound later pause ∧
      later.failed = false ∧
      later.toList = stream.toList ++ Simulation.acceptedBy op
        ((listener config inbound outbound stream idle).step op).1 := by
  cases op with
  | connect | abort => exact waits.elim
  | write data =>
    rw [step_write_listener]
    split
    · refine ⟨_, _, rfl, ?_, stream.toList_write data⟩
      rw [ByteStream.failed_write]
      exact sound
    · exact ⟨stream, idle, rfl, sound, (List.append_nil _).symm⟩
  | finish =>
    exact ⟨_, _, finish_listener config inbound outbound stream idle, sound, (List.append_nil _).symm⟩
  | receive segment =>
    exact ⟨_, _, receive_listener config inbound outbound stream idle waits, sound,
      (List.append_nil _).symm⟩
  | tick span =>
    exact ⟨_, _, tick_listener config inbound outbound stream idle span, sound,
      (List.append_nil _).symm⟩
  | read count =>
    exact ⟨_, _, read_listener config inbound outbound stream idle count, sound,
      (List.append_nil _).symm⟩
  | dispatch limit =>
    refine ⟨stream, idle, ?_, sound, (List.append_nil _).symm⟩
    simp [step, dispatch, listener, ofStorage]
  | wait => exact ⟨stream, idle, rfl, sound, (List.append_nil _).symm⟩

theorem run_listener (sound : stream.failed = false) {ops : List Op} (wait : ∀ op ∈ ops, op.Waits) :
    ∃ later pause,
      (listener config inbound outbound stream idle).run ops =
        listener config inbound outbound later pause ∧
      later.failed = false ∧
      later.toList =
        stream.toList ++ (listener config inbound outbound stream idle).accepted ops := by
  induction ops generalizing stream idle with
  | nil => exact ⟨stream, idle, rfl, sound, (List.append_nil _).symm⟩
  | cons op rest ih =>
    obtain ⟨first, others⟩ := List.forall_mem_cons.mp wait
    obtain ⟨next, pause, stepped, intact, waiting⟩ :=
      step_listener config inbound outbound idle sound first
    obtain ⟨last, silence, reached, still, gathered⟩ := ih pause intact others
    refine ⟨last, silence, ?_, still, ?_⟩
    · rw [← reached, ← stepped]
      rfl
    · rw [gathered, waiting, List.append_assoc, ← stepped]
      rfl

end Listener

/-- Whatever strays in and however long it takes, a connection that was not opened listens until a
    SYN comes: it has said and heard nothing, and keeps exactly what was accepted from its writer.
    A SYN with a reset is no request either, but ends it. -/
theorem listens_until_syn (config : Config) (inbound outbound : Array UInt8) (ops : List Op)
    (wait : ∀ op ∈ ops, op.Waits) :
    let start := ofStorage config inbound outbound
    let last := start.run ops
    last.active = true ∧ last.state = .listen ∧ last.queue = [] ∧ last.sender.inFlight = 0 ∧
    last.established = false ∧ last.Intact ∧
    last.inbound.totalWritten = 0 ∧ last.receiver.unassembled = 0 ∧
    last.outbound.toList = start.accepted ops ∧
    ∀ segment, segment.flags.syn = true → segment.flags.rst = true →
      (last.receive segment).TornDown ∧ (last.receive segment).state = .reset := by
  intro start last
  obtain ⟨stream, idle, reached, sound, waiting⟩ :=
    run_listener config inbound outbound .zero (ByteStream.failed_ofStorage outbound) wait
  have reached : last = listener config inbound outbound stream idle := reached
  rw [reached]
  refine ⟨rfl, state_listener config inbound outbound stream idle sound, rfl, rfl, rfl,
    ⟨rfl, sound⟩, rfl, rfl, waiting, ?_⟩
  intro segment syn rst
  have torn : (listener config inbound outbound stream idle).receive segment =
      (listener config inbound outbound stream idle).receiveReset := by
    simp [Connection.receive, listener, ofStorage, syn, rst]
  rw [torn]
  have failed : (listener config inbound outbound stream idle).receiveReset.TornDown := ⟨rfl, rfl⟩
  exact ⟨failed, failed.state_eq rfl⟩

def strays : List Op :=
  [.write [7, 8], .receive { flags := { ack := true }, window := 4, payload := [1] },
    .receive { flags := { rst := true } }, .receive { flags := { fin := true } },
    .tick (.ofMillis 20000), .write [9, 10, 11], .read 3, .finish, .write [12]]

theorem listens_until_syn_strays :
    (∀ op ∈ strays, op.Waits) ∧ (small.run strays).state = .listen ∧
      (small.run strays).queue = [] ∧ (small.run strays).outbound.toList = [7, 8, 9, 10] := by
  have wait : ∀ op ∈ strays, op.Waits := by decide
  obtain ⟨_, listens, quiet, _, _, _, _, _, waiting, _⟩ := listens_until_syn
    { receiveCapacity := 4, sendCapacity := 4, isn := some ⟨0⟩ } (Array.replicate 4 0)
    (Array.replicate 4 0) strays wait
  have accepted : small.accepted strays = [7, 8, 9, 10] := by decide +kernel
  exact ⟨wait, listens, quiet, waiting.trans accepted⟩

/-- A reset alone is a stray; with a SYN it is let through, and the listener is gone. -/
theorem stray_reset_heeded :
    small.receive { flags := { rst := true } } = small ∧
      ((small.run [.receive { flags := { syn := true, rst := true } }]).active = false ∧
        (small.run [.receive { flags := { syn := true, rst := true } }]).state = .reset) := by
  decide +kernel

end NetStack.Tcp.Connection
