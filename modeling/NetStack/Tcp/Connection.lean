import NetStack.Tcp.Config
import NetStack.Tcp.Receiver
import NetStack.Tcp.Sender

namespace NetStack.Tcp

/-- Two byte streams joined by the protocol. The state is not stored but derived from the halves. -/
structure Connection where
  sender : Sender
  receiver : Receiver
  queue : List Segment
  timeout : Duration
  maxRetransmissions : Nat
  active : Bool
  established : Bool
  /-- Once both streams are complete, wait for stray retransmissions of the peer. -/
  lingers : Bool
  /-- The time since the last segment arrived. -/
  idle : Duration
  deriving DecidableEq

namespace Connection

/-- A connection over the given storage for its two streams. The capacities of the configuration
    play no part. -/
def ofStorage (config : Config) (inbound outbound : Array UInt8) : Connection where
  sender := .ofStream (.ofStorage outbound) config.initialSeqno config.timeout config.maxPayload
  receiver := .ofStream (.ofStorage inbound)
  queue := []
  timeout := config.timeout
  maxRetransmissions := config.maxRetransmissions
  active := true
  established := false
  lingers := true
  idle := .zero

def ofConfig (config : Config) : Connection :=
  ofStorage config (Array.replicate config.receiveCapacity 0)
    (Array.replicate config.sendCapacity 0)

def inbound (c : Connection) : ByteStream := c.receiver.stream

def outbound (c : Connection) : ByteStream := c.sender.stream

def isUnopened (c : Connection) : Bool := c.sender.next == 0

/-- The state of a connection. `reset` is that of one torn down by a reset, sent or received. -/
inductive State where
  | closed
  | listen
  | synSent
  | synReceived
  | established
  | finWait1
  | finWait2
  | closeWait
  | closing
  | lastAck
  | timeWait
  | reset
  deriving DecidableEq

def State.name : State → String
  | closed => "CLOSED"
  | listen => "LISTEN"
  | synSent => "SYN-SENT"
  | synReceived => "SYN-RECEIVED"
  | established => "ESTABLISHED"
  | finWait1 => "FIN-WAIT-1"
  | finWait2 => "FIN-WAIT-2"
  | closeWait => "CLOSE-WAIT"
  | closing => "CLOSING"
  | lastAck => "LAST-ACK"
  | timeWait => "TIME-WAIT"
  | reset => "RESET"

instance : ToString State := ⟨State.name⟩

def state (c : Connection) : State :=
  match c.sender.state, c.receiver.state with
  | .failed, _ | _, .failed => .reset
  | sending, receiving =>
    if !c.active then .closed
    else
      match sending, receiving with
      | .closed, _ => .listen
      | _, .listen => .synSent
      | .synSent, _ => .synReceived
      | .synAcked, .synReceived => .established
      | .synAcked, _ => .closeWait
      | .finSent, .synReceived => .finWait1
      | .finSent, _ => if c.lingers then .closing else .lastAck
      | _, .synReceived => .finWait2
      | _, _ => .timeWait

def stamp (c : Connection) (segment : Segment) : Segment :=
  let advertised := { segment with window := c.receiver.advertisedWindow }
  match c.receiver.ackno? with
  | some ackno => { advertised with flags := { segment.flags with ack := true }, ackno }
  | none => advertised

def flush (c : Connection) : Connection :=
  { c with
    queue := c.queue ++ c.sender.queue.map c.stamp
    sender := { c.sender with queue := [] } }

def inboundComplete (c : Connection) : Bool := c.receiver.unassembled == 0 && c.inbound.inputEnded

/-- The outbound stream is sent and acknowledged to its end, its FIN included. -/
def outboundComplete (c : Connection) : Bool :=
  c.outbound.atEnd && c.sender.next == c.sender.endPosition && c.sender.inFlight == 0

/-- Whoever finishes first does the waiting: ten timeouts without a segment. -/
def lingerPeriod (c : Connection) : Duration := c.timeout.scale 10

def settle (c : Connection) : Connection :=
  let lingers := c.lingers && !(c.inboundComplete && !c.outbound.atEnd)
  let ended := c.inboundComplete && c.outboundComplete &&
    (!lingers || decide (c.lingerPeriod ≤ c.idle))
  { c with lingers, active := c.active && !ended }

def failStreams (c : Connection) : Connection :=
  { c with
    sender := { c.sender with stream := c.outbound.fail }
    receiver := c.receiver.withStream c.inbound.fail }

inductive Refusal where
  | cannotConnect
  | cannotWrite
  deriving DecidableEq

def Refusal.message : Refusal → String
  | cannotConnect | cannotWrite => "invalid state"

def connect (c : Connection) : Except Refusal Connection :=
  if c.active && c.isUnopened then .ok { c with sender := c.sender.transmit }.flush
  else .error .cannotConnect

/-- Write as much of the data as fits, and send what the window lets out. What is written before the
    connection is opened waits. Refused after the end of the outbound stream. -/
def write (c : Connection) (data : Bytes) : Except Refusal (Nat × Connection) :=
  if c.active && !c.outbound.inputEnded && !c.outbound.failed then
    let (written, stream) := c.outbound.write data
    let filled := { c with sender := { c.sender with stream } }
    if c.isUnopened then .ok (written, filled)
    else .ok (written, { filled with sender := filled.sender.transmit }.flush)
  else
    .error .cannotWrite

def finish (c : Connection) : Connection :=
  let ended := { c with sender := { c.sender with stream := c.outbound.endInput } }
  if c.active && !c.isUnopened then
    { ended with sender := ended.sender.transmit }.flush.settle
  else
    ended

def receiveReset (c : Connection) : Connection :=
  let failed := c.failStreams
  { failed with sender := { failed.sender with queue := [] }, queue := [], active := false }

/-- A segment without sequence space just before the number to acknowledge asks for a sign of
    life. -/
def asksForAnswer (c : Connection) (segment : Segment) : Bool :=
  segment.space == 0 && c.receiver.ackno? == some (segment.seqno.advance 1)

/-- Let the sending half act on a segment that the receiving half has accepted: answer a SYN with
    one, note the acknowledgement, and acknowledge what occupies sequence space. -/
def answer (c : Connection) (segment : Segment) : Connection :=
  let opened :=
    if segment.flags.syn && c.isUnopened then { c with sender := c.sender.transmit } else c
  let noted :=
    if segment.flags.ack then
      let acknowledged := opened.sender.acknowledge segment.ackno segment.window
      { opened with
        established := true
        sender := if acknowledged.next = 0 then acknowledged else acknowledged.transmit }
    else opened
  let mustAnswer := decide (0 < segment.space) || noted.asksForAnswer segment
  if mustAnswer && noted.sender.queue.isEmpty && noted.receiver.ackno?.isSome then
    { noted with sender := noted.sender.sendEmpty }
  else
    noted

def isListening (c : Connection) : Bool := c.receiver.ackno?.isNone && c.isUnopened

/-- Process a segment of the peer. While listening, only a SYN is looked at. -/
def receive (c : Connection) (segment : Segment) : Connection :=
  if !c.active || (c.isListening && !segment.flags.syn) then c
  else if segment.flags.rst then c.receiveReset
  else
    let accepted := { c with idle := .zero, receiver := c.receiver.receive segment }
    (accepted.answer segment).flush.settle

/-- Tear the connection down: both streams fail, and a single reset is queued for the peer. -/
def abort (c : Connection) : Connection :=
  if c.active then
    let failed := c.failStreams
    { { failed with sender := failed.sender.sendReset }.flush with active := false }
  else
    c

/-- Let time pass. Once there were too many retransmissions in a row, the connection is aborted. -/
def tick (c : Connection) (span : Duration) : Connection :=
  if c.active then
    let ticked := { c with idle := c.idle + span, sender := c.sender.tick span }
    if c.maxRetransmissions < ticked.sender.timer.retries then ticked.abort
    else ticked.flush.settle
  else
    c

def read (c : Connection) (count : Nat) : Bytes × Connection :=
  let (data, stream) := c.inbound.read count
  (data, { c with receiver := c.receiver.withStream stream })

structure Dispatch where
  accepted : List Segment
  refused : Option Segment
  deriving DecidableEq

def dispatch (c : Connection) (limit : Option Nat) : Dispatch × Connection :=
  let count := limit.getD c.queue.length
  let rest := c.queue.drop count
  (⟨c.queue.take count, rest.head?⟩, { c with queue := rest })

inductive Op where
  | connect
  | write (data : Bytes)
  | finish
  | receive (segment : Segment)
  | tick (span : Duration)
  | abort
  | read (count : Nat)
  | dispatch (limit : Option Nat)
  | wait
  deriving DecidableEq

inductive Reply where
  | done
  | refused (reason : Refusal)
  | count (n : Nat)
  | bytes (data : Bytes)
  | dispatched (result : Dispatch)
  deriving DecidableEq

def step (c : Connection) : Op → Reply × Connection
  | .connect =>
    match c.connect with
    | .ok next => (.done, next)
    | .error reason => (.refused reason, c)
  | .write data =>
    match c.write data with
    | .ok (written, next) => (.count written, next)
    | .error reason => (.refused reason, c)
  | .finish => (.done, c.finish)
  | .receive segment => (.done, c.receive segment)
  | .tick span => (.done, c.tick span)
  | .abort => (.done, c.abort)
  | .read count =>
    let (data, next) := c.read count
    (.bytes data, next)
  | .dispatch limit =>
    let (result, next) := c.dispatch limit
    (.dispatched result, next)
  | .wait => (.done, c)

def run (c : Connection) (ops : List Op) : Connection :=
  ops.foldl (fun current op => (current.step op).2) c

end Connection

end NetStack.Tcp
