import NetStack.Stream.Access
import NetStack.Tcp.Segment
import NetStack.Tcp.Timer

namespace NetStack.Tcp

/-- A segment that was sent and is not fully acknowledged, with the position of its start. -/
structure Sent where
  start : Nat
  segment : Segment
  deriving DecidableEq

def Sent.stop (sent : Sent) : Nat := sent.start + sent.segment.space

def Sent.totalSpace (segments : List Sent) : Nat :=
  segments.foldr (fun sent total => sent.segment.space + total) 0

/-- Positions count from the SYN at zero; the bytes of the stream follow it, then the FIN. -/
structure Sender where
  isn : SeqNo
  stream : ByteStream
  timer : Timer
  maxPayload : Nat
  next : Nat
  /-- The highest position that was acknowledged: everything before it has arrived. -/
  acked : Nat
  window : UInt16
  inFlight : Nat
  outstanding : List Sent
  queue : List Segment
  deriving DecidableEq

namespace Sender

/-- Until the peer says otherwise, one byte may be sent. -/
def ofStream (stream : ByteStream) (isn : SeqNo) (timeout : Duration) (maxPayload : Nat) :
    Sender where
  isn := isn
  stream := stream
  timer := .ofTimeout timeout
  maxPayload := maxPayload
  next := 0
  acked := 0
  window := 1
  inFlight := 0
  outstanding := []
  queue := []

def nextSeqno (s : Sender) : SeqNo := .ofPosition s.next s.isn

def endPosition (s : Sender) : Nat := s.stream.totalWritten + 2

/-- The position that the window reaches to. A closed window is probed one byte at a time. -/
def rightEdge (s : Sender) : Nat := s.acked + max s.window.toNat 1

def send (s : Sender) (flags : Flags) (payload : Bytes) : Sender :=
  let segment : Segment := { seqno := s.nextSeqno, flags, payload }
  { s with
    next := s.next + segment.space
    inFlight := s.inFlight + segment.space
    outstanding := s.outstanding ++ [⟨s.next, segment⟩]
    queue := s.queue ++ [segment]
    timer := if s.timer.isRunning then s.timer else s.timer.start }

/-- Send the next bytes of the stream in one segment, together with the FIN if they are the last
    ones and it still fits. `none` if there is nothing to send. -/
def sendChunk? (s : Sender) : Option Sender :=
  let room := s.rightEdge - s.next
  let (payload, stream) := s.stream.read (min room s.maxPayload)
  let fin := stream.atEnd && decide (payload.length < room)
  if payload = [] ∧ fin = false then none else some ({ s with stream }.send { fin } payload)

def sendFin (s : Sender) : Sender :=
  if s.next < s.endPosition then s.send { fin := true } [] else s

/-- Send up to `count` chunks of the stream, as long as the window lets them out, and the FIN once
    the stream is at its end. -/
def sendUpTo : Nat → Sender → Sender
  | 0, s => s
  | count + 1, s =>
    if s.rightEdge ≤ s.next then s
    else if s.stream.atEnd then s.sendFin
    else
      match s.sendChunk? with
      | some sent => sendUpTo count sent
      | none => s

/-- Send all that the window lets out: the SYN before anything else, and nothing more until it is
    acknowledged. A chunk occupies sequence space, so there are no more chunks than sequence numbers
    up to the right edge. -/
def transmit (s : Sender) : Sender :=
  let opened := if s.next = 0 then s.send { syn := true } [] else s
  if opened.acked = 0 then opened else sendUpTo (opened.rightEdge - opened.next) opened

/-- Take note of an acknowledgement and a window. An acknowledgement of what was never sent is
    ignored, and an old one tells the window only. -/
def acknowledge (s : Sender) (ackno : SeqNo) (window : UInt16) : Sender :=
  let position := ackno.positionNear s.isn s.acked
  if s.next < position then s
  else if position ≤ s.acked then { s with window }
  else
    let (retired, outstanding) := s.outstanding.span fun sent => sent.stop ≤ position
    transmit { s with
      window
      acked := position
      inFlight := s.inFlight - Sent.totalSpace retired
      outstanding
      timer := s.timer.reset (!outstanding.isEmpty) }

/-- Let time pass. When the timer expires, the oldest outstanding segment is sent again. -/
def tick (s : Sender) (span : Duration) : Sender :=
  let (expired, timer) := s.timer.tick span
  if expired then
    match s.outstanding with
    | [] => { s with timer := timer.close }
    | oldest :: _ =>
      { s with queue := s.queue ++ [oldest.segment], timer := timer.backOff (s.window != 0) }
  else
    { s with timer }

def sendEmpty (s : Sender) : Sender :=
  { s with queue := s.queue ++ [{ seqno := s.nextSeqno }] }

def sendReset (s : Sender) : Sender :=
  { s with
    queue := [{ seqno := s.nextSeqno, flags := { rst := true } }]
    timer := s.timer.close }

inductive State where
  | failed
  | closed
  | synSent
  | synAcked
  | finSent
  | finAcked
  deriving DecidableEq

def State.name : State → String
  | failed => "error"
  | closed => "closed"
  | synSent => "syn sent"
  | synAcked => "syn acked"
  | finSent => "fin sent"
  | finAcked => "fin acked"

instance : ToString State := ⟨State.name⟩

def state (s : Sender) : State :=
  if s.stream.failed then .failed
  else if s.next = 0 then .closed
  else if s.next = s.inFlight then .synSent
  else if s.next < s.endPosition then .synAcked
  else if 0 < s.inFlight then .finSent
  else .finAcked

inductive Op where
  | transmit
  | acknowledge (ackno : SeqNo) (window : UInt16)
  | tick (span : Duration)
  | sendEmpty
  | sendReset
  | input (op : ByteStream.Op)
  deriving DecidableEq

def step (s : Sender) : Op → ByteStream.Reply × Sender
  | .transmit => (.done, s.transmit)
  | .acknowledge ackno window => (.done, s.acknowledge ackno window)
  | .tick span => (.done, s.tick span)
  | .sendEmpty => (.done, s.sendEmpty)
  | .sendReset => (.done, s.sendReset)
  | .input op =>
    let (reply, stream) := s.stream.step op
    (reply, { s with stream })

def run (s : Sender) (ops : List Op) : Sender :=
  ops.foldl (fun current op => (current.step op).2) s

end Sender

end NetStack.Tcp
