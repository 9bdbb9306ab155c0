import NetStack.Stream.Reassembler
import NetStack.Tcp.Segment

namespace NetStack.Tcp

structure Receiver where
  reassembler : Reassembler
  isn : Option SeqNo
  deriving DecidableEq

namespace Receiver

def ofStream (stream : ByteStream) : Receiver := ⟨.ofStream stream, none⟩

def stream (r : Receiver) : ByteStream := r.reassembler.output

def withStream (r : Receiver) (stream : ByteStream) : Receiver :=
  { r with reassembler := { r.reassembler with output := stream } }

def unassembled (r : Receiver) : Nat := r.reassembler.unassembled

/-- The position to acknowledge: one for the SYN, one for each byte of the stream, and one for the
    FIN once everything before it has arrived. -/
def ackPosition (r : Receiver) : Nat := r.stream.totalWritten + 1 + r.stream.inputEnded.toNat

def ackno? (r : Receiver) : Option SeqNo := r.isn.map fun isn => .ofPosition r.ackPosition isn

def window (r : Receiver) : Nat := r.stream.room

def advertisedWindow (r : Receiver) : UInt16 := UInt16.ofNat (min r.window 0xffff)

/-- Accept a segment relative to a known initial sequence number. A segment that claims the position
    of the SYN without being one is ignored. -/
def accept (r : Receiver) (isn : SeqNo) (segment : Segment) : Receiver :=
  let position := segment.seqno.positionNear isn (r.stream.totalWritten + 1)
  let known := { r with isn := some isn }
  if position = 0 ∧ segment.flags.syn = false then known
  else
    let index := position + segment.flags.syn.toNat - 1
    { known with reassembler := r.reassembler.insert segment.payload index segment.flags.fin }

def receive (r : Receiver) (segment : Segment) : Receiver :=
  match r.isn with
  | some isn => r.accept isn segment
  | none => if segment.flags.syn then r.accept segment.seqno segment else r

inductive State where
  | failed
  | listen
  | synReceived
  | finReceived
  deriving DecidableEq

def State.name : State → String
  | failed => "error"
  | listen => "listen"
  | synReceived => "syn received"
  | finReceived => "fin received"

instance : ToString State := ⟨State.name⟩

def state (r : Receiver) : State :=
  if r.stream.failed then .failed
  else if r.isn.isNone then .listen
  else if r.stream.inputEnded then .finReceived
  else .synReceived

inductive Op where
  | receive (segment : Segment)
  | output (op : ByteStream.Op)
  deriving DecidableEq

def step (r : Receiver) : Op → ByteStream.Reply × Receiver
  | .receive segment => (.done, r.receive segment)
  | .output op =>
    let (reply, stream) := r.stream.step op
    (reply, r.withStream stream)

def run (r : Receiver) (ops : List Op) : Receiver :=
  ops.foldl (fun current op => (current.step op).2) r

end Receiver

end NetStack.Tcp
