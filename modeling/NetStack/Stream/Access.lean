import NetStack.Stream.ByteStream

namespace NetStack.ByteStream

inductive Op where
  | write (data : Bytes)
  | peek (count : Nat)
  | read (count : Nat)
  | peekInto (buffer : Bytes)
  | readInto (buffer : Bytes)
  | pop (count : Nat)
  | endInput
  | fail
  deriving DecidableEq

inductive Reply where
  | done
  | count (n : Nat)
  | bytes (data : Bytes)
  | filled (n : Nat) (buffer : Bytes)
  deriving DecidableEq

def step (stream : ByteStream) : Op → Reply × ByteStream
  | .write data =>
    let (written, next) := stream.write data
    (.count written, next)
  | .peek count => (.bytes (stream.peek count), stream)
  | .read count =>
    let (data, next) := stream.read count
    (.bytes data, next)
  | .peekInto buffer =>
    let (copied, filled) := stream.peekInto buffer
    (.filled copied filled, stream)
  | .readInto buffer =>
    let (copied, filled) := stream.peekInto buffer
    (.filled copied filled, stream.pop copied)
  | .pop count => (.count (stream.available count), stream.pop count)
  | .endInput => (.done, stream.endInput)
  | .fail => (.done, stream.fail)

def run (stream : ByteStream) (ops : List Op) : ByteStream :=
  ops.foldl (fun current op => (current.step op).2) stream

end NetStack.ByteStream
