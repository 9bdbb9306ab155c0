import NetStack.Stream.Access

namespace NetStack

structure Piece where
  start : Nat
  bytes : Bytes
  deriving DecidableEq

namespace Piece

def stop (piece : Piece) : Nat := piece.start + piece.bytes.length

/-- One piece from two that overlap or touch, `first` being the one that starts earlier. Where they
    overlap, the bytes of `first` are kept. -/
def join (first second : Piece) : Piece :=
  ⟨first.start, first.bytes ++ second.bytes.drop (first.stop - second.start)⟩

def insertInto (piece : Piece) : List Piece → List Piece
  | [] => [piece]
  | next :: rest =>
    if next.stop < piece.start then next :: piece.insertInto rest
    else if piece.stop < next.start then piece :: next :: rest
    else if next.start ≤ piece.start then (next.join piece).insertInto rest
    else (piece.join next).insertInto rest

end Piece

structure Reassembler where
  output : ByteStream
  /-- Pieces that wait for a gap to be filled, in order; no two of them overlap or touch. -/
  pending : List Piece
  /-- The index of the first byte that is not assembled. -/
  next : Nat
  /-- The index after the last byte of the stream, once it is known. -/
  finalIndex : Option Nat
  deriving DecidableEq

namespace Reassembler

def ofStream (output : ByteStream) : Reassembler := ⟨output, [], 0, none⟩

def empty (capacity : Nat) : Reassembler := ofStream (.empty capacity)

def unassembled (r : Reassembler) : Nat :=
  r.pending.foldr (fun piece total => piece.bytes.length + total) 0

def limit (r : Reassembler) : Nat := r.next + r.output.room

/-- The part of the data that is neither assembled already nor beyond the limit. -/
def acceptable? (r : Reassembler) (data : Bytes) (index : Nat) : Option Piece :=
  let start := max index r.next
  let stop := min (index + data.length) r.limit
  if start < stop then some ⟨start, (data.take (stop - index)).drop (start - index)⟩ else none

/-- Write the first pending piece if it is next. As pieces do not touch, no other one follows it. -/
def assemble (r : Reassembler) : Reassembler :=
  match r.pending with
  | [] => r
  | first :: rest =>
    if first.start = r.next then
      let (written, output) := r.output.write first.bytes
      let next := r.next + written
      let left := first.bytes.drop written
      { r with output, next, pending := if left.isEmpty then rest else ⟨next, left⟩ :: rest }
    else
      r

def store (r : Reassembler) (piece : Piece) : Reassembler :=
  assemble { r with pending := piece.insertInto r.pending }

/-- End the output once everything before the end of the stream is assembled. -/
def finish (r : Reassembler) : Reassembler :=
  if r.finalIndex = some r.next ∧ r.pending = [] then { r with output := r.output.endInput } else r

def insert (r : Reassembler) (data : Bytes) (index : Nat) (isLast : Bool) : Reassembler :=
  let noted := if isLast then { r with finalIndex := some (index + data.length) } else r
  match noted.acceptable? data index with
  | some piece => (noted.store piece).finish
  | none => noted.finish

inductive Op where
  | insert (data : Bytes) (index : Nat) (isLast : Bool)
  | output (op : ByteStream.Op)
  deriving DecidableEq

def step (r : Reassembler) : Op → ByteStream.Reply × Reassembler
  | .insert data index isLast => (.done, r.insert data index isLast)
  | .output op =>
    let (reply, output) := r.output.step op
    (reply, { r with output })

def run (r : Reassembler) (ops : List Op) : Reassembler :=
  ops.foldl (fun current op => (current.step op).2) r

end Reassembler

end NetStack
