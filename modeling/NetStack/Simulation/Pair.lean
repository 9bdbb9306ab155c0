import NetStack.Tcp.Connection

namespace NetStack.Simulation

open Tcp

inductive Side where
  | a
  | b
  deriving DecidableEq

def Side.other : Side → Side
  | a => b
  | b => a

structure Pair where
  a : Connection
  b : Connection
  fromA : List Segment := []
  fromB : List Segment := []
  deriving DecidableEq

namespace Pair

def connection (pair : Pair) : Side → Connection
  | .a => pair.a
  | .b => pair.b

def withConnection (pair : Pair) (connection : Connection) : Side → Pair
  | .a => { pair with a := connection }
  | .b => { pair with b := connection }

def link (pair : Pair) : Side → List Segment
  | .a => pair.fromA
  | .b => pair.fromB

def withLink (pair : Pair) (link : List Segment) : Side → Pair
  | .a => { pair with fromA := link }
  | .b => { pair with fromB := link }

def collect (pair : Pair) : Pair where
  a := { pair.a with queue := [] }
  b := { pair.b with queue := [] }
  fromA := pair.fromA ++ pair.a.queue
  fromB := pair.fromB ++ pair.b.queue

def hand (pair : Pair) (side : Side) (segment : Segment) : Pair :=
  pair.withConnection ((pair.connection side).receive segment) side

inductive Fate where
  | deliver
  | duplicate
  | lose
  deriving DecidableEq

def befall (pair : Pair) (fate : Fate) (side : Side) (index : Nat) : Option Segment × Pair :=
  match (pair.link side)[index]? with
  | none => (none, pair)
  | some segment =>
    let rest := pair.withLink ((pair.link side).eraseIdx index) side
    match fate with
    | .deliver => (some segment, rest.hand side.other segment)
    | .duplicate => (some segment, pair.hand side.other segment)
    | .lose => (some segment, rest)

def deliverAll (pair : Pair) (side : Side) : List Segment × Pair :=
  let segments := pair.link side
  let delivered := segments.foldl (fun current => current.hand side.other) (pair.withLink [] side)
  (segments, delivered.collect)

def isQuiet (pair : Pair) : Bool := pair.fromA.isEmpty && pair.fromB.isEmpty

structure Rounds where
  count : Nat
  moved : List Segment
  deriving DecidableEq

/-- Deliver everything from `a`, then everything from `b`, in up to `limit` rounds until nothing is
    on its way. -/
def pump : Nat → Pair → Rounds × Pair
  | 0, pair => (⟨0, []⟩, pair)
  | limit + 1, pair =>
    if pair.isQuiet then (⟨0, []⟩, pair)
    else
      let (first, half) := pair.deliverAll .a
      let (second, whole) := half.deliverAll .b
      let (rounds, last) := pump limit whole
      (⟨rounds.count + 1, first ++ second ++ rounds.moved⟩, last)

def maxRounds : Nat := 200

def tick (pair : Pair) (span : Duration) : Pair :=
  { pair with a := pair.a.tick span, b := pair.b.tick span }

inductive Op where
  | call (side : Side) (op : Connection.Op)
  | befall (fate : Fate) (side : Side) (index : Nat)
  | tick (span : Duration)
  | pump
  deriving DecidableEq

inductive Reply where
  | answered (reply : Connection.Reply)
  | found (segment : Option Segment)
  | ticked
  | pumped (rounds : Rounds)
  deriving DecidableEq

def Reply.moved : Reply → List Segment
  | answered _ | ticked => []
  | found segment => segment.toList
  | pumped rounds => rounds.moved

def act (pair : Pair) : Op → Reply × Pair
  | .call side op =>
    let (reply, next) := (pair.connection side).step op
    (.answered reply, pair.withConnection next side)
  | .befall fate side index =>
    let (segment, next) := pair.befall fate side index
    (.found segment, next)
  | .tick span => (.ticked, pair.tick span)
  | .pump =>
    let (rounds, next) := pump maxRounds pair
    (.pumped rounds, next)

def step (pair : Pair) (op : Op) : Reply × Pair :=
  let (reply, next) := pair.act op
  (reply, next.collect)

def run (pair : Pair) (ops : List Op) : Pair :=
  ops.foldl (fun current op => (current.step op).2) pair

end Pair

end NetStack.Simulation
