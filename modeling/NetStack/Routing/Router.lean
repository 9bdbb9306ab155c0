import NetStack.Link.Interface
import NetStack.Routing.Table

namespace NetStack.Routing

open Ipv4.Datagram (TooLong)

structure Attachment where
  interface : Link.Interface
  received : List Ipv4.Datagram := []
  deriving DecidableEq

structure Router where
  attached : List Attachment := []
  table : Table := .empty
  deriving DecidableEq

namespace Router

def attach (router : Router) (interface : Link.Interface) : Nat × Router :=
  (router.attached.length, { router with attached := router.attached ++ [{ interface }] })

def interface? (router : Router) (index : Nat) : Option Link.Interface :=
  router.attached[index]?.map Attachment.interface

def addRoute (router : Router) (route : Route) : Except Table.Full Router := do
  return { router with table := ← router.table.add route }

def receiveFrame (router : Router) (index : Nat) (frame : Bytes) : Except TooLong Router :=
  match router.attached[index]? with
  | none => .ok router
  | some attachment => do
    let (datagram?, interface) ← attachment.interface.receive frame
    let taken := { interface, received := attachment.received ++ datagram?.toList }
    return { router with attached := router.attached.set index taken }

def forward (router : Router) (datagram : Ipv4.Datagram) : Except TooLong Router :=
  if datagram.hopLimit ≤ 1 then .ok router
  else
    match router.table.lookup datagram.destination with
    | none => .ok router
    | some route =>
      match router.attached[route.interface]? with
      | none => .ok router
      | some attachment => do
        let aged := { datagram with hopLimit := datagram.hopLimit - 1 }
        let interface ← attachment.interface.send aged (route.nextHop datagram.destination)
        let sent := { attachment with interface }
        return { router with attached := router.attached.set route.interface sent }

/-- Send on every datagram that arrived, interface by interface. -/
def route (router : Router) : Except TooLong Router :=
  let emptied := { router with
    attached := router.attached.map fun attachment => { attachment with received := [] } }
  (router.attached.flatMap Attachment.received).foldlM forward emptied

def tick (router : Router) (span : Duration) : Router :=
  { router with
    attached := router.attached.map fun attachment =>
      { attachment with interface := attachment.interface.tick span } }

def drain (router : Router) (index : Nat) : List Bytes × Router :=
  match router.attached[index]? with
  | none => ([], router)
  | some attachment =>
    let (frames, interface) := attachment.interface.drain
    (frames, { router with attached := router.attached.set index { attachment with interface } })

inductive Op where
  | attach (interface : Link.Interface)
  | addRoute (route : Route)
  | receiveFrame (index : Nat) (frame : Bytes)
  | forward (datagram : Ipv4.Datagram)
  | route
  | tick (span : Duration)
  | drain (index : Nat)
  deriving DecidableEq

inductive Reply where
  | done
  | attached (index : Nat)
  | refused (reason : Table.Full)
  | frames (frames : List Bytes)
  deriving DecidableEq

def step (router : Router) : Op → Except TooLong (Reply × Router)
  | .attach interface =>
    let (index, next) := router.attach interface
    .ok (.attached index, next)
  | .addRoute route =>
    match router.addRoute route with
    | .ok next => .ok (.done, next)
    | .error reason => .ok (.refused reason, router)
  | .receiveFrame index frame => do return (.done, ← router.receiveFrame index frame)
  | .forward datagram => do return (.done, ← router.forward datagram)
  | .route => do return (.done, ← router.route)
  | .tick span => .ok (.done, router.tick span)
  | .drain index =>
    let (frames, next) := router.drain index
    .ok (.frames frames, next)

def run (router : Router) (ops : List Op) : Except TooLong Router :=
  ops.foldlM (fun current op => return (← current.step op).2) router

end Router

end NetStack.Routing
