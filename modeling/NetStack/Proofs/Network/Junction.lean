import NetStack.Proofs.Routing.Log
import NetStack.Simulation.Network

namespace NetStack.Simulation

open Ipv4.Datagram (TooLong)
open Link (Interface)
open Routing (Router Attachment)
open Tcp

/-- The part of a host below TCP. What it sends goes to its gateway, and it keeps the segments that
    reach it. -/
structure Station where
  interface : Interface
  binding : Binding
  gateway : Ipv4.Address
  taken : List Segment := []
  deriving DecidableEq

namespace Station

def send (station : Station) (segments : List Segment) : Except TooLong (Bool × Station) := do
  let datagrams := segments.filterMap station.binding.enclose?
  let interface ← datagrams.foldlM (fun current datagram => current.send datagram station.gateway)
    station.interface
  return (!datagrams.isEmpty, { station with interface })

def receive (station : Station) (frame : Bytes) : Except TooLong Station := do
  let (datagram?, interface) ← station.interface.receive frame
  match datagram? with
  | none => return { station with interface }
  | some datagram =>
    let (segment?, binding) := station.binding.accept datagram
    return { station with interface, binding, taken := station.taken ++ segment?.toList }

def deliver (station : Station) (port : Nat) (router : Router) :
    Except TooLong (Station × Router) := do
  let (frames, interface) := station.interface.drain
  let router ← frames.foldlM (fun router frame => router.receiveFrame port frame) router
  return ({ station with interface }, router)

def collect (station : Station) (port : Nat) (router : Router) :
    Except TooLong (Station × Router) := do
  let (frames, router) := router.drain port
  return (← frames.foldlM receive station, router)

end Station

structure Junction where
  home : Station
  away : Station
  router : Router
  near : Nat
  far : Nat
  deriving DecidableEq

/-- What is done at a time: all frames of one party go to another, or the router routes. -/
inductive Leg where
  | fromHome
  | fromAway
  | route
  | toHome
  | toAway
  deriving DecidableEq

namespace Junction

def meetHome (junction : Junction)
    (meet : Station → Nat → Router → Except TooLong (Station × Router)) :
    Except TooLong Junction := do
  let (home, router) ← meet junction.home junction.near junction.router
  return { junction with home, router }

def meetAway (junction : Junction)
    (meet : Station → Nat → Router → Except TooLong (Station × Router)) :
    Except TooLong Junction := do
  let (away, router) ← meet junction.away junction.far junction.router
  return { junction with away, router }

def carry (junction : Junction) : Leg → Except TooLong Junction
  | .fromHome => junction.meetHome Station.deliver
  | .fromAway => junction.meetAway Station.deliver
  | .route => do return { junction with router := ← junction.router.route }
  | .toHome => junction.meetHome Station.collect
  | .toAway => junction.meetAway Station.collect

def carryAll (junction : Junction) (legs : List Leg) : Except TooLong Junction :=
  legs.foldlM carry junction

structure Quiet (junction : Junction) : Prop where
  home : junction.home.interface.frames = [] ∧ junction.home.interface.waiting = []
  away : junction.away.interface.frames = [] ∧ junction.away.interface.waiting = []
  router : ∀ attachment ∈ junction.router.attached, attachment.received = [] ∧
    attachment.interface.frames = [] ∧ attachment.interface.waiting = []

def Idle (junction : Junction) : Leg → Prop
  | .fromHome => junction.home.interface.frames = []
  | .fromAway => junction.away.interface.frames = []
  | .route => ∀ attachment ∈ junction.router.attached, attachment.received = []
  | .toHome => junction.router.framesOn junction.near = []
  | .toAway => junction.router.framesOn junction.far = []

section Idle

variable {station : Station} {port : Nat} {router : Router}

theorem drain_of_silent {interface : Interface} (silent : interface.frames = []) :
    interface.drain = ([], interface) := by
  obtain ⟨hardware, address, policy, now, neighbors, waiting, frames⟩ := interface
  cases silent
  rfl

theorem deliver_of_silent (silent : station.interface.frames = []) :
    station.deliver port router = .ok (station, router) := by
  unfold Station.deliver
  rw [drain_of_silent silent]
  rfl

theorem collect_of_silent (silent : router.framesOn port = []) :
    station.collect port router = .ok (station, router) := by
  have drained : router.drain port = ([], router) := by
    unfold Router.drain
    cases there : router.attached[port]? with
    | none => rfl
    | some attachment =>
      have quiet : attachment.interface.frames = [] := by
        unfold Router.framesOn Router.interface? at silent
        rw [there] at silent
        exact silent
      dsimp only
      rw [drain_of_silent quiet]
      obtain ⟨inside, here⟩ := List.getElem?_eq_some_iff.mp there
      have kept : router.attached.set port attachment = router.attached := by
        rw [← here]
        exact List.set_getElem_self inside
      dsimp only
      rw [kept]
  unfold Station.collect
  rw [drained]
  rfl

theorem route_of_nothing (nothing : ∀ attachment ∈ router.attached, attachment.received = []) :
    router.route = .ok router := by
  have emptied : (router.attached.map fun attachment => { attachment with received := [] }) =
      router.attached := by
    refine (List.map_congr_left fun attachment member => ?_).trans (List.map_id _)
    have same : attachment.received = [] := nothing attachment member
    rw [id, ← same]
  have nobody : router.attached.flatMap Attachment.received = [] :=
    List.flatMap_eq_nil_iff.mpr nothing
  unfold Router.route
  rw [nobody, emptied]
  rfl

theorem carry_of_idle {junction : Junction} {leg : Leg} (idle : junction.Idle leg) :
    junction.carry leg = .ok junction := by
  cases leg with
  | fromHome | fromAway =>
    unfold carry meetHome meetAway
    dsimp only
    rw [deliver_of_silent idle]
    rfl
  | route =>
    unfold carry
    dsimp only
    rw [route_of_nothing idle]
    rfl
  | toHome | toAway =>
    unfold carry meetHome meetAway
    dsimp only
    rw [collect_of_silent idle]
    rfl

theorem Quiet.idle {junction : Junction} (quiet : junction.Quiet) (leg : Leg) :
    junction.Idle leg := by
  have silent (port : Nat) : junction.router.framesOn port = [] := by
    unfold Router.framesOn Router.interface?
    cases there : junction.router.attached[port]? with
    | none => rfl
    | some attachment => exact (quiet.router attachment (List.mem_of_getElem? there)).2.1
  cases leg with
  | fromHome => exact quiet.home.1
  | fromAway => exact quiet.away.1
  | route => exact fun attachment member => (quiet.router attachment member).1
  | toHome | toAway => exact silent _

end Idle

end Junction

end NetStack.Simulation
