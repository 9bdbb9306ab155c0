import NetStack.Link.NeighborCache
import NetStack.Link.Packet

namespace NetStack.Link

structure Waiting where
  nextHop : Ipv4.Address
  since : Instant
  datagram : Ipv4.Datagram
  deriving DecidableEq

/-- IPv4 on an Ethernet link. A datagram whose next hop has no known hardware address waits, for no
longer than the address is not asked for again. -/
structure Interface where
  hardware : Ethernet.Address
  address : Ipv4.Address
  policy : Checksum.Policy := {}
  now : Instant := .zero
  neighbors : NeighborCache := .empty
  waiting : List Waiting := []
  frames : List Bytes := []
  deriving DecidableEq

namespace Interface

open Ipv4.Datagram (TooLong)

def maxWaiting : Nat := 32

def emit (interface : Interface) (packet : Packet) (destination : Ethernet.Address) :
    Except TooLong Interface := do
  let frame ← packet.toFrame interface.policy interface.hardware destination
  return { interface with frames := interface.frames ++ [frame.toBytes] }

/-- Let a datagram wait. It is dropped if too many wait already. -/
def enqueue (interface : Interface) (datagram : Ipv4.Datagram) (nextHop : Ipv4.Address) :
    Interface :=
  if interface.waiting.length < maxWaiting then
    { interface with waiting := interface.waiting ++ [⟨nextHop, interface.now, datagram⟩] }
  else
    interface

def send (interface : Interface) (datagram : Ipv4.Datagram) (nextHop : Ipv4.Address) :
    Except TooLong Interface :=
  match interface.neighbors.lookup nextHop interface.now with
  | .found hardware => interface.emit (.ipv4 datagram) hardware
  | .askedLately => .ok (interface.enqueue datagram nextHop)
  | .unknown => do
    let request := Arp.Message.request interface.hardware interface.address nextHop
    let asked ← interface.emit (.arp request) .broadcast
    return { asked with neighbors := asked.neighbors.noteAsked nextHop asked.now }.enqueue
      datagram nextHop

def release (interface : Interface) (address : Ipv4.Address) (hardware : Ethernet.Address) :
    Except TooLong Interface :=
  let (ready, others) := interface.waiting.partition fun waiting => waiting.nextHop = address
  ready.foldlM (fun current waiting => current.emit (.ipv4 waiting.datagram) hardware)
    { interface with waiting := others }

/-- A message that tells the hardware address of its sender. -/
def isCredible (message : Arp.Message) : Bool :=
  message.operation.isKnown && message.senderHardware.isUnicast &&
    !message.senderAddress.isUnspecified

/-- Learn the address of the sender, send what waited for it, and answer if asked. -/
def heed (interface : Interface) (message : Arp.Message) : Except TooLong Interface := do
  if isCredible message then
    let neighbors :=
      interface.neighbors.fill message.senderAddress message.senderHardware interface.now
    let learned := { interface with neighbors }
    let released ← learned.release message.senderAddress message.senderHardware
    if message.operation = .request ∧ message.targetAddress = interface.address then
      released.emit (.arp (message.replyTo interface.hardware)) message.senderHardware
    else
      return released
  else
    return interface

/-- The packet in a frame for this interface or for everyone. -/
def arriving? (interface : Interface) (bytes : Bytes) : Option Packet := do
  let frame ← Ethernet.Frame.ofBytes? bytes
  guard (frame.destination = interface.hardware ∨ frame.destination.isBroadcast)
  Packet.ofFrame? interface.policy frame

def receive (interface : Interface) (bytes : Bytes) :
    Except TooLong (Option Ipv4.Datagram × Interface) :=
  match interface.arriving? bytes with
  | none => .ok (none, interface)
  | some (.ipv4 datagram) => .ok (some datagram, interface)
  | some (.arp message) => do return (none, ← interface.heed message)

/-- Let time pass: forget what has run out, and drop what has waited too long. -/
def tick (interface : Interface) (span : Duration) : Interface :=
  let now := interface.now + span
  { interface with
    now
    neighbors := interface.neighbors.expire now
    waiting := interface.waiting.filter fun waiting =>
      decide (now < waiting.since + NeighborCache.silence) }

def drain (interface : Interface) : List Bytes × Interface :=
  (interface.frames, { interface with frames := [] })

inductive Op where
  | send (datagram : Ipv4.Datagram) (nextHop : Ipv4.Address)
  | receive (frame : Bytes)
  | tick (span : Duration)
  | setPolicy (policy : Checksum.Policy)
  | drain
  deriving DecidableEq

inductive Reply where
  | done
  | delivered (datagram : Option Ipv4.Datagram)
  | frames (frames : List Bytes)
  deriving DecidableEq

def step (interface : Interface) : Op → Except TooLong (Reply × Interface)
  | .send datagram nextHop => do return (.done, ← interface.send datagram nextHop)
  | .receive frame => do
    let (delivered, next) ← interface.receive frame
    return (.delivered delivered, next)
  | .tick span => .ok (.done, interface.tick span)
  | .setPolicy policy => .ok (.done, { interface with policy })
  | .drain =>
    let (frames, next) := interface.drain
    .ok (.frames frames, next)

def run (interface : Interface) (ops : List Op) : Except TooLong Interface :=
  ops.foldlM (fun current op => return (← current.step op).2) interface

end Interface

end NetStack.Link
