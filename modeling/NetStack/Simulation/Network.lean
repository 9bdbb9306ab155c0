import NetStack.Routing.Router
import NetStack.Tcp.Binding
import NetStack.Tcp.Connection

namespace NetStack.Simulation

open Ipv4.Datagram (TooLong)
open Tcp

structure Host where
  connection : Connection
  binding : Binding
  interface : Link.Interface
  gateway : Ipv4.Address
  deriving DecidableEq

namespace Host

/-- Send the segments that the connection has queued, and say whether any could be addressed. The
    others are gone. -/
def send (host : Host) : Except TooLong (Bool × Host) := do
  let datagrams := host.connection.queue.filterMap host.binding.enclose?
  let interface ← datagrams.foldlM (fun current datagram => current.send datagram host.gateway)
    host.interface
  let connection := { host.connection with queue := [] }
  return (!datagrams.isEmpty, { host with connection, interface })

def receive (host : Host) (frame : Bytes) : Except TooLong Host := do
  let (datagram?, interface) ← host.interface.receive frame
  match datagram? with
  | none => return { host with interface }
  | some datagram =>
    let (segment?, binding) := host.binding.accept datagram
    let connection := segment?.elim host.connection host.connection.receive
    return { host with connection, binding, interface }

def tick (host : Host) (span : Duration) : Host :=
  { host with
    connection := host.connection.tick span
    interface := host.interface.tick span }

def drain (host : Host) : List Bytes × Host :=
  let (frames, interface) := host.interface.drain
  (frames, { host with interface })

end Host

inductive Way where
  | fromClient
  | fromServer
  | toClient
  | toServer
  | lost
  deriving DecidableEq

structure Crossing where
  way : Way
  frame : Bytes
  deriving DecidableEq

structure Faults where
  linkUp : Bool := true
  losses : Nat := 0
  damages : Nat := 0
  damagedIndex : Nat := 0
  damagedBits : UInt8 := 0
  deriving DecidableEq

structure Network where
  client : Host
  server : Host
  router : Routing.Router
  faults : Faults := {}
  deriving DecidableEq

namespace Network

def clientEndpoint : Ipv4.Endpoint := ⟨.ofOctets 10 0 0 2, 49152⟩
def serverEndpoint : Ipv4.Endpoint := ⟨.ofOctets 192 168 0 2, 80⟩
def clientGateway : Ipv4.Address := .ofOctets 10 0 0 1
def serverGateway : Ipv4.Address := .ofOctets 192 168 0 1

def hardware (number : UInt8) : Ethernet.Address := ⟨2, 0, 0, 0, 0, number⟩

def initialRouter : Routing.Router where
  attached := [{ interface := { hardware := hardware 1, address := clientGateway } },
    { interface := { hardware := hardware 2, address := serverGateway } }]
  table := ⟨[⟨⟨.ofOctets 10 0 0 0, 24, by decide⟩, none, 0⟩,
    ⟨⟨.ofOctets 192 168 0 0, 24, by decide⟩, none, 1⟩]⟩

def ofConfigs (client server : Config) : Network where
  client := {
    connection := .ofConfig client
    binding := { own := clientEndpoint, peer := some serverEndpoint }
    interface := { hardware := hardware 0x10, address := clientEndpoint.address }
    gateway := clientGateway }
  server := {
    connection := .ofConfig server
    binding := { own := serverEndpoint }
    interface := { hardware := hardware 0x20, address := serverEndpoint.address }
    gateway := serverGateway }
  router := initialRouter

def carriesIpv4 (frame : Bytes) : Bool :=
  (Ethernet.Frame.ofBytes? frame).any fun frame => frame.type = .ipv4

/-- What the faults make of a frame: nothing if it is lost, else the octets that arrive. -/
def meet (faults : Faults) (frame : Bytes) : Option Bytes × Faults :=
  if !faults.linkUp then (none, faults)
  else if carriesIpv4 frame && faults.losses != 0 then
    (none, { faults with losses := faults.losses - 1 })
  else if carriesIpv4 frame && faults.damages != 0 then
    (some (frame.modify faults.damagedIndex (· ^^^ faults.damagedBits)),
      { faults with damages := faults.damages - 1 })
  else
    (some frame, faults)

def carryToServer (network : Network) (frame : Bytes) : Except TooLong (Crossing × Network) :=
  match meet network.faults frame with
  | (none, faults) => .ok (⟨.lost, frame⟩, { network with faults })
  | (some arrived, faults) => do
    let server ← network.server.receive arrived
    return (⟨.toServer, arrived⟩, { network with server, faults })

def carryAllToServer : List Bytes → Network → Except TooLong (List Crossing × Network)
  | [], network => .ok ([], network)
  | frame :: rest, network => do
    let (crossing, carried) ← network.carryToServer frame
    let (crossings, final) ← carryAllToServer rest carried
    return (crossing :: crossings, final)

/-- One round: both hosts send, the router takes their frames and routes what they carried, and both
    hosts take the frames of the router. Says whether anything moved. -/
def round (network : Network) : Except TooLong (Bool × List Crossing × Network) := do
  let (clientSent, client) ← network.client.send
  let (serverSent, server) ← network.server.send
  let (clientFrames, client) := client.drain
  let (serverFrames, server) := server.drain
  let router ← clientFrames.foldlM (fun router frame => router.receiveFrame 0 frame) network.router
  let router ← serverFrames.foldlM (fun router frame => router.receiveFrame 1 frame) router
  let router ← router.route
  let (toClient, router) := router.drain 0
  let (toServer, router) := router.drain 1
  let client ← toClient.foldlM Host.receive client
  let (carried, next) ← carryAllToServer toServer { network with client, server, router }
  let moved := clientSent || serverSent ||
    !(clientFrames ++ serverFrames ++ toClient ++ toServer).isEmpty
  let log := clientFrames.map (Crossing.mk .fromClient) ++
    serverFrames.map (Crossing.mk .fromServer) ++ toClient.map (Crossing.mk .toClient) ++ carried
  return (moved, log, next)

def exchange : Nat → Network → Except TooLong (List Crossing × Network)
  | 0, network => .ok ([], network)
  | limit + 1, network => do
    let (moved, log, next) ← network.round
    if moved then
      let (rest, final) ← exchange limit next
      return (log ++ rest, final)
    else
      return (log, next)

def maxRounds : Nat := 300

inductive Op where
  | client (op : Connection.Op)
  | server (op : Connection.Op)
  | tick (span : Duration)
  | lose (count : Nat)
  | damage (count index : Nat) (bits : UInt8)
  | setLink (isUp : Bool)
  deriving DecidableEq

def tick (network : Network) (span : Duration) : Network :=
  { network with
    client := network.client.tick span
    server := network.server.tick span
    router := network.router.tick span }

def act (network : Network) : Op → Connection.Reply × Network
  | .client op =>
    let (reply, connection) := network.client.connection.step op
    (reply, { network with client := { network.client with connection } })
  | .server op =>
    let (reply, connection) := network.server.connection.step op
    (reply, { network with server := { network.server with connection } })
  | .tick span => (.done, network.tick span)
  | .lose count => (.done, { network with faults := { network.faults with losses := count } })
  | .damage count index bits =>
    (.done, { network with faults :=
      { network.faults with damages := count, damagedIndex := index, damagedBits := bits } })
  | .setLink isUp => (.done, { network with faults := { network.faults with linkUp := isUp } })

def step (network : Network) (op : Op) :
    Except TooLong (Connection.Reply × List Crossing × Network) := do
  let (reply, acted) := network.act op
  let (log, next) ← exchange maxRounds acted
  return (reply, log, next)

end Network

end NetStack.Simulation
