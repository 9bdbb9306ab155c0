import NetStack.Ethernet.Address
import NetStack.Ipv4.Address
import NetStack.Link.SlotTable
import NetStack.Time

namespace NetStack.Link

structure Neighbor where
  hardware : Ethernet.Address
  expiresAt : Instant
  deriving DecidableEq

structure NeighborCache where
  known : SlotTable Ipv4.Address Neighbor 16
  /-- The addresses that were asked for, and until when they are not to be asked for again. -/
  asked : SlotTable Ipv4.Address Instant 16
  deriving DecidableEq

namespace NeighborCache

def empty : NeighborCache := ⟨.empty, .empty⟩

def lifetime : Duration := .ofSeconds 30

def silence : Duration := .ofSeconds 5

/-- Remember the hardware address of a neighbor. If the cache is full, the mapping that would expire
    first gives way. -/
def fill (cache : NeighborCache) (address : Ipv4.Address) (hardware : Ethernet.Address)
    (now : Instant) : NeighborCache where
  known := cache.known.put (·.expiresAt.millis) address ⟨hardware, now + lifetime⟩
  asked := cache.asked.erase address

inductive Answer where
  | found (hardware : Ethernet.Address)
  | unknown
  | askedLately
  deriving DecidableEq

def isSilent (cache : NeighborCache) (address : Ipv4.Address) (now : Instant) : Bool :=
  (cache.asked.get? address).any fun wakes => decide (now < wakes)

def lookup (cache : NeighborCache) (address : Ipv4.Address) (now : Instant) : Answer :=
  match (cache.known.get? address).filter fun neighbor => decide (now < neighbor.expiresAt) with
  | some neighbor => .found neighbor.hardware
  | none => if cache.isSilent address now then .askedLately else .unknown

def noteAsked (cache : NeighborCache) (address : Ipv4.Address) (now : Instant) : NeighborCache :=
  { cache with asked := cache.asked.put (·.millis) address (now + silence) }

def expire (cache : NeighborCache) (now : Instant) : NeighborCache where
  known := cache.known.eraseWhere fun neighbor => decide (neighbor.expiresAt ≤ now)
  asked := cache.asked.eraseWhere fun wakes => decide (wakes ≤ now)

end NeighborCache

end NetStack.Link
