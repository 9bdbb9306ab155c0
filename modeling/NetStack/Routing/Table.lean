import NetStack.Ipv4.Cidr

namespace NetStack.Routing

structure Route where
  network : Ipv4.Cidr
  /-- The router to hand them to; `none` if the network is attached directly. -/
  via : Option Ipv4.Address
  interface : Nat
  deriving DecidableEq

def Route.gateway (router : Ipv4.Address) (interface : Nat) : Route :=
  ⟨.everything, some router, interface⟩

def Route.nextHop (route : Route) (destination : Ipv4.Address) : Ipv4.Address :=
  route.via.getD destination

structure Table where
  routes : List Route
  deriving DecidableEq

namespace Table

def empty : Table := ⟨[]⟩

def maxRoutes : Nat := 16

inductive Full where
  | full
  deriving DecidableEq

def Full.message : Full → String
  | full => "Route table full"

def add (table : Table) (route : Route) : Except Full Table :=
  if table.routes.length < maxRoutes then .ok ⟨table.routes ++ [route]⟩ else .error .full

/-- The better of a route and one that was added after it: the one with the longer network. -/
def prefer (earlier later : Route) : Route :=
  if earlier.network.length < later.network.length then later else earlier

def best? : List Route → Option Route
  | [] => none
  | first :: rest => some (rest.foldl prefer first)

def lookup (table : Table) (destination : Ipv4.Address) : Option Route :=
  best? (table.routes.filter fun route => route.network.contains destination)

end Table

end NetStack.Routing
