import NetStack.Proofs.Routing.Crossing

namespace NetStack.Routing.Router

open Link (Interface)
open Link.Interface (towards)

/-- Nowhere to go: the hop limit runs out, or there is no route, or the route names a port that
    the router does not have. -/
def Lost (start : Router) (arrival : Arrival) : Prop :=
  arrival.datagram.hopLimit ≤ 1 ∨ start.table.lookup arrival.datagram.destination = none ∨
    ∃ route, start.table.lookup arrival.datagram.destination = some route ∧
      start.interface? route.interface = none

/-- What has become of the datagrams that arrived in a run: those that have been handed on, in
    order, and for each port those that the departures from there are of. -/
structure Accounts (start : Router) (ops : List Op) (handed : List Arrival)
    (sources : Nat → List Arrival) : Prop where
  readable : ∀ port, ∀ frame ∈ start.emitted port ops, (Link.Packet.read? frame).isSome
  forwards : ∀ port, List.Forall₂ (start.Forwards ops) (start.departures port ops) (sources port)
  once : ∀ port, (sources port).Nodup
  apart : ∀ port other, port ≠ other → (sources port).Disjoint (sources other)
  lost : ∀ arrival, start.Lost arrival → ∀ port, arrival ∉ sources port
  inOrder : ∀ port nextHop entry,
    (inbound entry (towards start.table.hop nextHop (sources port))).Pairwise
      fun sooner later => sooner.step < later.step
  history : ∀ port, ∃ history, (start.course ops).interface? port =
      (start.interface? port).map (·.course history) ∧
    history.filter Interface.Op.isSend = start.table.sendsOn port handed
  taken : ∀ port, inbound port handed <+: inbound port (start.arrivals ops)
  emptied : ops.getLast? = some .route →
    (∀ attachment ∈ (start.course ops).attached, attachment.received = []) ∧
      ∀ port, inbound port handed = inbound port (start.arrivals ops)

section Account

variable {start : Router} {ops : List Op} {given : List Arrival} {pending : Nat → List Arrival}

/-- A run that ends in routing leaves nothing to be routed. -/
theorem exists_tracks (idle : start.Idle) (work : ∀ op ∈ ops, op.isWork) : ∃ given pending,
    start.Tracks ops given pending ∧ (ops.getLast? = some .route → ∀ port, pending port = []) := by
  induction ops using List.reverseRecOn with
  | nil => exact ⟨[], fun _ => [], idle.tracks, nofun⟩
  | append_singleton ops op ih =>
    obtain ⟨given, pending, tracks, _⟩ := ih fun op member =>
      work op (List.mem_append_left _ member)
    rw [List.getLast?_concat]
    by_cases route : op = .route
    · subst route
      exact ⟨_, _, tracks.step_of_route, fun _ _ => rfl⟩
    · have works := work op (List.mem_append_right _ List.mem_cons_self)
      exact ⟨_, _, tracks.step_of_onPort works route, fun last =>
        absurd (Option.some.inj last) route⟩

theorem nodup_of_filter {α : Type} [DecidableEq α] {items : List α}
    (parts : ∀ item, ∃ alike : α → Bool, alike item ∧ (items.filter alike).Nodup) :
    items.Nodup := by
  refine List.nodup_iff_count_le_one.mpr fun item => ?_
  obtain ⟨alike, self, nodup⟩ := parts item
  rw [← List.count_filter self]
  exact List.nodup_iff_count_le_one.mp nodup item

theorem exists_of_mem_right {α β : Type} {related : α → β → Prop} {lefts : List α} {rights : List β}
    (pairs : List.Forall₂ related lefts rights) {right : β} (member : right ∈ rights) :
    ∃ left, related left right := by
  induction pairs with
  | nil => cases member
  | @cons left _ _ _ pair _ ih =>
    rcases List.mem_cons.mp member with rfl | later
    · exact ⟨left, pair⟩
    · exact ih later

theorem Tracks.inbound_isPrefix (tracks : start.Tracks ops given pending) (port : Nat) :
    inbound port given <+: inbound port (start.arrivals ops) := by
  rw [tracks.split]
  exact List.prefix_append ..

theorem Tracks.nodup_given (tracks : start.Tracks ops given pending) : given.Nodup := by
  refine nodup_of_filter fun arrival =>
    ⟨fun other => decide (other.port = arrival.port), decide_eq_true rfl, ?_⟩
  exact (tracks.inbound_isPrefix arrival.port).sublist.nodup
    ((start.nodup_arrivals ops).filter _)

section Conveys

variable {port : Nat} {left kept : List Arrival} (conveys : start.Conveys ops given port left kept)

include conveys

theorem Conveys.towards_sublist (nextHop : Ipv4.Address) :
    (towards start.table.hop nextHop left).Sublist given := by
  have sublist := conveys.inOrder nextHop
  rw [Interface.towards_append] at sublist
  exact (List.sublist_append_left ..).trans <| sublist.trans <|
    List.filter_sublist.trans List.filter_sublist

theorem Conveys.nodup (nodup : given.Nodup) : left.Nodup := by
  refine nodup_of_filter fun arrival =>
    ⟨fun other => decide (start.table.hop other = start.table.hop arrival), decide_eq_true rfl, ?_⟩
  exact (conveys.towards_sublist (start.table.hop arrival)).nodup nodup

end Conveys

theorem Tracks.interface?_isSome (tracks : start.Tracks ops given pending) {port : Nat}
    {interface : Interface} (there : (start.course ops).interface? port = some interface) :
    (start.interface? port).isSome := by
  obtain ⟨left, kept, conveys⟩ := tracks.conveys port
  obtain ⟨history, ran, _⟩ := conveys.history
  rw [ran] at there
  obtain ⟨before, found, _⟩ := Option.map_eq_some_iff.mp there
  rw [found]
  rfl

theorem Forwards.not_lost {departure : Departure} {arrival : Arrival} (idle : start.Idle)
    (work : ∀ op ∈ ops, op.isWork) (forwards : start.Forwards ops departure arrival) :
    ¬ start.Lost arrival := by
  obtain ⟨route, found, _, here, front, interface, _, before, _, there, _⟩ := forwards.routed
  have alive := forwards.alive
  rintro (old | unknown | ⟨other, chosen, missing⟩)
  · have one : (1 : UInt8).toNat = 1 := rfl
    rw [UInt8.le_iff_toNat_le, one] at old
    omega
  · cases unknown.symm.trans found
  · cases chosen.symm.trans found
    obtain ⟨_, _, tracks, _⟩ := exists_tracks idle fun op member => work op (before.subset member)
    have present := tracks.interface?_isSome there
    rw [← here, missing] at present
    cases present

theorem Tracks.exists_accounts (idle : start.Idle) (work : ∀ op ∈ ops, op.isWork)
    (tracks : start.Tracks ops given pending)
    (routed : ops.getLast? = some .route → ∀ port, pending port = []) :
    ∃ sources, start.Accounts ops given sources := by
  choose sources kept conveys using tracks.conveys
  refine ⟨sources, {
    readable := fun port => (conveys port).readable
    forwards := fun port => (conveys port).forwards
    once := fun port => (conveys port).nodup tracks.nodup_given
    apart := fun port other differ arrival here there => ?_
    lost := fun arrival lost port member => ?_
    inOrder := fun port nextHop entry => ?_
    history := fun port => (conveys port).history
    taken := tracks.inbound_isPrefix
    emptied := fun last => ⟨fun attachment member => ?_, fun port => ?_⟩ }⟩
  · have goes := ((conveys port).mem_given (List.mem_append_left _ here)).2
    have also := ((conveys other).mem_given (List.mem_append_left _ there)).2
    obtain ⟨route, _, found, rfl, _⟩ := onward_of_goesTo goes
    obtain ⟨_, _, again, rfl, _⟩ := onward_of_goesTo also
    cases found.symm.trans again
    exact differ rfl
  · obtain ⟨departure, forwards⟩ := exists_of_mem_right (conveys port).forwards member
    exact forwards.not_lost idle work lost
  · have sublist := ((conveys port).towards_sublist nextHop).filter
      fun arrival => decide (arrival.port = entry)
    have ordered := (start.pairwise_arrivals ops).filter
      fun arrival => decide (arrival.port = entry)
    exact ordered.sublist (sublist.trans (tracks.inbound_isPrefix entry).sublist)
  · obtain ⟨port, there⟩ := List.mem_iff_getElem?.mp member
    have received := tracks.received port
    rw [there, routed last] at received
    exact received
  · rw [tracks.split, routed last, List.append_nil]

end Account

/-- The way of a datagram through some routers: it arrives at each as it left the one before. -/
inductive Travels (first : Ipv4.Datagram) : Nat → Ipv4.Datagram → Prop where
  | start : Travels first 0 first
  | cross {count : Nat} {start : Router} {ops : List Op} {handed : List Arrival}
      {sources : Nat → List Arrival} {port : Nat} {departure : Departure} {arrival : Arrival}
      (idle : start.Idle) (work : ∀ op ∈ ops, op.isWork)
      (accounts : start.Accounts ops handed sources)
      (came : Travels first count arrival.datagram)
      (crosses : (departure, arrival) ∈ (start.departures port ops).zip (sources port)) :
      Travels first (count + 1) departure.datagram

theorem Travels.hopLimit {first last : Ipv4.Datagram} {count : Nat}
    (travels : Travels first count last) :
    last.hopLimit.toNat + count = first.hopLimit.toNat ∧ (count ≠ 0 → 1 ≤ last.hopLimit.toNat) := by
  induction travels with
  | start => exact ⟨rfl, fun some => absurd rfl some⟩
  | @cross count start ops handed sources port departure arrival _ _ accounts _ crosses ih =>
    have forwards := List.forall₂_zip (accounts.forwards port) crosses
    have lowered := forwards.hopLimit
    have alive := forwards.alive
    omega

/-- Whatever leaves a router arrived there, and leaves once and on its route. So a datagram crosses
    fewer routers than its hop limit tells, wherever their routes lead. -/
theorem forwards_once {start : Router} {ops : List Op} (idle : start.Idle)
    (work : ∀ op ∈ ops, op.isWork) :
    start.run ops = .ok (start.course ops) ∧
      (∃ handed sources, start.Accounts ops handed sources) ∧
      ∀ first count last, Travels first count last → count ≤ first.hopLimit.toNat - 1 := by
  obtain ⟨given, pending, tracks, routed⟩ := exists_tracks idle work
  refine ⟨tracks.ran, ⟨given, tracks.exists_accounts idle work routed⟩, ?_⟩
  intro first count last travels
  obtain ⟨sum, alive⟩ := travels.hopLimit
  omega

/-- A datagram waits for the address of its receiver, and leaves when the receiver tells it. -/
theorem forwards_once_answered :
    let interface (port : UInt8) : Interface :=
      .fresh ⟨2, 0, 0, 0, 0, port⟩ (.ofOctets 10 0 port 1)
    let network : Ipv4.Cidr := ⟨.ofOctets 10 0 1 0, 24, by decide⟩
    let start : Router :=
      { attached := [{ interface := interface 0 }, { interface := interface 1 }]
        table := ⟨[⟨network, none, 1⟩]⟩ }
    let datagram : Ipv4.Datagram :=
      { source := .ofOctets 10 0 0 9, destination := .ofOctets 10 0 1 9, protocol := .udp,
        hopLimit := 2, payload := [7] }
    let frame : Bytes := [2, 0, 0, 0, 0, 0, 2, 0, 0, 0, 0, 9, 8, 0, 69, 0, 0, 21, 0, 0, 64, 0, 2,
      17, 99, 199, 10, 0, 0, 9, 10, 0, 1, 9, 7]
    let answer : Bytes := [2, 0, 0, 0, 0, 1, 2, 0, 0, 0, 1, 9, 8, 6, 0, 1, 8, 0, 6, 4, 0, 2, 2, 0,
      0, 0, 1, 9, 10, 0, 1, 9, 2, 0, 0, 0, 0, 1, 10, 0, 1, 1]
    let ops : List Op := [.receiveFrame 0 frame, .route, .receiveFrame 1 answer]
    let arrival : Arrival := ⟨0, 0, datagram⟩
    let departure : Departure := ⟨2, 1, ⟨2, 0, 0, 0, 1, 9⟩, arrival.aged⟩
    start.departures 1 ops = [departure] ∧
      start.Forwards ops departure arrival ∧ Travels datagram 1 departure.datagram := by
  intro interface network start datagram frame answer ops arrival departure
  have idle : start.Idle := by
    rintro (_ | _ | port) attachment there
    · cases there
      exact ⟨rfl, rfl, Link.NeighborCache.sound_empty⟩
    · cases there
      exact ⟨rfl, rfl, Link.NeighborCache.sound_empty⟩
    · cases there
  have work : ∀ op ∈ ops, op.isWork := by decide +kernel
  have left : start.departures 1 ops = [departure] := by decide +kernel
  obtain ⟨_, ⟨handed, sources, accounts⟩, _⟩ := forwards_once idle work
  have forwards := accounts.forwards 1
  rw [left] at forwards
  obtain ⟨source, _, crossed, nothing, split⟩ := List.forall₂_cons_left_iff.mp forwards
  cases nothing
  have arrived : start.arrivals ops = [arrival] := by decide +kernel
  have same : source = arrival := by
    have member := crossed.arrived
    rw [arrived] at member
    exact List.mem_singleton.mp member
  rw [same] at crossed split
  have came : Travels datagram 0 arrival.datagram := .start
  have crosses : (departure, arrival) ∈ (start.departures 1 ops).zip (sources 1) := by
    rw [left, split]
    exact List.mem_cons_self
  exact ⟨left, crossed, .cross idle work accounts came crosses⟩

end NetStack.Routing.Router
