import NetStack.Proofs.Link.Exchange
import NetStack.Proofs.Network.Junction

namespace NetStack.Simulation

open Link (Interface)
open Routing (Router Attachment Table)
open Tcp

variable {station : Station} {router : Router} {port : Nat} {here : Attachment}

theorem set_self (there : router.attached[port]? = some here) :
    { router with attached := router.attached.set port here } = router := by
  obtain ⟨inside, same⟩ := List.getElem?_eq_some_iff.mp there
  rw [← same, List.set_getElem_self inside]

theorem receiveFrame_of_there {frame : Bytes} {datagram? : Option Ipv4.Datagram}
    {interface : Interface} (there : router.attached[port]? = some here)
    (received : here.interface.receive frame = .ok (datagram?, interface)) :
    router.receiveFrame port frame = .ok { router with
      attached := router.attached.set port
        { interface, received := here.received ++ datagram?.toList } } := by
  unfold Router.receiveFrame
  rw [there]
  dsimp only
  rw [received]
  rfl

section Message

variable {frame : Bytes} {after : Interface}

theorem deliver_message (there : router.attached[port]? = some here)
    (ready : station.interface.frames = [frame])
    (received : here.interface.receive frame = .ok (none, after)) :
    station.deliver port router = .ok
      ({ station with interface := { station.interface with frames := [] } },
        { router with
          attached := router.attached.set port { here with interface := after } }) := by
  unfold Station.deliver Interface.drain
  rw [ready]
  dsimp only
  rw [List.foldlM_cons, receiveFrame_of_there there received, Option.toList_none, List.append_nil]
  rfl

theorem collect_message (there : router.attached[port]? = some here)
    (ready : here.interface.frames = [frame])
    (received : station.interface.receive frame = .ok (none, after)) :
    station.collect port router = .ok
      ({ station with interface := after },
        { router with
          attached := router.attached.set port
            { here with interface := { here.interface with frames := [] } } }) := by
  have heard : station.receive frame = .ok { station with interface := after } := by
    unfold Station.receive
    rw [received]
    rfl
  unfold Station.collect Router.drain Interface.drain
  rw [there]
  dsimp only
  rw [ready, List.foldlM_cons, heard]
  rfl

end Message

section Datagrams

variable {frames : List Bytes} {datagrams : List Ipv4.Datagram}

theorem foldlM_receiveFrame (there : router.attached[port]? = some here)
    (bring : frames.map here.interface.arriving? =
      datagrams.map fun datagram => some (.ipv4 datagram)) :
    frames.foldlM (fun router frame => router.receiveFrame port frame) router =
      .ok { router with
        attached := router.attached.set port
          { here with received := here.received ++ datagrams } } := by
  induction frames generalizing router here datagrams with
  | nil =>
    rw [List.map_nil] at bring
    cases List.map_eq_nil_iff.mp bring.symm
    rw [List.append_nil, set_self there]
    rfl
  | cons frame frames ih =>
    obtain ⟨datagram, rest, rfl⟩ : ∃ datagram rest, datagrams = datagram :: rest := by
      cases datagrams with
      | nil => cases bring
      | cons datagram rest => exact ⟨datagram, rest, rfl⟩
    obtain ⟨first, later⟩ := List.cons.inj bring
    let after : Attachment := { here with received := here.received ++ [datagram] }
    have inside := (List.getElem?_eq_some_iff.mp there).1
    have received := receiveFrame_of_there there (Interface.receive_of_ipv4 first)
    have present : (router.attached.set port after)[port]? = some after :=
      List.getElem?_set_self inside
    have carried := @ih { router with attached := router.attached.set port after } after rest
      present later
    rw [List.foldlM_cons, received]
    refine carried.trans ?_
    rw [List.set_set, List.append_assoc]
    rfl

theorem deliver_datagrams (there : router.attached[port]? = some here)
    (bring : station.interface.frames.map here.interface.arriving? =
      datagrams.map fun datagram => some (.ipv4 datagram)) :
    station.deliver port router = .ok
      ({ station with interface := { station.interface with frames := [] } },
        { router with
          attached := router.attached.set port
            { here with received := here.received ++ datagrams } }) := by
  unfold Station.deliver Interface.drain
  dsimp only
  rw [foldlM_receiveFrame there bring]
  rfl

theorem foldlM_receive {segments : List Segment}
    (bring : frames.map station.interface.arriving? =
      datagrams.map fun datagram => some (.ipv4 datagram))
    (accepted : datagrams.map station.binding.accept =
      segments.map fun segment => (some segment, station.binding)) :
    frames.foldlM Station.receive station =
      .ok { station with taken := station.taken ++ segments } := by
  induction frames generalizing station datagrams segments with
  | nil =>
    rw [List.map_nil] at bring
    cases List.map_eq_nil_iff.mp bring.symm
    rw [List.map_nil] at accepted
    cases List.map_eq_nil_iff.mp accepted.symm
    rw [List.append_nil]
    rfl
  | cons frame frames ih =>
    cases datagrams with
    | nil => cases bring
    | cons datagram datagrams =>
    cases segments with
    | nil => cases accepted
    | cons segment segments =>
    obtain ⟨first, later⟩ := List.cons.inj bring
    obtain ⟨taken, others⟩ := List.cons.inj accepted
    have received : station.receive frame =
        .ok { station with taken := station.taken ++ [segment] } := by
      unfold Station.receive
      rw [Interface.receive_of_ipv4 first]
      dsimp only [bind, Except.bind]
      rw [taken]
      rfl
    have carried := @ih { station with taken := station.taken ++ [segment] } datagrams segments
      later others
    rw [List.foldlM_cons, received]
    refine carried.trans ?_
    rw [List.append_assoc]
    rfl

theorem collect_datagrams {segments : List Segment} (there : router.attached[port]? = some here)
    (bring : here.interface.frames.map station.interface.arriving? =
      datagrams.map fun datagram => some (.ipv4 datagram))
    (accepted : datagrams.map station.binding.accept =
      segments.map fun segment => (some segment, station.binding)) :
    station.collect port router = .ok
      ({ station with taken := station.taken ++ segments },
        { router with
          attached := router.attached.set port
            { here with interface := { here.interface with frames := [] } } }) := by
  unfold Station.collect Router.drain Interface.drain
  rw [there]
  dsimp only
  rw [foldlM_receive bring accepted]
  rfl

theorem foldlM_forward {interface : Interface} {nextHop : Ipv4.Address}
    (there : router.attached[port]? = some here)
    (onward : ∀ datagram ∈ datagrams, ∃ route, router.table.onward? datagram = some route ∧
      route.interface = port ∧ route.nextHop datagram.destination = nextHop)
    (sent : (datagrams.map Ipv4.Datagram.aged).foldlM
      (fun current datagram => current.send datagram nextHop) here.interface = .ok interface) :
    datagrams.foldlM Router.forward router =
      .ok { router with attached := router.attached.set port { here with interface } } := by
  induction datagrams generalizing router here with
  | nil =>
    cases sent
    rw [set_self there]
    rfl
  | cons datagram datagrams ih =>
    obtain ⟨route, leads, rfl, rfl⟩ := onward datagram List.mem_cons_self
    rw [List.map_cons, List.foldlM_cons] at sent
    obtain ⟨between, first, later⟩ := Link.exists_of_bind_eq_ok sent
    let after : Attachment := { here with interface := between }
    have inside := (List.getElem?_eq_some_iff.mp there).1
    have present : (router.attached.set route.interface after)[route.interface]? = some after :=
      List.getElem?_set_self inside
    have carried := @ih { router with attached := router.attached.set route.interface after } after
      present (fun other member => onward other (List.mem_cons_of_mem _ member)) later
    rw [List.foldlM_cons, Routing.Router.forward_of_onward leads there first]
    refine carried.trans ?_
    rw [List.set_set]

end Datagrams

end NetStack.Simulation
