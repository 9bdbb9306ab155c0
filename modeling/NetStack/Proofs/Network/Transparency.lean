import NetStack.Proofs.Network.Transit
import NetStack.Proofs.Wire.Carriage

namespace NetStack.Simulation

open Link (Interface Packet)
open Routing (Router Attachment Table)
open Tcp

structure Station.Fresh (station : Station) : Prop where
  blank : station.interface.Blank
  address : station.interface.address = station.binding.own.address
  port : station.binding.own.port ≠ 0
  policy : station.binding.policy = {}
  taken : station.taken = []

/-- A port of a new router leads to a station. The router is the gateway of the station, and its
    table has the station attached directly. -/
structure Serves (router : Router) (port : Nat) (station : Station) : Prop where
  gateway : ∃ attachment, router.attached[port]? = some attachment ∧ attachment.received = [] ∧
    attachment.interface.Blank ∧ station.gateway = attachment.interface.address
  direct : ∃ route, router.table.lookup station.binding.own.address = some route ∧
    route.via = none ∧ route.interface = port

namespace Junction

/-- The bindings of two new stations are connected, and a new router joins the stations. -/
structure Joins (junction : Junction) : Prop where
  home : junction.home.Fresh
  away : junction.away.Fresh
  homePeer : junction.home.binding.peer = some junction.away.binding.own
  awayPeer : junction.away.binding.peer = some junction.home.binding.own
  near : Serves junction.router junction.near junction.home
  far : Serves junction.router junction.far junction.away
  two : junction.router.attached.length = 2
  apart : junction.near ≠ junction.far

section Transparent

variable {junction : Junction}

/-- A segment as it arrives at the other station: with the ports of both, and with the checksum
    that it was sent with. -/
def arrived (junction : Junction) (segment : Segment) : Segment :=
  { segment.between junction.home.binding.own junction.away.binding.own with
    checksum := Tcp.Packet.checksum
      ⟨(junction.home.binding.parcel junction.away.binding.own segment).payload⟩ }

theorem Joins.exists_joined (joins : junction.Joins) : ∃ swapped near far,
    (∀ home, { junction with home } = joined swapped junction.router.table home junction.away
      ⟨near, []⟩ ⟨far, []⟩) ∧ near.Blank ∧ far.Blank ∧
      junction.home.gateway = near.address := by
  obtain ⟨home, away, ⟨attached, table⟩, near, far⟩ := junction
  obtain ⟨first, second, rfl⟩ := List.length_eq_two.mp joins.two
  obtain ⟨⟨here, _⟩, there, rfl, blank, gateway⟩ := joins.near.gateway
  obtain ⟨⟨other, _⟩, yonder, rfl, vacant, _⟩ := joins.far.gateway
  have apart : near ≠ far := joins.apart
  match near, far with
  | 0, 0 | 1, 1 => exact absurd rfl apart
  | 0, 1 =>
    cases there
    cases yonder
    exact ⟨false, here, other, fun _ => rfl, blank, vacant, gateway⟩
  | 1, 0 =>
    cases there
    cases yonder
    exact ⟨true, here, other, fun _ => rfl, blank, vacant, gateway⟩
  | _ + 2, _ => cases there
  | _, _ + 2 => cases yonder

theorem Joins.accept_aged (joins : junction.Joins) {segment : Segment}
    (short : segment.payload.length ≤ longestPayload) :
    junction.away.binding.accept
        (junction.home.binding.parcel junction.away.binding.own segment).aged =
      (some (junction.arrived segment), junction.away.binding) := by
  have verified : junction.away.binding.policy.tcp.verifies →
      junction.home.binding.policy.tcp.computes := by
    rw [joins.home.policy, joins.away.policy]
    exact id
  have arrives : junction.away.binding.arriving?
      (junction.home.binding.parcel junction.away.binding.own segment).aged =
        some (junction.home.binding.own, junction.arrived segment) :=
    Binding.arriving?_parcel junction.home.binding junction.away.binding joins.home.port
      joins.away.port short verified
  unfold Binding.accept
  rw [arrives, joins.awayPeer]
  dsimp only
  rw [if_pos rfl]

theorem Joins.onward (joins : junction.Joins) (lasting : 2 ≤ junction.home.binding.hopLimit.toNat)
    (segment : Segment) : ∃ route,
      junction.router.table.onward?
          (junction.home.binding.parcel junction.away.binding.own segment) = some route ∧
        route.interface = junction.far ∧
        route.nextHop (junction.home.binding.parcel junction.away.binding.own segment).destination =
          junction.away.interface.address := by
  obtain ⟨route, found, direct, port⟩ := joins.far.direct
  have alive : ¬ junction.home.binding.hopLimit ≤ 1 := by
    have one : (1 : UInt8).toNat = 1 := rfl
    rw [UInt8.le_iff_toNat_le, one]
    omega
  refine ⟨route, (if_neg alive).trans found, port, ?_⟩
  unfold Routing.Route.nextHop
  rw [direct]
  exact joins.away.address.symm

def settled (swapped : Bool) (junction : Junction) (near far : Interface)
    (segments : List Segment) : Junction :=
  let datagrams := segments.map (junction.home.binding.parcel junction.away.binding.own)
  joined swapped junction.router.table
    { junction.home with
      interface := { junction.home.interface.informed near datagrams with frames := [] } }
    { junction.away with
      interface := { junction.away.interface.answering far with frames := [] }
      taken := junction.away.taken ++ segments.map junction.arrived }
    ⟨{ near.answering junction.home.interface with frames := [] }, []⟩
    ⟨{ far.informed junction.away.interface (datagrams.map Ipv4.Datagram.aged) with
      frames := [] }, []⟩

theorem Joins.quiet_settled (joins : junction.Joins) {near : Interface} (blank : near.Blank)
    (swapped : Bool) (far : Interface) (segments : List Segment) :
    (settled swapped junction near far segments).Quiet where
  home := ⟨rfl, rfl⟩
  away := ⟨rfl, joins.away.blank.waiting⟩
  router attachment member := by
    rcases mem_arranged.mp member with rfl | rfl
    · exact ⟨rfl, rfl, blank.waiting⟩
    · exact ⟨rfl, rfl, rfl⟩

theorem length_parcel_le (junction : Junction) {segments : List Segment}
    (short : ∀ segment ∈ segments, segment.payload.length ≤ 65495) :
    ∀ datagram ∈ segments.map (junction.home.binding.parcel junction.away.binding.own),
      datagram.length ≤ Ipv4.Datagram.maxLength := by
  intro datagram member
  obtain ⟨segment, given, rfl⟩ := List.mem_map.mp member
  exact (Binding.parcel_length_le ..).mpr (short segment given)

theorem Joins.reaches (joins : junction.Joins) {segments : List Segment} (present : segments ≠ [])
    (few : segments.length ≤ 32)
    (short : ∀ segment ∈ segments, segment.payload.length ≤ 65495)
    (lasting : 2 ≤ junction.home.binding.hopLimit.toNat) {swapped : Bool} {near far : Interface}
    (shape : ∀ home, { junction with home } = joined swapped junction.router.table home
      junction.away ⟨near, []⟩ ⟨far, []⟩) (blank : near.Blank) (vacant : far.Blank) :
    Reaches (settled swapped junction near far segments) 7
      { junction with
        home := { junction.home with
          interface := junction.home.interface.asking near.address
            (segments.map (junction.home.binding.parcel junction.away.binding.own)) } } := by
  have fits := junction.length_parcel_le short
  have aged : ∀ datagram ∈ (segments.map
      (junction.home.binding.parcel junction.away.binding.own)).map Ipv4.Datagram.aged,
      datagram.length ≤ Ipv4.Datagram.maxLength := by
    intro datagram member
    obtain ⟨younger, given, rfl⟩ := List.mem_map.mp member
    exact fits younger given
  have accepted : ((segments.map
      (junction.home.binding.parcel junction.away.binding.own)).map Ipv4.Datagram.aged).map
        junction.away.binding.accept =
      (segments.map junction.arrived).map fun segment => (some segment, junction.away.binding) := by
    simp only [List.map_map]
    exact List.map_congr_left fun segment given => joins.accept_aged (short segment given)
  have far_port : junction.far = (!swapped).toNat := congrArg (·.far) (shape junction.home)
  rw [shape]
  refine .of_home joins.home.blank blank fits joins.away.blank.frames vacant.frames ?_
  refine .of_route vacant rfl joins.away.blank.frames rfl ?_ ?_ ?_ ?_
  · exact List.map_eq_nil_iff.not.mpr present
  · rwa [List.length_map]
  · intro datagram member
    obtain ⟨segment, _, rfl⟩ := List.mem_map.mp member
    rw [← far_port]
    exact joins.onward lasting segment
  · refine .of_away vacant joins.away.blank aged rfl rfl accepted (.here fun leg => ?_)
    exact (joins.quiet_settled blank swapped far segments).idle leg

theorem Joins.exists_reaches (joins : junction.Joins) {segments : List Segment}
    (few : segments.length ≤ 32)
    (short : ∀ segment ∈ segments, segment.payload.length ≤ 65495)
    (lasting : 2 ≤ junction.home.binding.hopLimit.toNat) :
    ∃ home final count, junction.home.send segments = .ok (!segments.isEmpty, home) ∧
      count ≤ 7 ∧ final.Quiet ∧ final.home.taken = [] ∧
        final.away.taken = segments.map junction.arrived ∧
          Reaches final count { junction with home } := by
  obtain ⟨swapped, near, far, shape, blank, vacant, gateway⟩ := joins.exists_joined
  have enclosed : segments.filterMap junction.home.binding.enclose? =
      segments.map (junction.home.binding.parcel junction.away.binding.own) := by
    rw [← List.filterMap_eq_map]
    exact List.filterMap_congr fun segment _ =>
      Binding.enclose?_eq_parcel joins.homePeer segment
  cases segments with
  | nil =>
    have attached : junction.router.attached = arranged swapped ⟨near, []⟩ ⟨far, []⟩ :=
      congrArg (·.router.attached) (shape junction.home)
    have quiet : junction.Quiet := by
      refine ⟨⟨joins.home.blank.frames, joins.home.blank.waiting⟩,
        ⟨joins.away.blank.frames, joins.away.blank.waiting⟩, fun attachment member => ?_⟩
      rw [attached] at member
      rcases mem_arranged.mp member with rfl | rfl
      · exact ⟨rfl, blank.frames, blank.waiting⟩
      · exact ⟨rfl, vacant.frames, vacant.waiting⟩
    exact ⟨junction.home, junction, 0, rfl, Nat.zero_le _, quiet, joins.home.taken,
      joins.away.taken, .here quiet.idle⟩
  | cons first rest =>
    have reaches := joins.reaches (List.cons_ne_nil first rest) few short lasting shape blank vacant
    have sent := joins.home.blank.foldlM_send near.address
      (junction.home.binding.parcel junction.away.binding.own first)
      (rest.map (junction.home.binding.parcel junction.away.binding.own))
      (by rwa [List.length_map])
    rw [← List.map_cons, ← enclosed, ← gateway] at sent
    refine ⟨_, settled swapped junction near far (first :: rest), 7, ?_, Nat.le_refl _,
      joins.quiet_settled blank swapped far _, joins.home.taken, ?_, reaches⟩
    · unfold Station.send
      dsimp only
      rw [sent, enclosed, gateway]
      rfl
    · show junction.away.taken ++ _ = _
      rw [joins.away.taken, List.nil_append]

/-- Some segments are sent, and after seven rounds in which all frames are carried and everything is
    routed they have all arrived. In whatever order that is done, nothing is ever left over
    when the network is quiet, and nothing else arrives. -/
theorem segments_cross (joins : junction.Joins) {segments : List Segment}
    (few : segments.length ≤ 32)
    (short : ∀ segment ∈ segments, segment.payload.length ≤ 65495)
    (lasting : 2 ≤ junction.home.binding.hopLimit.toNat) :
    ∃ home final, junction.home.send segments = .ok (!segments.isEmpty, home) ∧
      final.Quiet ∧ final.home.taken = [] ∧ final.away.taken = segments.map junction.arrived ∧
      (∀ legs, ∃ after, { junction with home }.carryAll legs = .ok after ∧
        (after.Quiet → after = final)) ∧
      ∀ round : List Leg, (∀ leg, leg ∈ round) → ∀ turns, 7 ≤ turns →
        { junction with home }.carryAll (List.replicate turns round).flatten = .ok final := by
  obtain ⟨home, final, count, sent, le, quiet, nothing, taken, reaches⟩ :=
    joins.exists_reaches few short lasting
  refine ⟨home, final, sent, quiet, nothing, taken, fun legs => ?_, fun round complete turns le' =>
    reaches.rounds complete (Nat.le_trans le le')⟩
  obtain ⟨after, left, carried, _, rest⟩ := reaches.carryAll legs
  exact ⟨after, carried, fun still => rest.eq_final still.idle⟩

theorem segments_cross_two :
    let interface (number a b c d : UInt8) : Interface :=
      .fresh ⟨2, 0, 0, 0, 0, number⟩ (.ofOctets a b c d)
    let client : Ipv4.Endpoint := ⟨.ofOctets 10 0 0 2, 49152⟩
    let server : Ipv4.Endpoint := ⟨.ofOctets 192 168 0 2, 80⟩
    let junction : Junction :=
      { home :=
          { interface := interface 0x10 10 0 0 2
            binding := { own := client, peer := some server }
            gateway := .ofOctets 10 0 0 1 }
        away :=
          { interface := interface 0x20 192 168 0 2
            binding := { own := server, peer := some client }
            gateway := .ofOctets 192 168 0 1 }
        router := Network.initialRouter
        near := 0
        far := 1 }
    let segments : List Segment :=
      [{ seqno := ⟨7⟩, flags := { syn := true } }, { seqno := ⟨8⟩, payload := [1, 2, 3] }]
    ∃ home final, junction.home.send segments = .ok (true, home) ∧
      { junction with home }.carryAll
          (List.replicate 7 [Leg.fromHome, .fromAway, .route, .toHome, .toAway]).flatten =
        .ok final ∧
      final.away.taken = [
        { seqno := ⟨7⟩, flags := { syn := true }, sourcePort := 49152, destinationPort := 80,
          checksum := 9439 },
        { seqno := ⟨8⟩, payload := [1, 2, 3], sourcePort := 49152, destinationPort := 80,
          checksum := 8411 }] := by
  intro interface client server junction segments
  have blank : (interface 0x10 10 0 0 2).Blank ∧ (interface 0x20 192 168 0 2).Blank ∧
      (interface 1 10 0 0 1).Blank ∧ (interface 2 192 168 0 1).Blank := by
    refine ⟨?_, ?_, ?_, ?_⟩ <;>
      exact ⟨by decide, by decide, rfl, by decide, rfl, rfl, rfl⟩
  obtain ⟨homeBlank, awayBlank, nearBlank, farBlank⟩ := blank
  have joins : junction.Joins :=
    { home := ⟨homeBlank, rfl, by decide, rfl, rfl⟩
      away := ⟨awayBlank, rfl, by decide, rfl, rfl⟩
      homePeer := rfl
      awayPeer := rfl
      near := ⟨⟨_, rfl, rfl, nearBlank, rfl⟩, ⟨⟨.ofOctets 10 0 0 0, 24, by decide⟩, none, 0⟩,
        by decide, rfl, rfl⟩
      far := ⟨⟨_, rfl, rfl, farBlank, rfl⟩, ⟨⟨.ofOctets 192 168 0 0, 24, by decide⟩, none, 1⟩,
        by decide, rfl, rfl⟩
      two := rfl
      apart := by decide }
  have few : segments.length ≤ 32 := by decide
  have short : ∀ segment ∈ segments, segment.payload.length ≤ 65495 := by decide
  have lasting : 2 ≤ junction.home.binding.hopLimit.toNat := by decide
  obtain ⟨home, final, sent, _, _, taken, _, rounds⟩ := segments_cross joins few short lasting
  have complete : ∀ leg, leg ∈ [Leg.fromHome, .fromAway, .route, .toHome, .toAway] := by
    rintro (_ | _ | _ | _ | _) <;> decide
  refine ⟨home, final, sent, rounds _ complete 7 (Nat.le_refl _), taken.trans ?_⟩
  decide +kernel

end Transparent

end Junction

end NetStack.Simulation
