import Mathlib.Data.List.Basic
import NetStack.Proofs.Link.Arrival
import NetStack.Proofs.Link.Handover
import NetStack.Routing.Router

namespace NetStack

/-- The datagram as a router sends it on. -/
def Ipv4.Datagram.aged (datagram : Ipv4.Datagram) : Ipv4.Datagram :=
  { datagram with hopLimit := datagram.hopLimit - 1 }

namespace Routing

open Link (Interface)

structure Arrival where
  step : Nat
  port : Nat
  datagram : Ipv4.Datagram
  deriving DecidableEq

def Arrival.aged (arrival : Arrival) : Ipv4.Datagram := arrival.datagram.aged

namespace Table

def onward? (table : Table) (datagram : Ipv4.Datagram) : Option Route :=
  if datagram.hopLimit ≤ 1 then none else table.lookup datagram.destination

def goesTo (table : Table) (port : Nat) (arrival : Arrival) : Bool :=
  (table.onward? arrival.datagram).any fun route => decide (route.interface = port)

def hop (table : Table) (arrival : Arrival) : Ipv4.Address :=
  (table.onward? arrival.datagram).elim .unspecified (·.nextHop arrival.datagram.destination)

/-- What the interface at a port is given of some datagrams that have arrived. -/
def sendsOn (table : Table) (port : Nat) (queue : List Arrival) : List Interface.Op :=
  Interface.sends table.hop Arrival.aged (queue.filter (table.goesTo port))

end Table

def Attachment.runs (attachment : Attachment) (ops : List Interface.Op) : Attachment :=
  { attachment with interface := attachment.interface.course ops }

namespace Router

variable {router : Router}

def Fits (router : Router) : Prop :=
  ∀ (port : Nat) (attachment : Attachment), router.attached[port]? = some attachment →
    attachment.interface.Fits

section Forward

variable {arrival : Arrival} {datagram : Ipv4.Datagram} {route : Route} {port : Nat}

theorem goesTo_of_onward {table : Table} (onward : table.onward? arrival.datagram = some route) :
    table.goesTo port arrival = decide (route.interface = port) := by
  unfold Table.goesTo
  rw [onward, Option.any_some]

theorem sendsOn_of_not_goesTo {table : Table} (elsewhere : table.goesTo port arrival = false) :
    table.sendsOn port [arrival] = [] := by
  unfold Table.sendsOn
  rw [List.filter_cons_of_neg (by simp [elsewhere])]
  rfl

theorem sendsOn_of_onward {table : Table} (onward : table.onward? arrival.datagram = some route) :
    table.sendsOn route.interface [arrival] =
      [.send arrival.aged (route.nextHop arrival.datagram.destination)] := by
  have goes : table.goesTo route.interface arrival = decide (route.interface = route.interface) :=
    goesTo_of_onward onward
  have hop : table.hop arrival = route.nextHop arrival.datagram.destination := by
    unfold Table.hop
    rw [onward]
    rfl
  unfold Table.sendsOn Interface.sends
  rw [List.filter_cons_of_pos (goes.trans (decide_eq_true rfl)), ← hop]
  rfl

theorem forward_of_dropped (dropped : ∀ route, router.table.onward? datagram = some route →
    router.attached[route.interface]? = none) : router.forward datagram = .ok router := by
  unfold forward
  by_cases old : datagram.hopLimit ≤ 1
  · rw [if_pos old]
  · rw [if_neg old]
    have onward : router.table.onward? datagram = router.table.lookup datagram.destination :=
      if_neg old
    cases found : router.table.lookup datagram.destination with
    | none => rfl
    | some route =>
      dsimp only
      rw [dropped route (onward.trans found)]

theorem forward_of_onward {here : Attachment} {interface : Interface}
    (onward : router.table.onward? datagram = some route)
    (there : router.attached[route.interface]? = some here)
    (sent : here.interface.send datagram.aged (route.nextHop datagram.destination) =
      .ok interface) :
    router.forward datagram = .ok { router with
      attached := router.attached.set route.interface { here with interface } } := by
  have young : ¬ datagram.hopLimit ≤ 1 := by
    intro old
    unfold Table.onward? at onward
    rw [if_pos old] at onward
    cases onward
  unfold Table.onward? at onward
  rw [if_neg young] at onward
  unfold forward
  rw [if_neg young, onward]
  dsimp only
  rw [there]
  unfold Ipv4.Datagram.aged at sent
  dsimp only
  rw [sent]
  rfl

theorem attached_of_dropped (dropped : ∀ attachment,
    router.attached[port]? = some attachment → router.table.goesTo port arrival = false) :
    router.attached[port]? = router.attached[port]?.map fun attachment : Attachment =>
      attachment.runs (router.table.sendsOn port [arrival]) := by
  cases found : router.attached[port]? with
  | none => rfl
  | some attachment =>
    rw [sendsOn_of_not_goesTo (dropped attachment found)]
    rfl

theorem exists_forward (fits : router.Fits) (arrival : Arrival)
    (short : arrival.datagram.length ≤ Ipv4.Datagram.maxLength) :
    ∃ after, router.forward arrival.datagram = .ok after ∧ after.table = router.table ∧
      ∀ port, after.attached[port]? = router.attached[port]?.map fun attachment : Attachment =>
        attachment.runs (router.table.sendsOn port [arrival]) := by
  by_cases leads : ∃ route here, router.table.onward? arrival.datagram = some route ∧
      router.attached[route.interface]? = some here
  · obtain ⟨route, here, onward, there⟩ := leads
    have fitting := fits _ here there
    obtain ⟨reply, interface, stepped⟩ := here.interface.exists_step fitting fun datagram nextHop
        (same : Interface.Op.send arrival.aged (route.nextHop arrival.datagram.destination) =
          .send datagram nextHop) => by
      cases same
      exact short
    have next := Interface.next_of_ok stepped
    obtain ⟨handed, sent, rest⟩ := Link.exists_of_bind_eq_ok stepped
    cases rest
    refine ⟨_, forward_of_onward onward there sent, rfl, fun port => ?_⟩
    dsimp only
    by_cases here : route.interface = port
    · subst here
      have inside := (List.getElem?_eq_some_iff.mp there).1
      rw [List.getElem?_set_self inside, there, sendsOn_of_onward onward, ← next]
      rfl
    · rw [List.getElem?_set_ne here]
      refine attached_of_dropped fun _ _ => ?_
      rw [goesTo_of_onward onward]
      exact decide_eq_false here
  · refine ⟨router, forward_of_dropped fun route onward => ?_, rfl, fun port =>
      attached_of_dropped fun attachment there => ?_⟩
    · by_contra present
      obtain ⟨here, there⟩ := Option.ne_none_iff_exists'.mp present
      exact leads ⟨route, here, onward, there⟩
    · cases onward : router.table.onward? arrival.datagram with
      | none =>
        unfold Table.goesTo
        rw [onward]
        rfl
      | some route =>
        rw [goesTo_of_onward onward, decide_eq_false_iff_not]
        rintro rfl
        exact leads ⟨route, attachment, onward, there⟩

theorem sendsOn_append (table : Table) (port : Nat) (front back : List Arrival) :
    table.sendsOn port (front ++ back) = table.sendsOn port front ++ table.sendsOn port back := by
  unfold Table.sendsOn Interface.sends
  rw [List.filter_append, List.map_append]

/-- Every port is given what the table sends there, in order. -/
theorem exists_foldlM_forward (fits : router.Fits) (queue : List Arrival)
    (short : ∀ arrival ∈ queue, arrival.datagram.length ≤ Ipv4.Datagram.maxLength) :
    ∃ after, (queue.map Arrival.datagram).foldlM forward router = .ok after ∧
      after.table = router.table ∧
      ∀ port, after.attached[port]? = router.attached[port]?.map fun attachment : Attachment =>
        attachment.runs (router.table.sendsOn port queue) := by
  induction queue generalizing router with
  | nil => exact ⟨router, rfl, rfl, fun port => Option.map_id'.symm⟩
  | cons first rest ih =>
    have brief := short first List.mem_cons_self
    obtain ⟨between, forwarded, table, attached⟩ := exists_forward fits first brief
    have fitting : between.Fits := by
      intro port attachment found
      rw [attached] at found
      obtain ⟨sooner, there, rfl⟩ := Option.map_eq_some_iff.mp found
      refine Interface.Fits.sends (fits port sooner there) fun arrival member => ?_
      cases List.mem_singleton.mp (List.mem_filter.mp member).1
      exact brief
    obtain ⟨after, folded, same, later⟩ :=
      ih fitting fun arrival member => short arrival (List.mem_cons_of_mem _ member)
    refine ⟨after, ?_, same.trans table, fun port => ?_⟩
    · rw [List.map_cons, List.foldlM_cons, forwarded]
      exact folded
    · rw [later, attached, Option.map_map, table]
      congr 1
      funext attachment
      have split := sendsOn_append router.table port [first] rest
      rw [List.singleton_append] at split
      rw [split]
      unfold Attachment.runs
      rw [Function.comp, Interface.course_append]

end Forward

section Step

/-- The operations of a router at work. Its ports and its table stay as they are. -/
def Op.isWork : Op → Bool
  | .receiveFrame _ _ | .route | .tick _ | .drain _ => true
  | .attach _ | .addRoute _ | .forward _ => false

def Op.onPort? (port : Nat) : Op → Option Interface.Op
  | .receiveFrame index frame => if index = port then some (.receive frame) else none
  | .tick span => some (.tick span)
  | .drain index => if index = port then some .drain else none
  | _ => none

def arriving? (router : Router) : Op → Option (Nat × Ipv4.Datagram)
  | .receiveFrame port frame => do
    let interface ← router.interface? port
    let datagram ← interface.brought? frame
    return (port, datagram)
  | _ => none

def arrivingOn (router : Router) (op : Op) (port : Nat) : List Ipv4.Datagram :=
  ((router.arriving? op).filter fun arriving => arriving.1 = port).toList.map Prod.snd

theorem exists_route (fits : router.Fits) (queue : List Arrival)
    (received : router.attached.flatMap Attachment.received = queue.map Arrival.datagram)
    (short : ∀ arrival ∈ queue, arrival.datagram.length ≤ Ipv4.Datagram.maxLength) :
    ∃ after, router.route = .ok after ∧ after.table = router.table ∧
      ∀ port, after.attached[port]? = router.attached[port]?.map fun attachment : Attachment =>
        { attachment.runs (router.table.sendsOn port queue) with received := [] } := by
  let emptied : Router :=
    { router with
      attached := router.attached.map fun attachment => { attachment with received := [] } }
  have there (port : Nat) : emptied.attached[port]? =
      router.attached[port]?.map fun attachment => { attachment with received := [] } :=
    List.getElem?_map
  have fitting : emptied.Fits := by
    intro port attachment found
    rw [there] at found
    obtain ⟨before, here, rfl⟩ := Option.map_eq_some_iff.mp found
    exact fits port before here
  obtain ⟨after, routed, table, attached⟩ := exists_foldlM_forward fitting queue short
  refine ⟨after, ?_, table, fun port => ?_⟩
  · rw [← received] at routed
    exact routed
  · rw [attached, there, Option.map_map]
    rfl

theorem eq_map_of_idle {port : Nat} {op : Op} {attached : Option Attachment}
    (idle : attached.isSome → op.onPort? port = none ∧ router.arrivingOn op port = []) :
    attached = attached.map fun attachment : Attachment =>
      { attachment.runs (op.onPort? port).toList with
        received := attachment.received ++ router.arrivingOn op port } := by
  cases attached with
  | none => rfl
  | some attachment =>
    obtain ⟨nothing, nobody⟩ := idle rfl
    rw [nothing, nobody]
    simp only [List.append_nil]
    rfl

theorem attached_set {index : Nat} {here : Attachment}
    (there : router.attached[index]? = some here) {after : Attachment} {op : Op}
    (taking : after = { here.runs (op.onPort? index).toList with
      received := here.received ++ router.arrivingOn op index })
    (idle : ∀ port, index ≠ port → op.onPort? port = none ∧ router.arrivingOn op port = [])
    (port : Nat) :
    (router.attached.set index after)[port]? =
      router.attached[port]?.map fun attachment : Attachment =>
        { attachment.runs (op.onPort? port).toList with
          received := attachment.received ++ router.arrivingOn op port } := by
  by_cases same : index = port
  · subst same
    rw [List.getElem?_set_self (List.getElem?_eq_some_iff.mp there).1, there, taking]
    rfl
  · rw [List.getElem?_set_ne same]
    exact eq_map_of_idle fun _ => idle port same

theorem arriving?_eq_some_iff {op : Op} {port : Nat} {datagram : Ipv4.Datagram} :
    router.arriving? op = some (port, datagram) ↔ ∃ frame attachment,
      op = .receiveFrame port frame ∧ router.attached[port]? = some attachment ∧
        attachment.interface.brought? frame = some datagram := by
  cases op with
  | receiveFrame index frame =>
    unfold arriving? interface?
    simp only [Option.bind_eq_bind, Option.bind_eq_some_iff, Option.map_eq_some_iff]
    constructor
    · rintro ⟨_, ⟨attachment, there, rfl⟩, _, brought, ⟨⟩⟩
      exact ⟨frame, attachment, rfl, there, brought⟩
    · rintro ⟨_, attachment, ⟨⟩, there, brought⟩
      exact ⟨_, ⟨attachment, there, rfl⟩, _, brought, rfl⟩
  | _ => simp [arriving?]

theorem mem_arrivingOn {op : Op} {port : Nat} {datagram : Ipv4.Datagram} :
    datagram ∈ router.arrivingOn op port ↔ router.arriving? op = some (port, datagram) := by
  unfold arrivingOn
  simp only [List.mem_map, Option.mem_toList, Option.filter_eq_some_iff,
    decide_eq_true_eq]
  constructor
  · rintro ⟨_, ⟨arrives, rfl⟩, rfl⟩
    exact arrives
  · intro arrives
    exact ⟨_, ⟨arrives, rfl⟩, rfl⟩

theorem arrivingOn_receiveFrame {index : Nat} {here : Attachment} {frame : Bytes}
    (there : router.attached[index]? = some here) :
    router.arrivingOn (.receiveFrame index frame) index =
      (here.interface.brought? frame).toList := by
  have arrives : router.arriving? (.receiveFrame index frame) =
      (here.interface.brought? frame).map fun datagram => (index, datagram) := by
    unfold arriving? interface?
    dsimp only
    rw [there]
    cases brought : here.interface.brought? frame <;> simp [brought]
  unfold arrivingOn
  rw [arrives]
  cases here.interface.brought? frame <;> simp

theorem idle_receiveFrame {index port : Nat} (frame : Bytes) (other : index ≠ port) :
    (Op.receiveFrame index frame).onPort? port = none ∧
      router.arrivingOn (.receiveFrame index frame) port = [] := by
  refine ⟨if_neg other, List.eq_nil_iff_forall_not_mem.mpr fun datagram member => ?_⟩
  obtain ⟨_, _, same, _⟩ := arriving?_eq_some_iff.mp (mem_arrivingOn.mp member)
  cases same
  exact other rfl

theorem idle_drain {index port : Nat} (other : index ≠ port) :
    (Op.drain index).onPort? port = none ∧ router.arrivingOn (.drain index) port = [] :=
  ⟨if_neg other, rfl⟩

theorem isSome_of_missing {index port : Nat} (missing : router.attached[index]? = none)
    (some : router.attached[port]?.isSome) : index ≠ port := by
  rintro rfl
  rw [missing] at some
  cases some

theorem exists_step_of_onPort (fits : router.Fits) {op : Op} (work : op.isWork)
    (other : op ≠ .route) :
    ∃ reply after, router.step op = .ok (reply, after) ∧ after.table = router.table ∧
      ∀ port, after.attached[port]? = router.attached[port]?.map fun attachment : Attachment =>
        { attachment.runs (op.onPort? port).toList with
          received := attachment.received ++ router.arrivingOn op port } := by
  cases op with
  | attach | addRoute | forward => cases work
  | route => exact absurd rfl other
  | tick span =>
    refine ⟨.done, router.tick span, rfl, rfl, fun port => ?_⟩
    show (router.attached.map _)[port]? = _
    rw [List.getElem?_map]
    congr 1
    funext attachment
    show _ = Attachment.mk _ (attachment.received ++ [])
    rw [List.append_nil]
    rfl
  | drain index =>
    cases there : router.attached[index]? with
    | none =>
      refine ⟨.frames [], router, ?_, rfl, fun port => eq_map_of_idle fun some => ?_⟩
      · unfold step drain
        dsimp only
        rw [there]
      · exact idle_drain (isSome_of_missing there some)
    | some here =>
      let drained : Attachment := { here with interface := here.interface.drain.2 }
      refine ⟨.frames here.interface.frames,
        { router with attached := router.attached.set index drained }, ?_, rfl,
        attached_set there ?_ fun port => idle_drain⟩
      · unfold step drain
        dsimp only
        rw [there]
        rfl
      · have taken : (Op.drain index).onPort? index = some .drain := if_pos rfl
        have nothing : router.arrivingOn (.drain index) index = [] := rfl
        rw [taken, nothing, List.append_nil]
        rfl
  | receiveFrame index frame =>
    cases there : router.attached[index]? with
    | none =>
      refine ⟨.done, router, ?_, rfl, fun port => eq_map_of_idle fun some => ?_⟩
      · unfold step receiveFrame
        dsimp only
        rw [there]
        rfl
      · exact idle_receiveFrame frame (isSome_of_missing there some)
    | some here =>
      have brief : ∀ datagram nextHop, Interface.Op.receive frame = .send datagram nextHop →
        datagram.length ≤ Ipv4.Datagram.maxLength := nofun
      obtain ⟨reply, interface, stepped⟩ :=
        here.interface.exists_step (fits _ here there) brief
      have next := Interface.next_of_ok stepped
      obtain ⟨⟨delivered, handed⟩, received, rest⟩ := Link.exists_of_bind_eq_ok stepped
      cases rest
      let taken : Attachment := ⟨interface, here.received ++ delivered.toList⟩
      refine ⟨.done, { router with attached := router.attached.set index taken }, ?_, rfl,
        attached_set there ?_ fun port => idle_receiveFrame frame⟩
      · unfold step receiveFrame
        dsimp only
        rw [there]
        dsimp only
        rw [received]
        rfl
      · have ran : (Op.receiveFrame index frame).onPort? index = some (.receive frame) :=
          if_pos rfl
        rw [ran, arrivingOn_receiveFrame there, Interface.brought?_of_receive received]
        show _ = Attachment.mk (here.interface.next (.receive frame)) _
        rw [next]

end Step

end Router

end Routing

end NetStack
