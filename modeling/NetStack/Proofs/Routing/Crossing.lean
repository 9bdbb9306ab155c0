import NetStack.Proofs.Routing.Log
import NetStack.Proofs.Routing.Selection

namespace NetStack.Routing

open Link (Interface)
open Link.Interface (towards Holds Carries Handles)

namespace Router

def Idle (router : Router) : Prop :=
  ∀ (port : Nat) (attachment : Attachment), router.attached[port]? = some attachment →
    attachment.received = [] ∧ attachment.interface.waiting = [] ∧
      attachment.interface.neighbors.Sound

/-- The interface that puts out the frame of a departure knows the receiver of the frame as the
    neighbor that has the address `nextHop`. -/
def Addressed (start : Router) (ops : List Op) (departure : Departure) (nextHop : Ipv4.Address) :
    Prop :=
  ∃ front interface expiresAt, front <+: ops ∧ front.length = departure.step + 1 ∧
    (start.course front).interface? departure.port = some interface ∧
    interface.neighbors.known.get? nextHop = some ⟨departure.hardware, expiresAt⟩

structure Forwards (start : Router) (ops : List Op) (departure : Departure) (arrival : Arrival) :
    Prop where
  arrived : arrival ∈ start.arrivals ops
  earlier : arrival.step < departure.step
  source : departure.datagram.source = arrival.datagram.source
  destination : departure.datagram.destination = arrival.datagram.destination
  protocol : departure.datagram.protocol = arrival.datagram.protocol
  payload : departure.datagram.payload = arrival.datagram.payload
  alive : 2 ≤ arrival.datagram.hopLimit.toNat
  hopLimit : departure.datagram.hopLimit.toNat + 1 = arrival.datagram.hopLimit.toNat
  routed : ∃ route, start.table.lookup arrival.datagram.destination = some route ∧
    start.table.Chooses arrival.datagram.destination route ∧ route.interface = departure.port ∧
    start.Addressed ops departure (route.via.getD arrival.datagram.destination)

structure Conveys (start : Router) (ops : List Op) (given : List Arrival) (port : Nat)
    (left kept : List Arrival) : Prop where
  history : ∃ history, (start.course ops).interface? port =
      (start.interface? port).map (·.course history) ∧
    history.filter Interface.Op.isSend = start.table.sendsOn port given
  readable : ∀ frame ∈ start.emitted port ops, (Link.Packet.read? frame).isSome
  forwards : List.Forall₂ (start.Forwards ops) (start.departures port ops) left
  inOrder : ∀ nextHop, (towards start.table.hop nextHop (left ++ kept)).Sublist
    (towards start.table.hop nextHop (given.filter (start.table.goesTo port)))
  holds : ∀ interface, (start.course ops).interface? port = some interface →
    interface.Orderly ∧ interface.Fits ∧ interface.Holds start.table.hop Arrival.aged kept

section Conveys

variable {start : Router} {ops : List Op} {op : Op} {given more : List Arrival} {port : Nat}
  {left kept : List Arrival}

theorem Addressed.append {departure : Departure} {nextHop : Ipv4.Address}
    (addressed : start.Addressed ops departure nextHop) (more : List Op) :
    start.Addressed (ops ++ more) departure nextHop := by
  obtain ⟨front, interface, expiresAt, before, rest⟩ := addressed
  exact ⟨front, interface, expiresAt, before.trans (List.prefix_append ..), rest⟩

theorem Forwards.append_singleton {departure : Departure} {arrival : Arrival}
    (forwards : start.Forwards ops departure arrival) (op : Op) :
    start.Forwards (ops ++ [op]) departure arrival := by
  obtain ⟨route, found, chosen, port, addressed⟩ := forwards.routed
  refine { forwards with arrived := ?_, routed := ⟨route, found, chosen, port, addressed.append _⟩ }
  rw [arrivals_append_singleton]
  exact List.mem_append_left _ forwards.arrived

theorem onward_of_goesTo {table : Table} {arrival : Arrival} (goes : table.goesTo port arrival) :
    ∃ route, ¬ arrival.datagram.hopLimit ≤ 1 ∧
      table.lookup arrival.datagram.destination = some route ∧ route.interface = port ∧
      table.hop arrival = route.nextHop arrival.datagram.destination := by
  obtain ⟨route, onward, here⟩ := (Option.any_eq_true ..).mp goes
  have hop : table.hop arrival = route.nextHop arrival.datagram.destination := by
    unfold Table.hop
    rw [onward]
    rfl
  obtain ⟨young, found⟩ := Option.ite_none_left_eq_some.mp onward
  exact ⟨route, young, found, of_decide_eq_true here, hop⟩

theorem forwards_of_carries {interface : Interface} {arrival : Arrival}
    {sent : Ethernet.Address × Ipv4.Datagram}
    (carries : Carries start.table.hop Arrival.aged interface.neighbors sent arrival)
    (after : (start.course (ops ++ [op])).interface? port = some interface)
    (arrived : arrival ∈ start.arrivals ops) (goes : start.table.goesTo port arrival) :
    start.Forwards (ops ++ [op]) ⟨ops.length, port, sent.1, sent.2⟩ arrival := by
  obtain ⟨route, young, found, here, hop⟩ := onward_of_goesTo goes
  obtain ⟨loaded, expiresAt, known⟩ := carries
  rw [hop] at known
  have one : (1 : UInt8).toNat = 1 := rfl
  have alive : 1 < arrival.datagram.hopLimit.toNat := by
    rw [UInt8.le_iff_toNat_le, one] at young
    omega
  have lowered : (arrival.datagram.hopLimit - 1).toNat = arrival.datagram.hopLimit.toNat - 1 :=
    UInt8.toNat_sub_of_le _ _ (UInt8.le_iff_toNat_le.mpr (Nat.le_of_lt alive))
  exact {
    arrived := by
      rw [arrivals_append_singleton]
      exact List.mem_append_left _ arrived
    earlier := step_lt_of_mem_arrivals arrived
    source := by rw [loaded]; rfl
    destination := by rw [loaded]; rfl
    protocol := by rw [loaded]; rfl
    payload := by rw [loaded]; rfl
    alive := alive
    hopLimit := by
      rw [loaded]
      show (arrival.datagram.hopLimit - 1).toNat + 1 = _
      omega
    routed := ⟨route, found, Table.chooses_of_lookup found, here, ops ++ [op], interface,
      expiresAt, List.prefix_rfl, by simp, after, known⟩ }

theorem framesOn_of_interface? {router : Router} {interface : Interface}
    (there : router.interface? port = some interface) :
    router.framesOn port = interface.frames := by
  unfold framesOn
  rw [there]
  rfl

theorem putOut_eq {router : Router} {before after : Interface}
    (sooner : router.interface? port = some before)
    (later : (router.next op).interface? port = some after) :
    router.putOut op port = after.frames.drop before.frames.length := by
  unfold putOut
  rw [framesOn_of_interface? sooner, framesOn_of_interface? later]

theorem putOut_of_missing {router : Router} (missing : (router.next op).interface? port = none) :
    router.putOut op port = [] := by
  unfold putOut framesOn
  rw [missing]
  exact List.drop_nil

theorem Conveys.mem_given (conveys : start.Conveys ops given port left kept) {arrival : Arrival}
    (member : arrival ∈ left ++ kept) :
    arrival ∈ given ∧ start.table.goesTo port arrival := by
  have towards : arrival ∈ towards start.table.hop (start.table.hop arrival) (left ++ kept) :=
    List.mem_filter.mpr ⟨member, decide_eq_true rfl⟩
  have found := (conveys.inOrder _).subset towards
  exact List.mem_filter.mp (List.mem_filter.mp found).1

theorem Conveys.mem_gone (conveys : start.Conveys ops given port left kept)
    (arrived : ∀ arrival ∈ given ++ more, arrival ∈ start.arrivals ops) {frames : List Bytes}
    {after : Interface} {gone stay : List Arrival}
    (handles : Handles start.table.hop Arrival.aged kept
      (more.filter (start.table.goesTo port)) frames after gone stay) :
    ∀ arrival ∈ gone, arrival ∈ start.arrivals ops ∧ start.table.goesTo port arrival := by
  intro arrival member
  have found := (handles.inOrder (start.table.hop arrival)).subset
    (List.mem_filter.mpr ⟨List.mem_append_left _ member, decide_eq_true rfl⟩)
  rcases List.mem_append.mp (List.mem_filter.mp found).1 with old | new
  · obtain ⟨held, goes⟩ := conveys.mem_given (List.mem_append_right _ old)
    exact ⟨arrived arrival (List.mem_append_left _ held), goes⟩
  · obtain ⟨held, goes⟩ := List.mem_filter.mp new
    exact ⟨arrived arrival (List.mem_append_right _ held), goes⟩

section Step

variable {work : List Interface.Op} (conveys : start.Conveys ops given port left kept)
  (works : (start.course (ops ++ [op])).interface? port =
    ((start.course ops).interface? port).map (·.course work))
  (gives : work.filter Interface.Op.isSend = start.table.sendsOn port more)

include conveys works gives

theorem Conveys.exists_history : ∃ history, (start.course (ops ++ [op])).interface? port =
      (start.interface? port).map (·.course history) ∧
    history.filter Interface.Op.isSend = start.table.sendsOn port (given ++ more) := by
  obtain ⟨history, ran, handed⟩ := conveys.history
  refine ⟨history ++ work, ?_, ?_⟩
  · rw [works, ran, Option.map_map]
    congr 1
    funext interface
    exact (interface.course_append history work).symm
  · rw [List.filter_append, handed, gives, sendsOn_append]

theorem Conveys.step_of_missing (missing : (start.course ops).interface? port = none) :
    start.Conveys (ops ++ [op]) (given ++ more) port left kept := by
  have history := conveys.exists_history works gives
  rw [missing] at works
  have nothing : (start.course ops).putOut op port = [] :=
    putOut_of_missing (by rw [← course_append_singleton, works]; rfl)
  refine ⟨history, ?_, ?_, fun nextHop => ?_, ?_⟩
  · rw [emitted_append_singleton, nothing, List.append_nil]
    exact conveys.readable
  · rw [departures_append_singleton]
    unfold departingAt
    rw [nothing]
    show List.Forall₂ _ (_ ++ []) left
    rw [List.append_nil]
    exact conveys.forwards.imp fun _ _ forwards => forwards.append_singleton op
  · rw [List.filter_append, Interface.towards_append nextHop (given.filter _)]
    exact (conveys.inOrder nextHop).trans (List.sublist_append_left ..)
  · rw [works]
    exact nofun

theorem Conveys.step_of_there {interface : Interface}
    (there : (start.course ops).interface? port = some interface)
    (arrived : ∀ arrival ∈ given ++ more, arrival ∈ start.arrivals ops)
    (orderly : (interface.course work).Orderly) (fits : (interface.course work).Fits)
    {gone stay : List Arrival}
    (handles : Handles start.table.hop Arrival.aged kept (more.filter (start.table.goesTo port))
      ((interface.course work).frames.drop interface.frames.length) (interface.course work)
      gone stay) :
    start.Conveys (ops ++ [op]) (given ++ more) port (left ++ gone) stay := by
  have history := conveys.exists_history works gives
  rw [there, Option.map_some] at works
  have put : (start.course ops).putOut op port =
      (interface.course work).frames.drop interface.frames.length :=
    putOut_eq there (by rw [← course_append_singleton, works])
  rw [← put] at handles
  refine ⟨history, ?_, ?_, fun nextHop => ?_, ?_⟩
  · rw [emitted_append_singleton]
    intro frame member
    rcases List.mem_append.mp member with old | new
    · exact conveys.readable frame old
    · exact handles.readable frame new
  · rw [departures_append_singleton]
    refine List.rel_append
      (conveys.forwards.imp fun _ _ forwards => forwards.append_singleton op) ?_
    unfold departingAt
    rw [List.forall₂_map_left_iff]
    have all := conveys.mem_gone arrived handles
    refine ((List.forall₂_and_left gone _).mpr ⟨all, handles.sends.flip⟩).flip.imp ?_
    intro sent arrival ⟨⟨arrives, goes⟩, carries⟩
    exact forwards_of_carries carries works arrives goes
  · rw [List.filter_append]
    exact Interface.towards_trans (conveys.inOrder nextHop) (handles.inOrder nextHop)
  · rw [works]
    rintro _ ⟨⟩
    exact ⟨orderly, fits, handles.waits⟩

theorem Conveys.step (arrived : ∀ arrival ∈ given ++ more, arrival ∈ start.arrivals ops)
    (handles : ∀ interface, (start.course ops).interface? port = some interface →
      (interface.course work).Orderly ∧ (interface.course work).Fits ∧
        ∃ gone stay, Handles start.table.hop Arrival.aged kept
          (more.filter (start.table.goesTo port))
          ((interface.course work).frames.drop interface.frames.length)
          (interface.course work) gone stay) :
    ∃ left kept, start.Conveys (ops ++ [op]) (given ++ more) port left kept := by
  cases there : (start.course ops).interface? port with
  | none => exact ⟨left, kept, conveys.step_of_missing works gives there⟩
  | some interface =>
    obtain ⟨orderly, fits, gone, stay, handled⟩ := handles interface there
    exact ⟨left ++ gone, stay,
      conveys.step_of_there works gives there arrived orderly fits handled⟩

end Step

end Conveys

section Tracks

def inbound (port : Nat) (arrivals : List Arrival) : List Arrival :=
  arrivals.filter fun arrival => decide (arrival.port = port)

/-- What a run keeps. On every port, the datagrams that arrived there are those that were given on
    and, behind them, those that are still to be routed. -/
structure Tracks (start : Router) (ops : List Op) (given : List Arrival)
    (pending : Nat → List Arrival) : Prop where
  ran : start.run ops = .ok (start.course ops)
  table : (start.course ops).table = start.table
  split : ∀ port, inbound port (start.arrivals ops) = inbound port given ++ pending port
  received : ∀ port, (start.course ops).attached[port]?.elim [] Attachment.received =
    (pending port).map Arrival.datagram
  conveys : ∀ port, ∃ left kept, start.Conveys ops given port left kept

variable {start : Router} {ops : List Op} {op : Op} {given : List Arrival}
  {pending : Nat → List Arrival}

theorem mem_inbound {port : Nat} {arrivals : List Arrival} {arrival : Arrival} :
    arrival ∈ inbound port arrivals ↔ arrival ∈ arrivals ∧ arrival.port = port := by
  unfold inbound
  rw [List.mem_filter, decide_eq_true_iff]

theorem Idle.tracks (idle : start.Idle) : start.Tracks [] [] fun _ => [] where
  ran := rfl
  table := rfl
  split _ := rfl
  received port := by
    show start.attached[port]?.elim [] Attachment.received = []
    cases there : start.attached[port]? with
    | none => rfl
    | some attachment => exact (idle port attachment there).1
  conveys port := by
    refine ⟨[], [], ⟨[], Option.map_id'.symm, rfl⟩, nofun, .nil, fun _ => .refl _, ?_⟩
    intro interface found
    obtain ⟨attachment, there, rfl⟩ := Option.map_eq_some_iff.mp found
    obtain ⟨_, nothing, sound⟩ := idle port attachment there
    have nobody (waiting : Link.Waiting) : waiting ∉ attachment.interface.waiting := by
      rw [nothing]
      exact List.not_mem_nil
    refine ⟨⟨sound, ?_, fun waiting member => absurd member (nobody waiting)⟩,
      fun waiting member => absurd member (nobody waiting), ?_⟩
    · rw [nothing]
      exact Nat.zero_le _
    · unfold Interface.Holds
      rw [nothing]
      rfl

theorem Tracks.fits (tracks : start.Tracks ops given pending) : (start.course ops).Fits := by
  intro port attachment there
  obtain ⟨left, kept, conveys⟩ := tracks.conveys port
  have found : (start.course ops).interface? port = some attachment.interface := by
    unfold interface?
    rw [there]
    rfl
  exact (conveys.holds _ found).2.1

theorem Tracks.mem_arrivals (tracks : start.Tracks ops given pending) {arrival : Arrival}
    (member : arrival ∈ given ∨ ∃ port, arrival ∈ pending port) :
    arrival ∈ start.arrivals ops := by
  rcases member with held | ⟨port, waits⟩
  · have inside : arrival ∈ inbound arrival.port given := mem_inbound.mpr ⟨held, rfl⟩
    have found := List.mem_append_left (pending arrival.port) inside
    rw [← tracks.split] at found
    exact (mem_inbound.mp found).1
  · have found := List.mem_append_right (inbound port given) waits
    rw [← tracks.split] at found
    exact (mem_inbound.mp found).1

theorem Tracks.port_of_pending (tracks : start.Tracks ops given pending) {port : Nat}
    {arrival : Arrival} (waits : arrival ∈ pending port) : arrival.port = port := by
  have found := List.mem_append_right (inbound port given) waits
  rw [← tracks.split] at found
  exact (mem_inbound.mp found).2

theorem interface?_of_attached {before after : Router} {port : Nat}
    {change : Attachment → Attachment} {work : List Interface.Op}
    (attached : after.attached[port]? = before.attached[port]?.map change)
    (runs : ∀ attachment, (change attachment).interface = attachment.interface.course work) :
    after.interface? port = (before.interface? port).map (·.course work) := by
  unfold interface?
  rw [attached, Option.map_map, Option.map_map]
  congr 1
  funext attachment
  exact runs attachment

theorem not_isSend_of_onPort? {port : Nat} {work : Interface.Op}
    (does : op.onPort? port = some work) : work.isSend = false := by
  cases op with
  | receiveFrame | drain =>
    obtain ⟨_, same⟩ := Option.ite_none_right_eq_some.mp does
    cases same
    rfl
  | tick =>
    cases does
    rfl
  | attach | addRoute | forward | route => cases does

theorem arrivingOn_of_missing {router : Router} {port : Nat} (op : Op)
    (missing : router.attached[port]? = none) : router.arrivingOn op port = [] := by
  refine List.eq_nil_iff_forall_not_mem.mpr fun datagram member => ?_
  obtain ⟨_, _, _, there, _⟩ := arriving?_eq_some_iff.mp (mem_arrivingOn.mp member)
  cases missing.symm.trans there

theorem Tracks.step_of_onPort (tracks : start.Tracks ops given pending) (work : op.isWork)
    (other : op ≠ .route) :
    start.Tracks (ops ++ [op]) given fun port =>
      pending port ++ inbound port ((start.course ops).arrivingAt ops.length op) := by
  obtain ⟨reply, after, stepped, table, attached⟩ := exists_step_of_onPort tracks.fits work other
  have next := next_of_ok stepped
  rw [← next, ← course_append_singleton] at table attached
  refine ⟨run_append_singleton tracks.ran stepped, table.trans tracks.table, fun port => ?_,
    fun port => ?_, fun port => ?_⟩
  · rw [arrivals_append_singleton, ← List.append_assoc, ← tracks.split]
    exact List.filter_append ..
  · have sooner := tracks.received port
    have arriving := map_datagram_arrivingAt (start.course ops) ops.length op port
    rw [attached, List.map_append, ← sooner]
    unfold inbound
    rw [arriving]
    cases there : (start.course ops).attached[port]? with
    | none => rw [arrivingOn_of_missing op there]; rfl
    | some attachment => rfl
  · obtain ⟨left, kept, conveys⟩ := tracks.conveys port
    have works : (start.course (ops ++ [op])).interface? port =
        ((start.course ops).interface? port).map (·.course (op.onPort? port).toList) :=
      interface?_of_attached (attached port) fun _ => rfl
    rw [← List.append_nil given]
    refine conveys.step works ?_ ?_ fun interface there => ?_
    · cases does : op.onPort? port with
      | none => rfl
      | some work =>
        exact List.filter_cons_of_neg (by rw [not_isSend_of_onPort? does]; exact nofun)
    · intro arrival member
      rw [List.append_nil] at member
      exact tracks.mem_arrivals (.inl member)
    · obtain ⟨orderly, fits, holds⟩ := conveys.holds interface there
      cases does : op.onPort? port with
      | none =>
        refine ⟨orderly, fits, [], kept, ?_⟩
        show Handles _ _ kept [] (interface.frames.drop interface.frames.length) interface [] kept
        rw [List.drop_length]
        exact Interface.handles_nothing holds
      | some work =>
        refine orderly.handles_step fits holds work fun datagram nextHop same => ?_
        have asks := not_isSend_of_onPort? does
        rw [same] at asks
        cases asks

theorem flatMap_eq_flatMap_range {α β : Type} (items : List α) (f : α → List β) :
    items.flatMap f = (List.range items.length).flatMap fun index => items[index]?.elim [] f := by
  induction items using List.reverseRecOn with
  | nil => rfl
  | append_singleton items last ih =>
    rw [List.flatMap_append, ih, List.length_append, List.length_singleton, List.range_succ,
      List.flatMap_append]
    congr 1
    · refine List.flatMap_congr fun index member => ?_
      rw [List.getElem?_append_left (List.mem_range.mp member)]
    · simp

/-- The datagrams that are still to be routed, in the order in which they are taken. -/
def queue (count : Nat) (pending : Nat → List Arrival) : List Arrival :=
  (List.range count).flatMap pending

theorem inbound_queue {port : Nat} (count : Nat)
    (belong : ∀ port, ∀ arrival ∈ pending port, arrival.port = port) :
    inbound port (queue count pending) = if port < count then pending port else [] := by
  induction count with
  | zero => rfl
  | succ count ih =>
    unfold queue inbound at *
    rw [List.range_succ, List.flatMap_append, List.filter_append, ih, List.flatMap_singleton]
    by_cases last : count = port
    · subst last
      rw [if_neg (Nat.lt_irrefl _), if_pos (Nat.lt_succ_self _), List.nil_append]
      exact List.filter_eq_self.mpr fun arrival waits => decide_eq_true (belong _ arrival waits)
    · have nobody : (pending count).filter (fun arrival => decide (arrival.port = port)) = [] := by
        refine List.filter_eq_nil_iff.mpr fun arrival waits here => last ?_
        rw [← belong count arrival waits]
        exact of_decide_eq_true here
      rw [nobody, List.append_nil]
      exact if_congr (by omega) rfl rfl

theorem Tracks.step_of_route (tracks : start.Tracks ops given pending) :
    start.Tracks (ops ++ [.route])
      (given ++ queue (start.course ops).attached.length pending) fun _ => [] := by
  have missing (port : Nat) (beyond : (start.course ops).attached.length ≤ port) :
      pending port = [] := by
    have nothing := tracks.received port
    rw [List.getElem?_eq_none beyond] at nothing
    exact List.map_eq_nil_iff.mp nothing.symm
  have taken : (start.course ops).attached.flatMap Attachment.received =
      (queue (start.course ops).attached.length pending).map Arrival.datagram := by
    unfold queue
    rw [flatMap_eq_flatMap_range, List.map_flatMap]
    exact List.flatMap_congr fun port _ => tracks.received port
  have waits : ∀ arrival ∈ queue (start.course ops).attached.length pending,
      ∃ port, arrival ∈ pending port := by
    intro arrival member
    obtain ⟨port, _, waits⟩ := List.mem_flatMap.mp member
    exact ⟨port, waits⟩
  have short : ∀ arrival ∈ queue (start.course ops).attached.length pending,
      arrival.datagram.length ≤ Ipv4.Datagram.maxLength := fun arrival member =>
    length_le_of_mem_arrivals (tracks.mem_arrivals (.inr (waits arrival member)))
  obtain ⟨after, routed, table, attached⟩ := exists_route tracks.fits _ taken short
  have stepped : (start.course ops).step .route = .ok (.done, after) := by
    unfold step
    rw [routed]
    rfl
  have next := next_of_ok stepped
  rw [← next, ← course_append_singleton] at table attached
  refine ⟨run_append_singleton tracks.ran stepped, table.trans tracks.table, fun port => ?_,
    fun port => ?_, fun port => ?_⟩
  · rw [arrivals_append_singleton, List.append_nil]
    show inbound port (start.arrivals ops ++ []) = _
    rw [List.append_nil, tracks.split]
    refine Eq.trans ?_ (List.filter_append ..).symm
    congr 1
    refine Eq.symm ((inbound_queue _ fun _ _ => tracks.port_of_pending).trans ?_)
    by_cases present : port < (start.course ops).attached.length
    · exact if_pos present
    · rw [if_neg present, missing port (Nat.le_of_not_lt present)]
  · rw [attached]
    cases (start.course ops).attached[port]? <;> rfl
  · obtain ⟨left, kept, conveys⟩ := tracks.conveys port
    have works := interface?_of_attached (attached port) fun _ => rfl
    rw [tracks.table] at works
    refine conveys.step works (Interface.filter_isSend_sends _) ?_ fun interface there => ?_
    · intro arrival member
      refine tracks.mem_arrivals ?_
      rcases List.mem_append.mp member with held | new
      · exact .inl held
      · exact .inr (waits arrival new)
    · obtain ⟨orderly, fits, holds⟩ := conveys.holds interface there
      have brief : ∀ arrival ∈ (queue (start.course ops).attached.length pending).filter
          (start.table.goesTo port), arrival.aged.length ≤ Ipv4.Datagram.maxLength :=
        fun arrival member => short arrival (List.mem_filter.mp member).1
      obtain ⟨ordered, _, frames, gone, stay, put, handles⟩ :=
        orderly.handles_sends fits holds brief
      refine ⟨ordered, fits.sends brief, gone, stay, ?_⟩
      unfold Table.sendsOn
      rw [put, List.drop_left]
      exact handles

end Tracks

end Router

end NetStack.Routing
