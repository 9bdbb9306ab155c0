import NetStack.Proofs.Link.Traffic

namespace NetStack.Link

inductive Ending where
  | sent (destination : Ethernet.Address)
  | dropped
  deriving DecidableEq

namespace Interface

section Sound

variable {before after : Interface} {op : Op} {frames : List Bytes}

theorem Proceeds.sound (proceeds : before.Proceeds op frames after)
    (sound : before.neighbors.Sound) : after.neighbors.Sound := by
  cases proceeds with
  | sent | ignored | setPolicy | drain => exact sound
  | asked =>
    rw [neighbors_enqueue]
    exact sound.noteAsked _ _
  | held =>
    rw [neighbors_enqueue]
    exact sound
  | heard => exact sound.fill _ _ _
  | tick => exact sound.expire _

theorem Proceeds.waiting_le (proceeds : before.Proceeds op frames after)
    (bound : before.waiting.length ≤ 32) : after.waiting.length ≤ 32 := by
  have queued (asked : Interface) (same : asked.waiting = before.waiting)
      (datagram : Ipv4.Datagram) (nextHop : Ipv4.Address) :
      (asked.enqueue datagram nextHop).waiting.length ≤ 32 := by
    rw [waiting_enqueue, same]
    unfold maxWaiting
    split
    · rw [List.length_append, List.length_singleton]
      omega
    · rwa [List.append_nil]
  cases proceeds with
  | sent | ignored | setPolicy | drain => exact bound
  | asked | held =>
    apply queued
    rfl
  | heard => exact Nat.le_trans (List.length_filter_le ..) bound
  | tick => exact Nat.le_trans (List.length_filter_le ..) bound

def Unresolved (interface : Interface) : Prop :=
  ∀ waiting ∈ interface.waiting,
    interface.neighbors.hardwareOf? waiting.nextHop interface.now = none

theorem Proceeds.unresolved (proceeds : before.Proceeds op frames after)
    (sound : before.neighbors.Sound) (unresolved : before.Unresolved) : after.Unresolved := by
  have queued (asked : Interface) (same : asked.waiting = before.waiting)
      (now : asked.now = before.now) (known : asked.neighbors.known = before.neighbors.known)
      {datagram : Ipv4.Datagram} {nextHop : Ipv4.Address}
      (unknown : before.neighbors.hardwareOf? nextHop before.now = none) :
      (asked.enqueue datagram nextHop).Unresolved := by
    intro waiting member
    rw [waiting_enqueue, same] at member
    rw [now_enqueue, neighbors_enqueue, now]
    unfold NeighborCache.hardwareOf? at unknown ⊢
    rw [known]
    rcases List.mem_append.mp member with old | new
    · exact unresolved waiting old
    · split at new
      · cases List.mem_singleton.mp new
        exact unknown
      · cases new
  cases proceeds with
  | sent | ignored | setPolicy | drain => exact unresolved
  | asked unknown | held unknown =>
    apply queued
    · rfl
    · rfl
    · rfl
    · exact unknown
  | @heard _ message =>
    intro waiting member
    obtain ⟨old, other⟩ := List.mem_filter.mp member
    have unknown := unresolved waiting old
    rw [NeighborCache.hardwareOf?_eq_none_iff] at unknown ⊢
    intro neighbor found
    rcases NeighborCache.known_fill_other sound message.senderHardware before.now
      (of_decide_eq_true other) with same | ⟨gone, _⟩
    · exact unknown neighbor (same.symm.trans found)
    · cases gone.symm.trans found
  | tick span =>
    intro waiting member
    have unknown := unresolved waiting (List.mem_filter.mp member).1
    rw [NeighborCache.hardwareOf?_eq_none_iff] at unknown ⊢
    intro neighbor found
    have later : before.now ≤ before.now + span := (Proceeds.tick span).now_le
    have stored : (before.neighbors.expire (before.now + span)).known.get? waiting.nextHop =
        some neighbor := found
    rw [NeighborCache.known_expire sound] at stored
    exact Nat.le_trans (unknown neighbor (Option.filter_eq_some_iff.mp stored).1) later

structure Orderly (interface : Interface) : Prop where
  sound : interface.neighbors.Sound
  bounded : interface.waiting.length ≤ 32
  unresolved : interface.Unresolved

theorem orderly_fresh (hardware : Ethernet.Address) (address : Ipv4.Address) :
    (fresh hardware address).Orderly :=
  ⟨NeighborCache.sound_empty, Nat.zero_le _, nofun⟩

theorem Proceeds.orderly (proceeds : before.Proceeds op frames after) (orderly : before.Orderly) :
    after.Orderly :=
  ⟨proceeds.sound orderly.sound, proceeds.waiting_le orderly.bounded,
    proceeds.unresolved orderly.sound orderly.unresolved⟩

end Sound

section Outcomes

def fate (interface : Interface) (op : Op) (waiting : Waiting) : Option Ending :=
  match op with
  | .receive bytes =>
    match interface.heeds? bytes with
    | some message =>
      if waiting.nextHop = message.senderAddress then some (.sent message.senderHardware) else none
    | none => none
  | .tick span =>
    if interface.now + span < waiting.since + NeighborCache.silence then none else some .dropped
  | _ => none

def reception (interface : Interface) (nextHop : Ipv4.Address) : Option Ending :=
  match interface.neighbors.hardwareOf? nextHop interface.now with
  | some hardware => some (.sent hardware)
  | none => if interface.waiting.length < maxWaiting then none else some .dropped

def newcomers (interface : Interface) : Op → List (Waiting × Option Ending)
  | .send datagram nextHop =>
    [(⟨nextHop, interface.now, datagram⟩, interface.reception nextHop)]
  | _ => []

/-- The datagrams that an interface has in its hands in a step, and how they leave. -/
def outcomes (interface : Interface) (op : Op) : List (Waiting × Option Ending) :=
  interface.waiting.map (fun waiting => (waiting, interface.fate op waiting)) ++
    interface.newcomers op

def staying? : Waiting × Option Ending → Option Waiting
  | (waiting, none) => some waiting
  | (_, some _) => none

def leaving? : Waiting × Option Ending → Option (Ethernet.Address × Ipv4.Datagram)
  | (waiting, some (.sent destination)) => some (destination, waiting.datagram)
  | _ => none

variable {before after : Interface} {op : Op} {frames : List Bytes}

theorem outcomes_of_idle (before : Interface) (op : Op)
    (idle : ∀ waiting, before.fate op waiting = none) :
    (before.outcomes op).filterMap staying? =
        before.waiting ++ (before.newcomers op).filterMap staying? ∧
      (before.outcomes op).filterMap leaving? = (before.newcomers op).filterMap leaving? := by
  unfold outcomes
  rw [List.filterMap_append, List.filterMap_append, List.filterMap_map, List.filterMap_map]
  constructor
  · congr 1
    exact (List.filterMap_congr fun waiting _ => by simp [idle, staying?]).trans List.filterMap_some
  · rw [List.filterMap_eq_nil_iff.mpr fun waiting _ => by simp [idle, leaving?], List.nil_append]

theorem outcomes_of_rest (before : Interface) (op : Op)
    (idle : ∀ waiting, before.fate op waiting = none) (nobody : before.newcomers op = []) :
    before.waiting = (before.outcomes op).filterMap staying? ∧
      Packet.datagramsIn [] = (before.outcomes op).filterMap leaving? := by
  have outcomes := before.outcomes_of_idle op idle
  rw [outcomes.1, outcomes.2, nobody]
  exact ⟨(List.append_nil _).symm, rfl⟩

theorem fate_of_ignores {bytes : Bytes} (ignores : before.heeds? bytes = none)
    (waiting : Waiting) : before.fate (.receive bytes) waiting = none := by
  unfold fate
  simp only [ignores]

theorem reception_of_none {nextHop : Ipv4.Address}
    (unknown : before.neighbors.hardwareOf? nextHop before.now = none) :
    before.reception nextHop =
      if before.waiting.length < maxWaiting then none else some .dropped := by
  unfold reception
  rw [unknown]

theorem outcomes_of_unknown {nextHop : Ipv4.Address} (datagram : Ipv4.Datagram)
    (unknown : before.neighbors.hardwareOf? nextHop before.now = none) :
    (before.enqueue datagram nextHop).waiting =
        (before.outcomes (.send datagram nextHop)).filterMap staying? ∧
      [] = (before.outcomes (.send datagram nextHop)).filterMap leaving? := by
  have idle := before.outcomes_of_idle (.send datagram nextHop) fun _ => rfl
  rw [idle.1, idle.2, waiting_enqueue]
  unfold newcomers
  dsimp only
  rw [reception_of_none unknown]
  split <;> exact ⟨rfl, rfl⟩

theorem outcomes_of_known {nextHop : Ipv4.Address} {hardware : Ethernet.Address}
    (datagram : Ipv4.Datagram)
    (known : before.neighbors.hardwareOf? nextHop before.now = some hardware) :
    before.waiting = (before.outcomes (.send datagram nextHop)).filterMap staying? ∧
      [(hardware, datagram)] = (before.outcomes (.send datagram nextHop)).filterMap leaving? := by
  have idle := before.outcomes_of_idle (.send datagram nextHop) fun _ => rfl
  have received : before.reception nextHop = some (.sent hardware) := by
    unfold reception
    rw [known]
  rw [idle.1, idle.2]
  unfold newcomers
  dsimp only
  rw [received]
  exact ⟨(List.append_nil _).symm, rfl⟩

theorem outcomes_of_heeds {bytes : Bytes} {message : Arp.Message}
    (heeds : before.heeds? bytes = some message)
    (reads : frames.map Packet.read? = (before.answers message).map some) :
    (before.waiting.filter fun waiting => decide (waiting.nextHop ≠ message.senderAddress)) =
        (before.outcomes (.receive bytes)).filterMap staying? ∧
      Packet.datagramsIn frames = (before.outcomes (.receive bytes)).filterMap leaving? := by
  have handled : before.outcomes (.receive bytes) = before.waiting.map fun waiting =>
      (waiting, if waiting.nextHop = message.senderAddress then some (.sent message.senderHardware)
        else none) := by
    unfold Interface.outcomes fate newcomers
    simp only [heeds, List.append_nil]
  rw [handled, List.filterMap_map, List.filterMap_map]
  constructor
  · rw [← List.filterMap_eq_filter]
    apply List.filterMap_congr
    intro waiting _
    by_cases same : waiting.nextHop = message.senderAddress <;>
      simp [same, Option.guard, staying?]
  · have answer : (if message.operation = .request ∧ message.targetAddress = before.address then
          [(message.senderHardware, Packet.arp (message.replyTo before.hardware))]
        else []).filterMap Packet.datagram? = [] := by
      split <;> rfl
    unfold answers at reads
    unfold Packet.datagramsIn
    rw [Packet.filterMap_read? reads, List.filterMap_append, answer, List.append_nil,
      List.filterMap_map, List.filterMap_filter]
    apply List.filterMap_congr
    intro waiting _
    by_cases same : waiting.nextHop = message.senderAddress <;>
      simp [same, Packet.datagram?, leaving?]

theorem outcomes_of_tick (before : Interface) (span : Duration) :
    (before.tick span).waiting = (before.outcomes (.tick span)).filterMap staying? ∧
      [] = (before.outcomes (.tick span)).filterMap leaving? := by
  unfold Interface.outcomes newcomers
  rw [List.append_nil, List.filterMap_map, List.filterMap_map]
  constructor
  · show before.waiting.filter _ = _
    rw [← List.filterMap_eq_filter]
    apply List.filterMap_congr
    intro waiting _
    by_cases young : before.now + span < waiting.since + NeighborCache.silence <;>
      simp [fate, young, Option.guard, staying?]
  · refine (List.filterMap_eq_nil_iff.mpr fun waiting _ => ?_).symm
    by_cases young : before.now + span < waiting.since + NeighborCache.silence <;>
      simp [fate, young, leaving?]

/-- What goes on waiting after a step, and which datagrams its frames carry. -/
theorem Proceeds.outcomes (proceeds : before.Proceeds op frames after) :
    after.waiting = (before.outcomes op).filterMap staying? ∧
      Packet.datagramsIn frames = (before.outcomes op).filterMap leaving? := by
  cases proceeds with
  | @sent datagram _ _ _ known reads =>
    rw [Packet.datagramsIn_singleton reads]
    exact outcomes_of_known datagram known
  | @asked datagram _ _ unknown _ reads =>
    rw [Packet.datagramsIn_singleton reads, ← (outcomes_of_unknown datagram unknown).1,
      waiting_enqueue, waiting_enqueue]
    exact ⟨rfl, (outcomes_of_unknown datagram unknown).2⟩
  | @held datagram _ unknown => exact outcomes_of_unknown datagram unknown
  | heard heeds reads => exact outcomes_of_heeds heeds reads
  | ignored ignores => exact before.outcomes_of_rest _ (fate_of_ignores ignores) rfl
  | tick span => exact before.outcomes_of_tick span
  | setPolicy policy => exact before.outcomes_of_rest (.setPolicy policy) (fun _ => rfl) rfl
  | drain => exact before.outcomes_of_rest .drain (fun _ => rfl) rfl

theorem mem_newcomers {newcomer : Waiting × Option Ending} :
    newcomer ∈ before.newcomers op ↔ ∃ datagram nextHop, op = .send datagram nextHop ∧
      newcomer = (⟨nextHop, before.now, datagram⟩, before.reception nextHop) := by
  cases op with
  | send datagram nextHop => simp [newcomers]
  | _ => simp [newcomers]

theorem fate_eq_sent {waiting : Waiting} {destination : Ethernet.Address}
    (sent : before.fate op waiting = some (.sent destination)) : ∃ bytes message,
      op = .receive bytes ∧ before.heeds? bytes = some message ∧
        waiting.nextHop = message.senderAddress ∧ destination = message.senderHardware := by
  cases op with
  | receive bytes =>
    cases heeds : before.heeds? bytes with
    | none => simp [fate, heeds] at sent
    | some message =>
      by_cases same : waiting.nextHop = message.senderAddress
      · simp only [fate, heeds, same, if_true, Option.some.injEq, Ending.sent.injEq] at sent
        exact ⟨bytes, message, rfl, heeds, same, sent.symm⟩
      · simp [fate, heeds, same] at sent
  | tick span =>
    unfold fate at sent
    dsimp only at sent
    split at sent <;> cases sent
  | send | setPolicy | drain => cases sent

theorem fate_of_same_nextHop {waiting other : Waiting} {destination : Ethernet.Address}
    (sent : before.fate op waiting = some (.sent destination))
    (same : other.nextHop = waiting.nextHop) : before.fate op other = some (.sent destination) := by
  obtain ⟨bytes, message, rfl, heeds, sender, rfl⟩ := fate_eq_sent sent
  simp only [fate, heeds, same, sender, if_true]

theorem fate_eq_dropped {waiting : Waiting}
    (dropped : before.fate op waiting = some .dropped) : ∃ span, op = .tick span ∧
      ¬ before.now + span < waiting.since + NeighborCache.silence := by
  cases op with
  | receive bytes =>
    cases heeds : before.heeds? bytes with
    | none => simp [fate, heeds] at dropped
    | some message =>
      by_cases same : waiting.nextHop = message.senderAddress <;>
        simp [fate, heeds, same] at dropped
  | tick span =>
    unfold fate at dropped
    dsimp only at dropped
    split at dropped
    · cases dropped
    · rename_i old
      exact ⟨span, rfl, old⟩
  | send | setPolicy | drain => cases dropped

theorem reception_eq_sent {nextHop : Ipv4.Address} {destination : Ethernet.Address} :
    before.reception nextHop = some (.sent destination) ↔
      before.neighbors.hardwareOf? nextHop before.now = some destination := by
  cases known : before.neighbors.hardwareOf? nextHop before.now with
  | some hardware => simp [reception, known]
  | none =>
    rw [reception_of_none known]
    split <;> simp

theorem reception_eq_dropped {nextHop : Ipv4.Address}
    (dropped : before.reception nextHop = some .dropped) :
    before.neighbors.hardwareOf? nextHop before.now = none ∧ 32 ≤ before.waiting.length := by
  cases known : before.neighbors.hardwareOf? nextHop before.now with
  | some hardware => simp [reception, known] at dropped
  | none =>
    rw [reception_of_none known] at dropped
    split at dropped
    · cases dropped
    · rename_i full
      exact ⟨rfl, Nat.not_lt.mp full⟩

theorem Proceeds.mem_waiting (proceeds : before.Proceeds op frames after) {waiting : Waiting}
    (member : waiting ∈ after.waiting) : waiting ∈ before.waiting ∨
      ∃ datagram nextHop, op = .send datagram nextHop ∧ waiting.datagram = datagram := by
  rw [proceeds.outcomes.1] at member
  obtain ⟨⟨handled, ending⟩, had, stays⟩ := List.mem_filterMap.mp member
  have same : handled = waiting := by
    cases ending with
    | none => exact Option.some.inj stays
    | some ending => cases stays
  subst same
  rcases List.mem_append.mp had with old | new
  · obtain ⟨_, held, same⟩ := List.mem_map.mp old
    obtain ⟨rfl, rfl⟩ := Prod.mk.inj same
    exact .inl held
  · obtain ⟨datagram, nextHop, sends, same⟩ := mem_newcomers.mp new
    obtain ⟨rfl, rfl⟩ := Prod.mk.inj same
    exact .inr ⟨datagram, nextHop, sends, rfl⟩

theorem Proceeds.directed (proceeds : before.Proceeds op frames after)
    (sound : before.neighbors.Sound) (early : after.now.millis < 2 ^ 63) {waiting : Waiting}
    {destination : Ethernet.Address}
    (sent : before.fate op waiting = some (.sent destination) ∨
      (waiting, some (.sent destination)) ∈ before.newcomers op) :
    after.neighbors.hardwareOf? waiting.nextHop after.now = some destination := by
  rcases sent with fated | new
  · obtain ⟨bytes, message, rfl, heeds, nextHop, rfl⟩ := fate_eq_sent fated
    cases proceeds with
    | ignored ignores => cases ignores.symm.trans heeds
    | heard again =>
      cases heeds.symm.trans again
      rw [NeighborCache.hardwareOf?_eq_some_iff, nextHop]
      refine ⟨_, NeighborCache.known_fill_self sound _, ?_, rfl⟩
      show before.now.millis < (before.now + NeighborCache.lifetime).millis
      have bound : before.now.millis < 2 ^ 63 := early
      have lifetime : NeighborCache.lifetime.millis = 30000 := rfl
      rw [Instant.millis_add, lifetime]
      unfold maxMillis
      omega
  · obtain ⟨datagram, nextHop, rfl, same⟩ := mem_newcomers.mp new
    obtain ⟨rfl, received⟩ := Prod.mk.inj same
    have known := reception_eq_sent.mp received.symm
    cases proceeds with
    | sent => exact known
    | asked unknown => cases unknown.symm.trans known
    | held unknown => cases unknown.symm.trans known

end Outcomes

theorem exists_run {ops : List Op} (start : Interface)
    (fit : ∀ waiting ∈ start.waiting, waiting.datagram.length ≤ Ipv4.Datagram.maxLength)
    (fits : ∀ datagram nextHop, .send datagram nextHop ∈ ops →
      datagram.length ≤ Ipv4.Datagram.maxLength) : start.run ops = .ok (start.course ops) := by
  induction ops generalizing start with
  | nil => rfl
  | cons op rest ih =>
    obtain ⟨reply, after, stepped⟩ := start.exists_step fit fun datagram nextHop sends =>
      fits datagram nextHop (sends ▸ List.mem_cons_self)
    have next := next_of_ok stepped
    have later : after.run rest = .ok (after.course rest) := by
      refine ih after (fun waiting member => ?_) fun datagram nextHop sends =>
        fits datagram nextHop (List.mem_cons_of_mem _ sends)
      rw [← next] at member
      rcases (step_proceeds stepped).mem_waiting member with old | ⟨datagram, nextHop, sends, rfl⟩
      · exact fit waiting old
      · exact fits _ nextHop (sends ▸ List.mem_cons_self)
    show start.run (op :: rest) = .ok ((start.next op).course rest)
    unfold run at later ⊢
    rw [List.foldlM_cons, stepped, next]
    exact later

end Interface

end NetStack.Link
