import NetStack.Proofs.Link.Custody

namespace NetStack.Link

/-- What became of a datagram that an interface was given: the step in which it was given, and the
    step in which it left, if it does not wait any more. -/
structure Journey extends Waiting where
  given : Nat
  left : Option (Nat × Ending)
  deriving DecidableEq

namespace Journey

open Interface (leaving?)

def waitsAt (journey : Journey) (moment : Nat) : Bool :=
  decide (journey.given < moment) && journey.left.all fun (step, _) => decide (moment ≤ step)

/-- The datagram and whom its frame is for, if it is sent in a step. -/
def sentIn? (journey : Journey) (step : Nat) : Option (Ethernet.Address × Ipv4.Datagram) :=
  match journey.left with
  | some (leaves, .sent destination) =>
    if leaves = step then some (destination, journey.datagram) else none
  | _ => none

def settle (step : Nat) (fate : Waiting → Option Ending) (journey : Journey) : Journey :=
  match journey.left with
  | none => { journey with left := (fate journey.toWaiting).map (step, ·) }
  | some _ => journey

def begin (step : Nat) (newcomer : Waiting × Option Ending) : Journey :=
  { newcomer.1 with given := step, left := newcomer.2.map (step, ·) }

section Settle

variable {journey : Journey} {step : Nat} {fate : Waiting → Option Ending}

theorem settle_of_left {leaves : Nat × Ending} (left : journey.left = some leaves) :
    journey.settle step fate = journey := by
  unfold settle
  rw [left]

theorem settle_of_waits (waits : journey.left = none) : journey.settle step fate =
    { journey with left := (fate journey.toWaiting).map (step, ·) } := by
  unfold settle
  rw [waits]

@[simp] theorem toWaiting_settle : (journey.settle step fate).toWaiting = journey.toWaiting := by
  unfold settle
  split <;> rfl

@[simp] theorem given_settle : (journey.settle step fate).given = journey.given := by
  unfold settle
  split <;> rfl

theorem left_settle_eq_some_iff {when : Nat} {ending : Ending} :
    (journey.settle step fate).left = some (when, ending) ↔ journey.left = some (when, ending) ∨
      journey.left = none ∧ when = step ∧ fate journey.toWaiting = some ending := by
  cases left : journey.left with
  | some leaves => simp [settle_of_left left, left]
  | none =>
    rw [settle_of_waits left]
    cases fate journey.toWaiting with
    | none => simp
    | some ending => simp [eq_comm]

theorem waitsAt_settle {moment : Nat} (early : moment ≤ step) :
    (journey.settle step fate).waitsAt moment = journey.waitsAt moment := by
  cases left : journey.left with
  | some leaves => rw [settle_of_left left]
  | none =>
    rw [settle_of_waits left]
    unfold waitsAt
    cases fate journey.toWaiting <;> simp [left, early]

theorem sentIn?_settle {earlier : Nat} (early : earlier < step) :
    (journey.settle step fate).sentIn? earlier = journey.sentIn? earlier := by
  have other : step ≠ earlier := Nat.ne_of_gt early
  cases left : journey.left with
  | some leaves => rw [settle_of_left left]
  | none =>
    rw [settle_of_waits left]
    unfold sentIn?
    rw [left]
    cases fate journey.toWaiting with
    | none => rfl
    | some ending => cases ending <;> simp [other]

variable (fate) in
theorem settle_now (given : journey.given ≤ step)
    (within : ∀ leaves, journey.left = some leaves → leaves.1 < step) :
    (journey.settle step fate).waitsAt (step + 1) =
        (journey.left.isNone && (fate journey.toWaiting).isNone) ∧
      (journey.settle step fate).sentIn? step =
        if journey.left = none then leaving? (journey.toWaiting, fate journey.toWaiting)
        else none := by
  cases left : journey.left with
  | some leaves =>
    have past := within leaves left
    obtain ⟨when, ending⟩ := leaves
    dsimp only at past
    have other : when ≠ step := Nat.ne_of_lt past
    have gone : decide (step + 1 ≤ when) = false := decide_eq_false (by omega)
    rw [settle_of_left left]
    unfold waitsAt sentIn?
    rw [left]
    constructor
    · rw [Option.all_some]
      dsimp only
      rw [gone, Bool.and_false]
      rfl
    · cases ending <;> simp [other]
  | none =>
    rw [settle_of_waits left]
    unfold waitsAt sentIn?
    cases fate journey.toWaiting with
    | none => simp [leaving?, Nat.lt_succ_of_le given]
    | some ending => cases ending <;> simp [leaving?]

theorem left_begin_eq_some_iff {newcomer : Waiting × Option Ending} {when : Nat}
    {ending : Ending} : (begin step newcomer).left = some (when, ending) ↔
      when = step ∧ newcomer.2 = some ending := by
  unfold begin
  cases newcomer.2 <;> simp [eq_comm]

theorem begin_now (newcomer : Waiting × Option Ending) :
    (begin step newcomer).waitsAt (step + 1) = newcomer.2.isNone ∧
      (begin step newcomer).sentIn? step = leaving? newcomer := by
  obtain ⟨waiting, ending⟩ := newcomer
  unfold begin waitsAt sentIn?
  cases ending with
  | none => simp [leaving?]
  | some ending => cases ending <;> simp [leaving?]

theorem begin_earlier (newcomer : Waiting × Option Ending) {earlier : Nat}
    (early : earlier < step) : (begin step newcomer).sentIn? earlier = none := by
  have other : step ≠ earlier := Nat.ne_of_gt early
  obtain ⟨waiting, ending⟩ := newcomer
  unfold begin sentIn?
  cases ending with
  | none => rfl
  | some ending => cases ending <;> simp [other]

theorem waitsAt_begin (newcomer : Waiting × Option Ending) {moment : Nat}
    (early : moment ≤ step) : (begin step newcomer).waitsAt moment = false := by
  have later : ¬ step < moment := Nat.not_lt.mpr early
  unfold begin waitsAt
  simp [later]

end Settle

end Journey

namespace Interface

/-- The journeys of all datagrams that were given in a run. -/
structure Accounts (start : Interface) (ops : List Op) (journeys : List Journey) : Prop where
  ordered : journeys.Pairwise fun earlier later => earlier.given < later.given
  /-- Every datagram that is given has a journey, and there are no others. -/
  given : ∀ step datagram nextHop, ops[step]? = some (.send datagram nextHop) ↔
    ∃ journey ∈ journeys,
      journey.given = step ∧ journey.datagram = datagram ∧ journey.nextHop = nextHop
  since : ∀ journey ∈ journeys, journey.since = (start.course (ops.take journey.given)).now
  within : ∀ journey ∈ journeys, ∀ step ending, journey.left = some (step, ending) →
    journey.given ≤ step ∧ step < ops.length
  /-- What waits at a moment is what was given before it and leaves no earlier. -/
  waiting : ∀ moment ≤ ops.length, (start.course (ops.take moment)).waiting =
    (journeys.filter (·.waitsAt moment)).map (·.toWaiting)
  /-- The datagrams in the frames of a step are those that are sent in it, each in one frame. -/
  sent : ∀ step op, ops[step]? = some op →
    Packet.datagramsIn ((start.course (ops.take step)).putOut op) =
      journeys.filterMap (·.sentIn? step)
  directed : ∀ journey ∈ journeys, ∀ step destination,
    journey.left = some (step, .sent destination) →
      let after := start.course (ops.take (step + 1))
      after.neighbors.hardwareOf? journey.nextHop after.now = some destination
  /-- Nothing is dropped but where too many wait or after waiting for five seconds. -/
  dropped : ∀ journey ∈ journeys, ∀ step, journey.left = some (step, .dropped) →
    let before := start.course (ops.take step)
    (step = journey.given ∧ before.waiting.length = 32 ∧
      before.neighbors.hardwareOf? journey.nextHop before.now = none) ∨
    ∃ span, ops[step]? = some (.tick span) ∧
      journey.since.millis + 5000 ≤ (start.course (ops.take (step + 1))).now.millis
  /-- What was given earlier for the same next hop has left by then. -/
  inOrder : journeys.Pairwise fun earlier later => earlier.nextHop = later.nextHop →
    ∀ step destination, later.left = some (step, .sent destination) →
      ∃ sooner ending, earlier.left = some (sooner, ending) ∧ sooner ≤ step

def extend (interface : Interface) (op : Op) (step : Nat) (journeys : List Journey) :
    List Journey :=
  journeys.map (·.settle step (interface.fate op)) ++ (interface.newcomers op).map (.begin step)

theorem mem_extend {interface : Interface} {op : Op} {step : Nat} {journeys : List Journey}
    {journey : Journey} : journey ∈ interface.extend op step journeys ↔
      (∃ old ∈ journeys, old.settle step (interface.fate op) = journey) ∨
        ∃ datagram nextHop, op = .send datagram nextHop ∧
          .begin step (⟨nextHop, interface.now, datagram⟩, interface.reception nextHop) =
            journey := by
  unfold extend
  rw [List.mem_append, List.mem_map, List.mem_map]
  apply or_congr_right
  constructor
  · rintro ⟨newcomer, new, rfl⟩
    obtain ⟨datagram, nextHop, sends, rfl⟩ := mem_newcomers.mp new
    exact ⟨datagram, nextHop, sends, rfl⟩
  · rintro ⟨datagram, nextHop, sends, rfl⟩
    exact ⟨_, mem_newcomers.mpr ⟨datagram, nextHop, sends, rfl⟩, rfl⟩

theorem pairwise_begin (interface : Interface) (op : Op) (step : Nat)
    (relation : Journey → Journey → Prop) :
    ((interface.newcomers op).map (.begin step)).Pairwise relation := by
  cases op with
  | send => exact List.pairwise_singleton ..
  | _ => exact .nil

namespace Accounts

theorem nil (start : Interface) (idle : start.waiting = []) : start.Accounts [] [] where
  ordered := .nil
  given := by simp
  since := nofun
  within := nofun
  waiting := by
    intro moment _
    rw [List.take_nil, course_nil, idle]
    rfl
  sent := by simp
  directed := nofun
  dropped := nofun
  inOrder := .nil

section Extend

variable {start : Interface} {ops : List Op} {op : Op} {journeys : List Journey}

theorem given_lt (accounts : start.Accounts ops journeys) {journey : Journey}
    (member : journey ∈ journeys) : journey.given < ops.length := by
  have sends := (accounts.given journey.given journey.datagram journey.nextHop).mpr
    ⟨journey, member, rfl, rfl, rfl⟩
  exact (List.getElem?_eq_some_iff.mp sends).1

theorem left_lt (accounts : start.Accounts ops journeys) {journey : Journey}
    (member : journey ∈ journeys) {leaves : Nat × Ending} (left : journey.left = some leaves) :
    leaves.1 < ops.length :=
  (accounts.within journey member leaves.1 leaves.2 left).2

theorem take_now (ops : List Op) (op : Op) :
    (ops ++ [op]).take (ops.length + 1) = ops ++ [op] :=
  List.take_of_length_le (by simp)

theorem waiting_now (accounts : start.Accounts ops journeys) :
    (start.course ops).waiting =
      (journeys.filter fun journey => journey.left.isNone).map (·.toWaiting) := by
  have now := accounts.waiting ops.length (Nat.le_refl _)
  rw [List.take_length] at now
  rw [now]
  congr 1
  apply List.filter_congr
  intro journey member
  have given := accounts.given_lt member
  unfold Journey.waitsAt
  cases left : journey.left with
  | none => simp [given]
  | some leaves =>
    have past := accounts.left_lt member left
    simp [past]

theorem extend_ordered (accounts : start.Accounts ops journeys) :
    ((start.course ops).extend op ops.length journeys).Pairwise
      fun earlier later => earlier.given < later.given := by
  unfold extend
  rw [List.pairwise_append, List.pairwise_map]
  refine ⟨?_, pairwise_begin .., ?_⟩
  · simpa only [Journey.given_settle] using accounts.ordered
  · intro old before new now
    obtain ⟨journey, member, rfl⟩ := List.mem_map.mp before
    obtain ⟨newcomer, _, rfl⟩ := List.mem_map.mp now
    rw [Journey.given_settle]
    exact accounts.given_lt member

theorem extend_given (accounts : start.Accounts ops journeys) (step : Nat)
    (datagram : Ipv4.Datagram) (nextHop : Ipv4.Address) :
    (ops ++ [op])[step]? = some (.send datagram nextHop) ↔
      ∃ journey ∈ (start.course ops).extend op ops.length journeys,
        journey.given = step ∧ journey.datagram = datagram ∧ journey.nextHop = nextHop := by
  constructor
  · intro sends
    rcases Nat.lt_or_ge step ops.length with early | late
    · rw [List.getElem?_append_left early] at sends
      obtain ⟨journey, member, rfl, rfl, rfl⟩ := (accounts.given _ _ _).mp sends
      refine ⟨_, mem_extend.mpr (.inl ⟨journey, member, rfl⟩), ?_⟩
      exact ⟨Journey.given_settle, congrArg Waiting.datagram Journey.toWaiting_settle,
        congrArg Waiting.nextHop Journey.toWaiting_settle⟩
    · rw [List.getElem?_append_right late] at sends
      obtain ⟨same, now⟩ : step - ops.length = 0 ∧ op = .send datagram nextHop := by
        simpa [List.getElem?_singleton] using sends
      have here : ops.length = step := by omega
      exact ⟨_, mem_extend.mpr (.inr ⟨datagram, nextHop, now, rfl⟩), here, rfl, rfl⟩
  · rintro ⟨journey, member, rfl, rfl, rfl⟩
    rcases mem_extend.mp member with ⟨old, before, rfl⟩ | ⟨datagram, nextHop, now, rfl⟩
    · have sends := (accounts.given _ _ _).mpr ⟨old, before, rfl, rfl, rfl⟩
      rw [Journey.given_settle, Journey.toWaiting_settle,
        List.getElem?_append_left (accounts.given_lt before)]
      exact sends
    · rw [now]
      exact List.getElem?_concat_length

theorem extend_since (accounts : start.Accounts ops journeys) {journey : Journey}
    (member : journey ∈ (start.course ops).extend op ops.length journeys) :
    journey.since = (start.course ((ops ++ [op]).take journey.given)).now := by
  rcases mem_extend.mp member with ⟨old, before, rfl⟩ | ⟨datagram, nextHop, now, rfl⟩
  · rw [Journey.given_settle, Journey.toWaiting_settle,
      List.take_append_of_le_length (Nat.le_of_lt (accounts.given_lt before))]
    exact accounts.since old before
  · show (start.course ops).now = (start.course ((ops ++ [op]).take ops.length)).now
    rw [List.take_append_of_le_length (Nat.le_refl _), List.take_length]

theorem extend_within (accounts : start.Accounts ops journeys) {journey : Journey}
    (member : journey ∈ (start.course ops).extend op ops.length journeys) {step : Nat}
    {ending : Ending} (left : journey.left = some (step, ending)) :
    journey.given ≤ step ∧ step < (ops ++ [op]).length := by
  rw [List.length_append, List.length_singleton]
  rcases mem_extend.mp member with ⟨old, before, rfl⟩ | ⟨datagram, nextHop, now, rfl⟩
  · rw [Journey.given_settle]
    rcases Journey.left_settle_eq_some_iff.mp left with earlier | ⟨_, rfl, _⟩
    · have within := accounts.within old before step ending earlier
      omega
    · have given := accounts.given_lt before
      omega
  · obtain ⟨rfl, _⟩ := Journey.left_begin_eq_some_iff.mp left
    exact ⟨Nat.le_refl _, Nat.lt_succ_self _⟩

variable (proceeds : (start.course ops).Proceeds op ((start.course ops).putOut op)
  (start.course (ops ++ [op])))

theorem filterMap_staying? (handled : List (Waiting × Option Ending)) :
    handled.filterMap staying? = (handled.filter (·.2.isNone)).map Prod.fst := by
  rw [← List.filterMap_eq_map, List.filterMap_filter]
  apply List.filterMap_congr
  rintro ⟨waiting, ending⟩ _
  cases ending <;> rfl

include proceeds in
theorem extend_waiting (accounts : start.Accounts ops journeys) {moment : Nat}
    (within : moment ≤ (ops ++ [op]).length) :
    (start.course ((ops ++ [op]).take moment)).waiting =
      (((start.course ops).extend op ops.length journeys).filter (·.waitsAt moment)).map
        (·.toWaiting) := by
  unfold extend
  rw [List.filter_append, List.filter_map, List.filter_map, List.map_append, List.map_map,
    List.map_map]
  -- what waited at an earlier moment is as it was; after the step it is what the step left waiting
  rcases Nat.lt_or_ge ops.length moment with late | early
  · have now : moment = ops.length + 1 := by
      rw [List.length_append, List.length_singleton] at within
      omega
    rw [now, take_now, proceeds.outcomes.1, filterMap_staying?]
    unfold outcomes
    rw [accounts.waiting_now, List.map_map, List.filter_append, List.filter_map, List.filter_filter,
      List.map_append, List.map_map]
    congr 1
    · congr 1
      · funext journey
        exact Journey.toWaiting_settle.symm
      · apply List.filter_congr
        intro journey member
        have settled := (Journey.settle_now ((start.course ops).fate op)
          (Nat.le_of_lt (accounts.given_lt member)) fun _ => accounts.left_lt member).1
        exact (Bool.and_comm ..).trans settled.symm
    · congr 1
      apply List.filter_congr
      intro newcomer _
      exact (Journey.begin_now newcomer).1.symm
  · rw [List.take_append_of_le_length early, accounts.waiting moment early]
    have none : (((start.course ops).newcomers op).filter
        ((Journey.waitsAt · moment) ∘ Journey.begin ops.length)) = [] :=
      List.filter_eq_nil_iff.mpr fun newcomer _ => by
        simp [Journey.waitsAt_begin newcomer early]
    rw [none, List.map_nil, List.append_nil]
    congr 1
    · funext journey
      exact Journey.toWaiting_settle.symm
    · apply List.filter_congr
      intro journey _
      exact (Journey.waitsAt_settle early).symm

include proceeds in
theorem extend_sent (accounts : start.Accounts ops journeys) {step : Nat} {given : Op}
    (here : (ops ++ [op])[step]? = some given) :
    Packet.datagramsIn ((start.course ((ops ++ [op]).take step)).putOut given) =
      ((start.course ops).extend op ops.length journeys).filterMap (·.sentIn? step) := by
  unfold extend
  rw [List.filterMap_append, List.filterMap_map, List.filterMap_map]
  rcases Nat.lt_or_ge step ops.length with early | late
  · rw [List.getElem?_append_left early] at here
    rw [List.take_append_of_le_length (Nat.le_of_lt early), accounts.sent step given here]
    have none : ((start.course ops).newcomers op).filterMap
        ((Journey.sentIn? · step) ∘ Journey.begin ops.length) = [] :=
      List.filterMap_eq_nil_iff.mpr fun newcomer _ => Journey.begin_earlier newcomer early
    rw [none, List.append_nil]
    apply List.filterMap_congr
    intro journey _
    exact (Journey.sentIn?_settle early).symm
  · rw [List.getElem?_append_right late] at here
    obtain ⟨same, rfl⟩ : step - ops.length = 0 ∧ op = given := by
      simpa [List.getElem?_singleton] using here
    have now : step = ops.length := by omega
    rw [now, List.take_append_of_le_length (Nat.le_refl _), List.take_length, proceeds.outcomes.2]
    unfold outcomes
    rw [accounts.waiting_now, List.map_map, List.filterMap_append, List.filterMap_map,
      List.filterMap_filter]
    congr 1
    · apply List.filterMap_congr
      intro journey member
      have settled := (Journey.settle_now ((start.course ops).fate op)
        (Nat.le_of_lt (accounts.given_lt member)) fun _ => accounts.left_lt member).2
      refine Eq.trans ?_ settled.symm
      cases journey.left <;> simp
    · apply List.filterMap_congr
      intro newcomer _
      exact (Journey.begin_now newcomer).2.symm

include proceeds in
theorem extend_directed (accounts : start.Accounts ops journeys)
    (sound : (start.course ops).neighbors.Sound)
    (early : (start.course (ops ++ [op])).now.millis < 2 ^ 63) {journey : Journey}
    (member : journey ∈ (start.course ops).extend op ops.length journeys) {step : Nat}
    {destination : Ethernet.Address} (left : journey.left = some (step, .sent destination)) :
    (start.course ((ops ++ [op]).take (step + 1))).neighbors.hardwareOf? journey.nextHop
      (start.course ((ops ++ [op]).take (step + 1))).now = some destination := by
  rcases mem_extend.mp member with ⟨old, before, rfl⟩ | ⟨datagram, nextHop, now, rfl⟩
  · rw [Journey.toWaiting_settle]
    rcases Journey.left_settle_eq_some_iff.mp left with earlier | ⟨_, rfl, fated⟩
    · rw [List.take_append_of_le_length (accounts.left_lt before earlier)]
      exact accounts.directed old before step destination earlier
    · rw [take_now]
      exact proceeds.directed sound early (.inl fated)
  · obtain ⟨rfl, received⟩ := Journey.left_begin_eq_some_iff.mp left
    rw [take_now]
    refine proceeds.directed sound early (.inr (mem_newcomers.mpr ⟨datagram, nextHop, now, ?_⟩))
    exact congrArg _ received.symm

include proceeds in
theorem extend_dropped (accounts : start.Accounts ops journeys)
    (bound : (start.course ops).waiting.length ≤ 32)
    (early : (start.course (ops ++ [op])).now.millis < 2 ^ 63) {journey : Journey}
    (member : journey ∈ (start.course ops).extend op ops.length journeys) {step : Nat}
    (left : journey.left = some (step, .dropped)) :
    (step = journey.given ∧ (start.course ((ops ++ [op]).take step)).waiting.length = 32 ∧
      (start.course ((ops ++ [op]).take step)).neighbors.hardwareOf? journey.nextHop
        (start.course ((ops ++ [op]).take step)).now = none) ∨
    ∃ span, (ops ++ [op])[step]? = some (.tick span) ∧ journey.since.millis + 5000 ≤
      (start.course ((ops ++ [op]).take (step + 1))).now.millis := by
  rcases mem_extend.mp member with ⟨old, before, rfl⟩ | ⟨datagram, nextHop, now, rfl⟩
  · rw [Journey.toWaiting_settle, Journey.given_settle]
    rcases Journey.left_settle_eq_some_iff.mp left with earlier | ⟨_, rfl, fated⟩
    · have past := accounts.left_lt before earlier
      rw [List.take_append_of_le_length past, List.take_append_of_le_length (Nat.le_of_lt past),
        List.getElem?_append_left past]
      exact accounts.dropped old before step earlier
    · obtain ⟨span, ticks, long⟩ := fate_eq_dropped fated
      right
      refine ⟨span, by rw [ticks, List.getElem?_concat_length], ?_⟩
      have later : (start.course (ops ++ [op])).now = (start.course ops).now + span := by
        subst ticks
        exact proceeds.now_of_tick
      have silence : NeighborCache.silence.millis = 5000 := rfl
      rw [← later, Instant.lt_iff, Instant.millis_add, silence] at long
      rw [take_now]
      unfold maxMillis at long
      omega
  · obtain ⟨rfl, received⟩ := Journey.left_begin_eq_some_iff.mp left
    obtain ⟨unknown, full⟩ := reception_eq_dropped received
    left
    rw [List.take_append_of_le_length (Nat.le_refl _), List.take_length]
    exact ⟨rfl, Nat.le_antisymm bound full, unknown⟩

theorem extend_inOrder (accounts : start.Accounts ops journeys)
    (unresolved : (start.course ops).Unresolved) :
    ((start.course ops).extend op ops.length journeys).Pairwise fun earlier later =>
      earlier.nextHop = later.nextHop → ∀ step destination,
        later.left = some (step, .sent destination) →
          ∃ sooner ending, earlier.left = some (sooner, ending) ∧ sooner ≤ step := by
  unfold extend
  rw [List.pairwise_append, List.pairwise_map]
  refine ⟨?_, pairwise_begin .., ?_⟩
  · apply List.Pairwise.imp_of_mem _ accounts.inOrder
    intro earlier later member _ inOrder same step destination left
    rw [Journey.toWaiting_settle, Journey.toWaiting_settle] at same
    rcases Journey.left_settle_eq_some_iff.mp left with past | ⟨_, rfl, fated⟩
    · obtain ⟨sooner, ending, before, le⟩ := inOrder same step destination past
      exact ⟨sooner, ending, Journey.left_settle_eq_some_iff.mpr (.inl before), le⟩
    · cases waits : earlier.left with
      | some leaves =>
        refine ⟨leaves.1, leaves.2, Journey.left_settle_eq_some_iff.mpr (.inl waits), ?_⟩
        exact Nat.le_of_lt (accounts.left_lt member waits)
      | none =>
        have alike := fate_of_same_nextHop fated same
        exact ⟨_, _, Journey.left_settle_eq_some_iff.mpr (.inr ⟨waits, rfl, alike⟩), Nat.le_refl _⟩
  · intro old before new now same step destination left
    obtain ⟨journey, member, rfl⟩ := List.mem_map.mp before
    obtain ⟨newcomer, entered, rfl⟩ := List.mem_map.mp now
    obtain ⟨datagram, nextHop, _, rfl⟩ := mem_newcomers.mp entered
    obtain ⟨rfl, received⟩ := Journey.left_begin_eq_some_iff.mp left
    rw [Journey.toWaiting_settle] at same
    cases waits : journey.left with
    | some leaves =>
      refine ⟨leaves.1, leaves.2, Journey.left_settle_eq_some_iff.mpr (.inl waits), ?_⟩
      exact Nat.le_of_lt (accounts.left_lt member waits)
    | none =>
      -- it would wait for a neighbor that is known
      have held : journey.toWaiting ∈ (start.course ops).waiting := by
        rw [accounts.waiting_now]
        exact List.mem_map_of_mem (List.mem_filter.mpr ⟨member, by rw [waits]; rfl⟩)
      have unknown := unresolved _ held
      rw [same] at unknown
      cases unknown.symm.trans (reception_eq_sent.mp received)

include proceeds in
/-- The accounts of a run are continued in one more step. -/
theorem extend (accounts : start.Accounts ops journeys)
    (orderly : (start.course ops).Orderly)
    (early : (start.course (ops ++ [op])).now.millis < 2 ^ 63) :
    start.Accounts (ops ++ [op]) ((start.course ops).extend op ops.length journeys) where
  ordered := accounts.extend_ordered
  given := accounts.extend_given
  since _ member := accounts.extend_since member
  within _ member _ _ left := accounts.extend_within member left
  waiting _ within := extend_waiting proceeds accounts within
  sent _ _ here := extend_sent proceeds accounts here
  directed _ member _ _ left := extend_directed proceeds accounts orderly.sound early member left
  dropped _ member _ left := extend_dropped proceeds accounts orderly.bounded early member left
  inOrder := accounts.extend_inOrder orderly.unresolved

end Extend

end Accounts

section Run

variable {hardware : Ethernet.Address} {address : Ipv4.Address} {ops : List Op}

theorem run_accounts {after : Interface} (ran : (fresh hardware address).run ops = .ok after)
    (early : after.now.millis < 2 ^ 63) : ((fresh hardware address).course ops).Orderly ∧
      ∃ journeys, (fresh hardware address).Accounts ops journeys := by
  refine run_induction (P := fun ops => ((fresh hardware address).course ops).Orderly ∧
    ∃ journeys, (fresh hardware address).Accounts ops journeys) ran early ?_ ?_
  · exact ⟨orderly_fresh hardware address, [], .nil _ rfl⟩
  · rintro front op _ now proceeds ⟨orderly, journeys, accounts⟩
    exact ⟨proceeds.orderly orderly, _, Accounts.extend proceeds accounts orderly now⟩

/-- Every datagram that an interface is given in a run waits, or has left in one frame, or was
    dropped: where 32 others waited for addresses that were not known, or after waiting for five
    seconds. What goes to one next hop leaves in order, and nothing waits for a next hop whose
    mapping has not expired. The clock shows what the ticks add up to. -/
theorem given_accounted (hardware : Ethernet.Address) (address : Ipv4.Address) (ops : List Op)
    (short : ∀ datagram nextHop, .send datagram nextHop ∈ ops → datagram.payload.length ≤ 65515)
    (early : ((fresh hardware address).course ops).now.millis < 2 ^ 63) :
    let start := fresh hardware address
    (∀ moment, start.run (ops.take moment) = .ok (start.course (ops.take moment))) ∧
      (∀ moment, (start.course (ops.take moment)).now.millis = elapsed (ops.take moment)) ∧
      (∃ journeys, start.Accounts ops journeys) ∧
      ∀ waiting ∈ (start.course ops).waiting, ∀ neighbor,
        (start.course ops).neighbors.known.get? waiting.nextHop = some neighbor →
          neighbor.expiresAt ≤ (start.course ops).now := by
  intro start
  have ran (moment : Nat) : start.run (ops.take moment) = .ok (start.course (ops.take moment)) := by
    refine exists_run start nofun fun datagram nextHop sends => ?_
    have bound := short datagram nextHop (List.mem_of_mem_take sends)
    unfold Ipv4.Datagram.length Ipv4.headerLength Ipv4.Datagram.maxLength
    omega
  have whole := ran ops.length
  rw [List.take_length] at whole
  obtain ⟨orderly, accounted⟩ := run_accounts whole early
  refine ⟨ran, fun moment => now_eq_elapsed whole early (List.take_prefix moment ops), accounted,
    fun waiting member neighbor found => ?_⟩
  exact NeighborCache.hardwareOf?_eq_none_iff.mp (orderly.unresolved waiting member) neighbor found

theorem given_accounted_answered :
    let hardware : Ethernet.Address := ⟨2, 0, 0, 0, 0, 1⟩
    let address : Ipv4.Address := .ofOctets 10 0 0 1
    let neighbor : Ipv4.Address := .ofOctets 10 0 0 2
    let stranger : Ipv4.Address := .ofOctets 10 0 0 3
    let datagram (octet : UInt8) : Ipv4.Datagram :=
      { source := address, destination := neighbor, protocol := .udp, payload := [octet] }
    let answer : Arp.Message :=
      (Arp.Message.request hardware address neighbor).replyTo ⟨2, 0, 0, 0, 0, 2⟩
    let frame : Ethernet.Frame :=
      { destination := hardware, source := ⟨2, 0, 0, 0, 0, 2⟩, type := .arp,
        payload := answer.toBytes }
    let ops : List Op :=
      [.send (datagram 1) neighbor, .send (datagram 2) stranger, .send (datagram 3) neighbor,
        .receive frame.toBytes, .send (datagram 4) neighbor, .tick (.ofSeconds 5)]
    let start := fresh hardware address
    (∀ datagram nextHop, .send datagram nextHop ∈ ops → datagram.payload.length ≤ 65515) ∧
      (start.course ops).now.millis < 2 ^ 63 ∧
      (ops.mapIdx fun step op => Packet.datagramsIn ((start.course (ops.take step)).putOut op)) =
        [[], [], [], [(⟨2, 0, 0, 0, 0, 2⟩, datagram 1), (⟨2, 0, 0, 0, 0, 2⟩, datagram 3)],
          [(⟨2, 0, 0, 0, 0, 2⟩, datagram 4)], []] ∧
      (∀ moment, start.run (ops.take moment) = .ok (start.course (ops.take moment))) ∧
      (∀ moment, (start.course (ops.take moment)).now.millis = elapsed (ops.take moment)) ∧
      (∃ journeys, start.Accounts ops journeys) ∧
      ∀ waiting ∈ (start.course ops).waiting, ∀ neighbor,
        (start.course ops).neighbors.known.get? waiting.nextHop = some neighbor →
          neighbor.expiresAt ≤ (start.course ops).now := by
  intro hardware address neighbor stranger datagram answer frame ops start
  have short : ∀ datagram nextHop, .send datagram nextHop ∈ ops →
      datagram.payload.length ≤ 65515 := by
    intro given nextHop sends
    simp only [ops, List.mem_cons, Op.send.injEq, reduceCtorEq, false_or, or_false,
      List.not_mem_nil] at sends
    rcases sends with ⟨rfl, _⟩ | ⟨rfl, _⟩ | ⟨rfl, _⟩ | ⟨rfl, _⟩ <;> decide
  have early : (start.course ops).now.millis < 2 ^ 63 := by decide +kernel
  exact ⟨short, early, by decide +kernel, given_accounted hardware address ops short early⟩

end Run

end Interface

end NetStack.Link
