import Mathlib.Data.List.Forall2
import NetStack.Proofs.Link.Custody

namespace NetStack.Link.Interface

variable {α : Type} (hop : α → Ipv4.Address) (load : α → Ipv4.Datagram)

def towards (nextHop : Ipv4.Address) (items : List α) : List α :=
  items.filter fun item => decide (hop item = nextHop)

def Holds (interface : Interface) (items : List α) : Prop :=
  (interface.waiting.map fun waiting => (waiting.nextHop, waiting.datagram)) =
    items.map fun item => (hop item, load item)

def Carries (neighbors : NeighborCache) (sent : Ethernet.Address × Ipv4.Datagram) (item : α) :
    Prop :=
  sent.2 = load item ∧
    ∃ expiresAt, neighbors.known.get? (hop item) = some ⟨sent.1, expiresAt⟩

/-- What becomes of the items that wait and of new ones: some leave in frames, and some are kept. -/
structure Handles (items news : List α) (frames : List Bytes) (after : Interface)
    (left kept : List α) : Prop where
  waits : after.Holds hop load kept
  readable : ∀ frame ∈ frames, (Packet.read? frame).isSome
  sends : List.Forall₂ (Carries hop load after.neighbors) (Packet.datagramsIn frames) left
  inOrder : ∀ nextHop,
    (towards hop nextHop (left ++ kept)).Sublist (towards hop nextHop (items ++ news))

variable {hop load}

section Outcomes

theorem towards_append (nextHop : Ipv4.Address) (front back : List α) :
    towards hop nextHop (front ++ back) = towards hop nextHop front ++ towards hop nextHop back :=
  List.filter_append ..

theorem towards_cons_of_eq (first : α) (rest : List α) :
    towards hop (hop first) (first :: rest) = first :: towards hop (hop first) rest :=
  List.filter_cons_of_pos (decide_eq_true rfl)

theorem towards_cons_of_ne {nextHop : Ipv4.Address} {first : α} (rest : List α)
    (other : hop first ≠ nextHop) :
    towards hop nextHop (first :: rest) = towards hop nextHop rest :=
  List.filter_cons_of_neg fun same => other (of_decide_eq_true same)

theorem towards_cons_sublist (nextHop : Ipv4.Address) {first : α} {rest whole : List α}
    (sublist : (towards hop nextHop rest).Sublist (towards hop nextHop whole)) :
    (towards hop nextHop (first :: rest)).Sublist (towards hop nextHop (first :: whole)) := by
  by_cases same : hop first = nextHop
  · subst same
    rw [towards_cons_of_eq, towards_cons_of_eq]
    exact sublist.cons_cons first
  · rw [towards_cons_of_ne _ same, towards_cons_of_ne _ same]
    exact sublist

theorem sublist_towards_cons (nextHop : Ipv4.Address) {first : α} {rest whole : List α}
    (sublist : (towards hop nextHop rest).Sublist (towards hop nextHop whole)) :
    (towards hop nextHop rest).Sublist (towards hop nextHop (first :: whole)) :=
  sublist.trans ((List.sublist_cons_self first whole).filter _)

theorem towards_trans {nextHop : Ipv4.Address} {items left kept more later last : List α}
    (sooner : (towards hop nextHop (left ++ kept)).Sublist (towards hop nextHop items))
    (after : (towards hop nextHop (later ++ last)).Sublist (towards hop nextHop (kept ++ more))) :
    (towards hop nextHop (left ++ later ++ last)).Sublist
      (towards hop nextHop (items ++ more)) := by
  simp only [towards_append] at sooner after ⊢
  have moved := after.append_left (towards hop nextHop left)
  rw [← List.append_assoc, ← List.append_assoc] at moved
  exact moved.trans (sooner.append_right _)

/-- Among the entries for one next hop, those that leave come before those that stay. -/
def LeavesFirst (entries : List (Waiting × Option Ending)) : Prop :=
  entries.Pairwise fun sooner later => sooner.1.nextHop = later.1.nextHop →
    ∀ destination, later.2 = some (.sent destination) → sooner.2 ≠ none

variable (hop load) in
def Leaves (entries : List (Waiting × Option Ending)) (sent : Ethernet.Address × Ipv4.Datagram)
    (item : α) : Prop :=
  sent.2 = load item ∧
    ∃ waiting, (waiting, some (.sent sent.1)) ∈ entries ∧ waiting.nextHop = hop item

variable {entries : List (Waiting × Option Ending)}

theorem Leaves.cons {sent : Ethernet.Address × Ipv4.Datagram} {item : α}
    (leaves : Leaves hop load entries sent item) (first : Waiting × Option Ending) :
    Leaves hop load (first :: entries) sent item := by
  obtain ⟨datagram, waiting, member, nextHop⟩ := leaves
  exact ⟨datagram, waiting, List.mem_cons_of_mem _ member, nextHop⟩

theorem towards_eq_nil {sent : List (Ethernet.Address × Ipv4.Datagram)} {left : List α}
    (leaves : List.Forall₂ (Leaves hop load entries) sent left) {nextHop : Ipv4.Address}
    (nobody : ∀ entry ∈ entries, nextHop = entry.1.nextHop →
      ∀ destination, entry.2 ≠ some (.sent destination)) : towards hop nextHop left = [] := by
  induction leaves with
  | nil => rfl
  | @cons sent item _ _ carried _ ih =>
    obtain ⟨_, waiting, member, hops⟩ := carried
    have other : hop item ≠ nextHop := fun same =>
      nobody _ member (hops.trans same).symm sent.1 rfl
    rw [towards_cons_of_ne _ other, ih]

theorem LeavesFirst.split (leavesFirst : LeavesFirst entries) {items : List α}
    (keys : (entries.map fun entry => (entry.1.nextHop, entry.1.datagram)) =
      items.map fun item => (hop item, load item)) :
    ∃ left kept : List α,
      ((entries.filterMap staying?).map fun waiting => (waiting.nextHop, waiting.datagram)) =
        (kept.map fun item => (hop item, load item)) ∧
      List.Forall₂ (Leaves hop load entries) (entries.filterMap leaving?) left ∧
      ∀ nextHop, (towards hop nextHop (left ++ kept)).Sublist (towards hop nextHop items) := by
  induction entries generalizing items with
  | nil => exact ⟨[], [], rfl, .nil, fun _ => List.nil_sublist _⟩
  | cons first rest ih =>
    obtain ⟨waiting, ending⟩ := first
    cases items with
    | nil => cases keys
    | cons item items =>
    rw [List.map_cons, List.map_cons, List.cons.injEq] at keys
    obtain ⟨key, keys⟩ := keys
    obtain ⟨nextHop, datagram⟩ := Prod.mk.inj key
    obtain ⟨first, later⟩ := List.pairwise_cons.mp leavesFirst
    obtain ⟨left, kept, waits, leaves, inOrder⟩ := ih later keys
    have leaves' := leaves.imp fun _ _ carried => carried.cons (waiting, ending)
    match ending with
    | none =>
      refine ⟨left, item :: kept, ?_, leaves', fun towardsWhom => ?_⟩
      · have stays : staying? (waiting, none) = some waiting := rfl
        rw [List.filterMap_cons_some stays, List.map_cons, List.map_cons, waits, ← key]
      · have whole := inOrder towardsWhom
        rw [towards_append] at whole ⊢
        by_cases same : hop item = towardsWhom
        · subst same
          have nobody : towards hop (hop item) left = [] := by
            refine towards_eq_nil leaves fun entry member same destination sent => ?_
            exact first entry member (nextHop.trans same) destination sent rfl
          rw [nobody, List.nil_append] at whole ⊢
          exact towards_cons_sublist _ whole
        · rw [towards_cons_of_ne _ same, towards_cons_of_ne _ same]
          exact whole
    | some (.sent destination) =>
      have gone : Leaves hop load ((waiting, some (.sent destination)) :: rest)
          (destination, waiting.datagram) item := ⟨datagram, waiting, List.mem_cons_self, nextHop⟩
      exact ⟨item :: left, kept, waits, .cons gone leaves', fun nextHop =>
        towards_cons_sublist nextHop (inOrder nextHop)⟩
    | some .dropped =>
      exact ⟨left, kept, waits, leaves', fun nextHop =>
        sublist_towards_cons nextHop (inOrder nextHop)⟩

end Outcomes

section Step

variable {before after : Interface} {op : Op} {frames : List Bytes}

theorem Orderly.leavesFirst (orderly : before.Orderly) (op : Op) :
    LeavesFirst (before.outcomes op) := by
  unfold LeavesFirst outcomes
  rw [List.pairwise_append, List.pairwise_map]
  refine ⟨?_, ?_, ?_⟩
  · refine List.pairwise_of_forall fun sooner later same destination sent nothing => ?_
    have alike := fate_of_same_nextHop sent same
    cases nothing.symm.trans alike
  · cases op with
    | send datagram nextHop => exact List.pairwise_singleton ..
    | receive | tick | setPolicy | drain => exact .nil
  · intro old held new entered same destination sent
    obtain ⟨waiting, member, rfl⟩ := List.mem_map.mp held
    obtain ⟨datagram, nextHop, _, rfl⟩ := mem_newcomers.mp entered
    -- it would wait for a neighbor that is known
    have unknown := orderly.unresolved waiting member
    dsimp only at same sent
    rw [same] at unknown
    cases unknown.symm.trans (reception_eq_sent.mp sent)

theorem Proceeds.addressed (proceeds : before.Proceeds op frames after)
    (sound : before.neighbors.Sound) {waiting : Waiting} {destination : Ethernet.Address}
    (sent : (waiting, some (.sent destination)) ∈ before.outcomes op) :
    ∃ expiresAt, after.neighbors.known.get? waiting.nextHop = some ⟨destination, expiresAt⟩ := by
  rcases List.mem_append.mp sent with held | new
  · obtain ⟨_, _, same⟩ := List.mem_map.mp held
    obtain ⟨rfl, fated⟩ := Prod.mk.inj same
    obtain ⟨bytes, message, rfl, heeds, nextHop, rfl⟩ := fate_eq_sent fated
    cases proceeds with
    | ignored ignores => cases ignores.symm.trans heeds
    | heard again =>
      cases heeds.symm.trans again
      rw [nextHop]
      exact ⟨_, NeighborCache.known_fill_self sound _⟩
  · obtain ⟨datagram, nextHop, rfl, same⟩ := mem_newcomers.mp new
    obtain ⟨rfl, received⟩ := Prod.mk.inj same
    have known := reception_eq_sent.mp received.symm
    cases proceeds with
    | sent =>
      obtain ⟨neighbor, found, _, rfl⟩ := NeighborCache.hardwareOf?_eq_some_iff.mp known
      exact ⟨neighbor.expiresAt, found⟩
    | asked unknown | held unknown => cases unknown.symm.trans known

theorem Proceeds.readable (proceeds : before.Proceeds op frames after) :
    ∀ frame ∈ frames, (Packet.read? frame).isSome := by
  intro frame member
  cases proceeds with
  | sent _ reads | asked _ _ reads =>
    rw [List.mem_singleton.mp member, reads]
    rfl
  | heard _ reads =>
    have answer : Packet.read? frame ∈ frames.map Packet.read? := List.mem_map_of_mem member
    rw [reads] at answer
    obtain ⟨sent, _, same⟩ := List.mem_map.mp answer
    rw [← same]
    rfl
  | held | ignored | tick | setPolicy | drain => cases member

theorem Proceeds.handles (proceeds : before.Proceeds op frames after) (orderly : before.Orderly)
    {items news : List α} (holds : before.Holds hop load items)
    (gives : ((before.newcomers op).map fun newcomer =>
      (newcomer.1.nextHop, newcomer.1.datagram)) = news.map fun item => (hop item, load item)) :
    ∃ left kept, Handles hop load items news frames after left kept := by
  have keys : ((before.outcomes op).map fun entry => (entry.1.nextHop, entry.1.datagram)) =
      (items ++ news).map fun item => (hop item, load item) := by
    unfold Interface.outcomes
    rw [List.map_append, List.map_map, List.map_append, gives, ← holds]
    rfl
  obtain ⟨left, kept, waits, leaves, inOrder⟩ := (orderly.leavesFirst op).split keys
  obtain ⟨waiting, datagrams⟩ := proceeds.outcomes
  refine ⟨left, kept, ?_, proceeds.readable, ?_, inOrder⟩
  · unfold Holds
    rw [waiting, waits]
  · rw [datagrams]
    apply leaves.imp
    intro sent item ⟨datagram, waiting, member, nextHop⟩
    rw [Carries, ← nextHop]
    exact ⟨datagram, proceeds.addressed orderly.sound member⟩

theorem Handles.trans {between : Interface} {items news more left kept later last : List α}
    {rest : List Bytes} (first : Handles hop load items news frames between left kept)
    (second : Handles hop load kept more rest after later last)
    (known : after.neighbors.known = between.neighbors.known) :
    Handles hop load items (news ++ more) (frames ++ rest) after (left ++ later) last where
  waits := second.waits
  readable frame member := by
    rcases List.mem_append.mp member with sooner | later
    · exact first.readable frame sooner
    · exact second.readable frame later
  sends := by
    have carried : List.Forall₂ (Carries hop load after.neighbors) (Packet.datagramsIn frames)
        left := by
      apply first.sends.imp
      intro sent item carries
      unfold Carries
      rw [known]
      exact carries
    unfold Packet.datagramsIn at carried ⊢
    rw [List.filterMap_append, List.filterMap_append]
    exact List.rel_append carried second.sends
  inOrder nextHop := by
    have whole := towards_trans (first.inOrder nextHop) (second.inOrder nextHop)
    rwa [List.append_assoc items] at whole

theorem Proceeds.frames_eq (proceeds : before.Proceeds op frames after) (undrained : op ≠ .drain) :
    after.frames = before.frames ++ frames := by
  cases proceeds with
  | sent | heard => rfl
  | asked => exact frames_enqueue ..
  | held => rw [frames_enqueue, List.append_nil]
  | ignored | tick | setPolicy => exact (List.append_nil _).symm
  | drain => exact absurd rfl undrained

def Fits (interface : Interface) : Prop :=
  ∀ waiting ∈ interface.waiting, waiting.datagram.length ≤ Ipv4.Datagram.maxLength

theorem Proceeds.fits (proceeds : before.Proceeds op frames after) (fits : before.Fits)
    (short : ∀ datagram nextHop, op = .send datagram nextHop →
      datagram.length ≤ Ipv4.Datagram.maxLength) : after.Fits := by
  intro waiting member
  rcases proceeds.mem_waiting member with old | ⟨datagram, nextHop, sends, loaded⟩
  · exact fits waiting old
  · rw [loaded]
    exact short datagram nextHop sends

theorem Proceeds.known_of_send {datagram : Ipv4.Datagram} {nextHop : Ipv4.Address}
    (proceeds : before.Proceeds (.send datagram nextHop) frames after) :
    after.neighbors.known = before.neighbors.known := by
  cases proceeds with
  | sent => rfl
  | held => rw [neighbors_enqueue]
  | asked =>
    rw [neighbors_enqueue]
    rfl

end Step

section Sends

def Op.isSend : Op → Bool
  | .send _ _ => true
  | _ => false

variable (hop load) in
def sends (news : List α) : List Op := news.map fun item => .send (load item) (hop item)

section Give

variable {start : Interface} {item : α}

theorem filter_isSend_sends (news : List α) :
    (sends hop load news).filter Op.isSend = sends hop load news := by
  refine List.filter_eq_self.mpr fun op member => ?_
  obtain ⟨item, _, rfl⟩ := List.mem_map.mp member
  rfl

theorem course_sends_cons (first : α) (rest : List α) :
    start.course (sends hop load (first :: rest)) =
      (start.next (.send (load first) (hop first))).course (sends hop load rest) := rfl

theorem Fits.proceeds (fits : start.Fits)
    (short : (load item).length ≤ Ipv4.Datagram.maxLength) :
    start.Proceeds (.send (load item) (hop item)) (start.putOut (.send (load item) (hop item)))
      (start.next (.send (load item) (hop item))) := by
  have brief : ∀ datagram nextHop, Op.send (load item) (hop item) = .send datagram nextHop →
      datagram.length ≤ Ipv4.Datagram.maxLength := by
    rintro _ _ ⟨⟩
    exact short
  obtain ⟨reply, after, stepped⟩ := start.exists_step fits brief
  exact step_proceeds stepped

theorem Fits.send (fits : start.Fits) (short : (load item).length ≤ Ipv4.Datagram.maxLength) :
    (start.next (.send (load item) (hop item))).Fits := by
  refine (fits.proceeds short).fits fits ?_
  rintro _ _ ⟨⟩
  exact short

theorem Fits.sends (fits : start.Fits) {news : List α}
    (short : ∀ item ∈ news, (load item).length ≤ Ipv4.Datagram.maxLength) :
    (start.course (sends hop load news)).Fits := by
  induction news generalizing start with
  | nil => exact fits
  | cons first rest ih =>
    exact ih (fits.send (short first List.mem_cons_self))
      fun item member => short item (List.mem_cons_of_mem _ member)

end Give

theorem Orderly.handles_sends {start : Interface} (orderly : start.Orderly) (fits : start.Fits)
    {items news : List α} (holds : start.Holds hop load items)
    (short : ∀ item ∈ news, (load item).length ≤ Ipv4.Datagram.maxLength) :
    (start.course (sends hop load news)).Orderly ∧
      (start.course (sends hop load news)).neighbors.known = start.neighbors.known ∧
      ∃ frames left kept,
        (start.course (sends hop load news)).frames = start.frames ++ frames ∧
          Handles hop load items news frames (start.course (sends hop load news)) left kept := by
  induction news generalizing start items with
  | nil =>
    refine ⟨orderly, rfl, [], [], items, (List.append_nil _).symm, holds, nofun, .nil, ?_⟩
    intro nextHop
    rw [List.nil_append, List.append_nil]
  | cons first rest ih =>
    have brief := short first List.mem_cons_self
    have proceeds : start.Proceeds (.send (load first) (hop first)) _ _ := fits.proceeds brief
    have gives : ((start.newcomers (.send (load first) (hop first))).map fun newcomer =>
        (newcomer.1.nextHop, newcomer.1.datagram)) =
          [first].map fun item => (hop item, load item) := rfl
    obtain ⟨left, kept, handled⟩ := proceeds.handles orderly holds gives
    obtain ⟨ordered, known, frames, later, last, put, handles⟩ :=
      ih (proceeds.orderly orderly) (fits.send brief) handled.waits
        fun item member => short item (List.mem_cons_of_mem _ member)
    rw [course_sends_cons]
    refine ⟨ordered, known.trans proceeds.known_of_send, _, _, last, ?_,
      handled.trans handles known⟩
    rw [put, proceeds.frames_eq nofun, List.append_assoc]

theorem Orderly.handles_step {start : Interface} (orderly : start.Orderly) (fits : start.Fits)
    {items : List α} (holds : start.Holds hop load items) (op : Op)
    (nothing : ∀ datagram nextHop, op ≠ .send datagram nextHop) :
    (start.next op).Orderly ∧ (start.next op).Fits ∧
      ∃ left kept, Handles hop load items [] (start.putOut op) (start.next op) left kept := by
  obtain ⟨reply, after, stepped⟩ := start.exists_step fits fun datagram nextHop sends =>
    absurd sends (nothing datagram nextHop)
  have proceeds := step_proceeds stepped
  have nobody : start.newcomers op = [] := by
    cases op with
    | send datagram nextHop => exact absurd rfl (nothing datagram nextHop)
    | receive | tick | setPolicy | drain => rfl
  refine ⟨proceeds.orderly orderly, proceeds.fits fits fun datagram nextHop sends =>
    absurd sends (nothing datagram nextHop), proceeds.handles orderly holds ?_⟩
  rw [nobody]
  rfl

theorem handles_nothing {interface : Interface} {items : List α}
    (holds : interface.Holds hop load items) :
    Handles hop load items [] [] interface [] items where
  waits := holds
  readable := nofun
  sends := .nil
  inOrder nextHop := by
    rw [List.nil_append, List.append_nil]

end Sends

end NetStack.Link.Interface
