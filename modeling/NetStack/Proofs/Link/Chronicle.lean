import NetStack.Proofs.Link.Custody

namespace NetStack.Link

inductive Event where
  | heard (time : Instant) (message : Arp.Message)
  | asked (time : Instant) (address : Ipv4.Address)
  deriving DecidableEq

namespace Event

def time : Event → Instant
  | heard time _ => time
  | asked time _ => time

def sender? : Event → Option Ipv4.Address
  | heard _ message => some message.senderAddress
  | asked _ _ => none

end Event

/-- The event is among some events, and nothing has been heard from the address after it. -/
def SilentSince (events : List Event) (event : Event) (address : Ipv4.Address) : Prop :=
  ∃ earlier later, events = earlier ++ event :: later ∧
    ∀ other ∈ later, other.sender? ≠ some address

theorem not_silentSince_nil (event : Event) (address : Ipv4.Address) :
    ¬ SilentSince [] event address := by
  rintro ⟨earlier, later, split, _⟩
  simp at split

section SilentSince

variable {events : List Event} {last event : Event} {address : Ipv4.Address}

theorem SilentSince.mem (since : SilentSince events event address) : event ∈ events := by
  obtain ⟨earlier, later, rfl, _⟩ := since
  simp

theorem append_singleton_eq_append_cons_iff {earlier later : List Event} :
    events ++ [last] = earlier ++ event :: later ↔
      (later = [] ∧ events = earlier ∧ event = last) ∨
        ∃ between, later = between ++ [last] ∧ events = earlier ++ event :: between := by
  constructor
  · intro split
    rcases List.eq_nil_or_concat later with rfl | ⟨between, final, rfl⟩
    · obtain ⟨before, same⟩ := List.append_inj' split rfl
      cases same
      exact .inl ⟨rfl, before, rfl⟩
    · rw [List.concat_eq_append, ← List.cons_append, ← List.append_assoc] at split
      obtain ⟨before, same⟩ := List.append_inj' split rfl
      cases same
      exact .inr ⟨between, List.concat_eq_append .., before⟩
  · rintro (⟨rfl, rfl, rfl⟩ | ⟨between, rfl, rfl⟩)
    · rfl
    · simp

theorem silentSince_append_singleton : SilentSince (events ++ [last]) event address ↔
    event = last ∨ SilentSince events event address ∧ last.sender? ≠ some address := by
  constructor
  · rintro ⟨earlier, later, split, silent⟩
    rcases append_singleton_eq_append_cons_iff.mp split with ⟨_, _, same⟩ | ⟨between, rfl, before⟩
    · exact .inl same
    · refine .inr ⟨⟨earlier, between, before, fun other member => silent other ?_⟩, silent last ?_⟩
      · exact List.mem_append_left _ member
      · exact List.mem_append_right _ List.mem_cons_self
  · rintro (rfl | ⟨⟨earlier, later, rfl, silent⟩, quiet⟩)
    · exact ⟨events, [], rfl, nofun⟩
    · refine ⟨earlier, later ++ [last], by simp, fun other member => ?_⟩
      rcases List.mem_append.mp member with before | now
      · exact silent other before
      · rw [List.mem_singleton.mp now]
        exact quiet

end SilentSince

namespace Interface

variable {before after : Interface} {op : Op} {frames : List Bytes}

def message? (interface : Interface) : Op → Option Arp.Message
  | .receive bytes => interface.heeds? bytes
  | _ => none

/-- What an operation that puts out some frames adds to the chronicle. -/
def events (interface : Interface) (op : Op) (frames : List Bytes) : List Event :=
  (interface.message? op).toList.map (.heard interface.now) ++
    (Packet.questionsIn frames).map (.asked interface.now)

def chronicle (start : Interface) : List Op → List Event
  | [] => []
  | op :: rest => start.events op (start.putOut op) ++ (start.next op).chronicle rest

theorem chronicle_append (start : Interface) (front back : List Op) :
    start.chronicle (front ++ back) =
      start.chronicle front ++ (start.course front).chronicle back := by
  induction front generalizing start with
  | nil => rfl
  | cons op rest ih =>
    rw [List.cons_append, chronicle, ih, chronicle, List.append_assoc]
    rfl

theorem chronicle_last (start : Interface) (ops : List Op) (op : Op) :
    start.chronicle (ops ++ [op]) =
      start.chronicle ops ++ (start.course ops).events op ((start.course ops).putOut op) := by
  rw [chronicle_append, chronicle, chronicle, List.append_nil]

end Interface

namespace NeighborCache

inductive Observes (before : NeighborCache) (now : Instant) :
    List Event → NeighborCache → Instant → Prop where
  | nothing : Observes before now [] before now
  | asked {address : Ipv4.Address} (unknown : before.hardwareOf? address now = none)
      (unasked : before.isSilent address now = false) :
      Observes before now [.asked now address] (before.noteAsked address now) now
  | heard (message : Arp.Message) :
      Observes before now [.heard now message]
        (before.fill message.senderAddress message.senderHardware now) now
  | passed {later : Instant} (le : now ≤ later) : Observes before now [] (before.expire later) later

variable {before after : NeighborCache} {now later : Instant} {events new : List Event}

theorem Observes.now_le (observes : before.Observes now new after later) : now ≤ later := by
  cases observes with
  | nothing | asked | heard => exact Nat.le_refl _
  | passed le => exact le

theorem Observes.past (observes : before.Observes now new after later)
    (past : ∀ event ∈ events, event.time ≤ now) : ∀ event ∈ events ++ new, event.time ≤ later := by
  intro event member
  rcases List.mem_append.mp member with old | recent
  · exact Nat.le_trans (past event old) observes.now_le
  · cases observes with
    | nothing | passed => cases recent
    | asked | heard =>
      rw [List.mem_singleton.mp recent]
      exact Nat.le_refl _

end NeighborCache

namespace Interface

variable {before after : Interface} {op : Op} {frames : List Bytes}

theorem questionsIn_answers {message : Arp.Message}
    (reads : frames.map Packet.read? = (before.answers message).map some) :
    Packet.questionsIn frames = [] := by
  unfold Packet.questionsIn
  rw [Packet.filterMap_read? reads, List.filterMap_eq_nil_iff]
  intro sent member
  rcases List.mem_append.mp member with released | answer
  · obtain ⟨waiting, _, rfl⟩ := List.mem_map.mp released
    rfl
  · split at answer
    · cases List.mem_singleton.mp answer
      rfl
    · cases answer

theorem events_of_heeds {bytes : Bytes} {message : Arp.Message}
    (heeds : before.heeds? bytes = some message) (silent : Packet.questionsIn frames = []) :
    before.events (.receive bytes) frames = [.heard before.now message] := by
  unfold events message?
  simp only [heeds, silent]
  rfl

theorem events_of_ignores {bytes : Bytes} (ignores : before.heeds? bytes = none) :
    before.events (.receive bytes) [] = [] := by
  unfold events message?
  simp only [ignores]
  rfl

theorem Proceeds.observes (proceeds : before.Proceeds op frames after) :
    before.neighbors.Observes before.now (before.events op frames) after.neighbors after.now := by
  cases proceeds with
  | sent _ reads =>
    unfold events
    rw [Packet.questionsIn_singleton reads]
    exact .nothing
  | asked unknown unasked reads =>
    unfold events
    rw [Packet.questionsIn_singleton reads, neighbors_enqueue, now_enqueue]
    exact .asked unknown unasked
  | held =>
    rw [neighbors_enqueue, now_enqueue]
    exact .nothing
  | heard heeds reads =>
    rw [events_of_heeds heeds (questionsIn_answers reads)]
    exact .heard _
  | ignored ignores =>
    rw [events_of_ignores ignores]
    exact .nothing
  | tick span => exact .passed (Proceeds.tick span).now_le
  | setPolicy => exact .nothing
  | drain => exact .nothing

end Interface

end NetStack.Link
