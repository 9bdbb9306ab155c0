import Mathlib.Data.List.Infix
import NetStack.Proofs.Tcp.Numbering
import NetStack.Tcp.Receiver

namespace NetStack.Tcp.Receiver

/-- What happens to a receiver: a segment arrives that stands at a position of its peer's stream, or
    the output is used. -/
inductive Event where
  | arrival (position : Nat) (segment : Segment)
  | output (op : ByteStream.Op)
  deriving DecidableEq

namespace Event

def op : Event → Op
  | arrival _ segment => .receive segment
  | output op => .output op

def isSyn : Event → Bool
  | arrival _ segment => segment.flags.syn
  | output _ => false

/-- The segment carries the number of its position, and the SYN is the one at position zero. -/
def Proper (isn : SeqNo) : Event → Prop
  | arrival position segment => position < SeqNo.positionLimit ∧
      segment.seqno = .ofPosition position isn ∧ (segment.flags.syn = true ↔ position = 0)
  | output _ => True

instance (isn : SeqNo) : DecidablePred (Proper isn)
  | arrival position segment => inferInstanceAs (Decidable (position < SeqNo.positionLimit ∧
      segment.seqno = .ofPosition position isn ∧ (segment.flags.syn = true ↔ position = 0)))
  | output _ => inferInstanceAs (Decidable True)

/-- The same to a reassembler that is told the index at which the payload stands: behind the
    position of the SYN, or at the very beginning. -/
def told : Event → Reassembler.Op
  | arrival position segment => .insert segment.payload (position - 1) segment.flags.fin
  | output op => .output op

/-- What the reassembler is told of all events: nothing of what arrives before the SYN. -/
def toldSinceSyn : List Event → List Reassembler.Op
  | [] => []
  | arrival position segment :: rest =>
    if segment.flags.syn then (arrival position segment :: rest).map told else toldSinceSyn rest
  | output op :: rest => .output op :: toldSinceSyn rest

end Event

/-- The position is less than half a turn away from the first one that is not assembled. -/
def Reaches (r : Receiver) (position : Nat) : Prop :=
  r.stream.totalWritten + 1 < position + 0x80000000 ∧
    position < r.stream.totalWritten + 1 + 0x80000000

instance (r : Receiver) (position : Nat) : Decidable (r.Reaches position) :=
  inferInstanceAs (Decidable (_ ∧ _))

def ReachesAll (r : Receiver) : List Event → Prop
  | [] => True
  | .arrival position segment :: rest => r.Reaches position ∧ (r.receive segment).ReachesAll rest
  | .output op :: rest => (r.step (.output op)).2.ReachesAll rest

instance decidableReachesAll (r : Receiver) : DecidablePred r.ReachesAll
  | [] => inferInstanceAs (Decidable True)
  | .arrival position segment :: rest =>
    have := decidableReachesAll (r.receive segment) rest
    inferInstanceAs (Decidable (r.Reaches position ∧ (r.receive segment).ReachesAll rest))
  | .output op :: rest => decidableReachesAll (r.step (.output op)).2 rest

variable {r : Receiver} {isn : SeqNo}

theorem ReachesAll.isPrefix {events passed : List Event} (reaches : r.ReachesAll events)
    (front : passed <+: events) : r.ReachesAll passed := by
  induction passed generalizing r events with
  | nil => trivial
  | cons event passed ih =>
    obtain ⟨rest, rfl⟩ := front
    cases event with
    | arrival position segment => exact ⟨reaches.1, ih reaches.2 (List.prefix_append _ _)⟩
    | output op => exact ih (r := (r.step (.output op)).2) reaches (List.prefix_append _ _)

theorem accept_placed {position : Nat} {segment : Segment} (reaches : r.Reaches position)
    (proper : (Event.arrival position segment).Proper isn) :
    r.accept isn segment =
      ⟨r.reassembler.insert segment.payload (position - 1) segment.flags.fin, some isn⟩ := by
  obtain ⟨bound, seqno, syn⟩ := proper
  have place : segment.seqno.positionNear isn (r.stream.totalWritten + 1) = position := by
    rw [seqno]
    exact SeqNo.positionNear_ofPosition isn (Nat.le_of_lt reaches.1) reaches.2 bound
  unfold accept
  dsimp only
  rw [place]
  by_cases first : position = 0
  · have marked := syn.mpr first
    rw [if_neg (by simp [marked]), marked, first]
    rfl
  · have unmarked : segment.flags.syn = false := eq_false_of_ne_true (mt syn.mp first)
    rw [if_neg (by simp [first]), unmarked]
    rfl

theorem receive_unsynced {segment : Segment} (unsynced : r.isn = none)
    (noSyn : segment.flags.syn = false) : r.receive segment = r := by
  unfold receive
  rw [unsynced]
  simp [noSyn]

theorem receive_synced {position : Nat} {segment : Segment} (reaches : r.Reaches position)
    (proper : (Event.arrival position segment).Proper isn)
    (opened : r.isn = some isn ∨ r.isn = none ∧ segment.flags.syn = true) :
    r.receive segment =
      ⟨r.reassembler.insert segment.payload (position - 1) segment.flags.fin, some isn⟩ := by
  have accepted := accept_placed reaches proper
  unfold receive
  rcases opened with synced | ⟨unsynced, syn⟩
  · rw [synced]
    exact accepted
  · have start : position = 0 := proper.2.2.mp syn
    have own : segment.seqno = isn := by
      rw [proper.2.1, start]
      simp [SeqNo.ofPosition, SeqNo.advance]
    rw [unsynced, syn, if_pos rfl, own]
    exact accepted

theorem run_synced {events : List Event} (synced : r.isn = some isn)
    (proper : ∀ event ∈ events, event.Proper isn) (reaches : r.ReachesAll events) :
    (r.run (events.map Event.op)).reassembler = r.reassembler.run (events.map Event.told) := by
  induction events generalizing r with
  | nil => rfl
  | cons event rest ih =>
    obtain ⟨first, others⟩ := List.forall_mem_cons.mp proper
    cases event with
    | arrival position segment =>
      have taken := receive_synced reaches.1 first (.inl synced)
      have later := ih (r := r.receive segment) (by rw [taken]) others reaches.2
      rw [taken] at later
      show ((r.receive segment).run (rest.map Event.op)).reassembler = _
      rw [taken, later]
      rfl
    | output op => exact ih (r := (r.step (.output op)).2) synced others reaches

theorem run_unsynced {events : List Event} (unsynced : r.isn = none)
    (proper : ∀ event ∈ events, event.Proper isn) (reaches : r.ReachesAll events) :
    (r.run (events.map Event.op)).reassembler =
      r.reassembler.run (Event.toldSinceSyn events) := by
  induction events generalizing r with
  | nil => rfl
  | cons event rest ih =>
    obtain ⟨first, others⟩ := List.forall_mem_cons.mp proper
    cases event with
    | arrival position segment =>
      show ((r.receive segment).run (rest.map Event.op)).reassembler = _
      unfold Event.toldSinceSyn
      cases syn : segment.flags.syn with
      | true =>
        have taken := receive_synced reaches.1 first (.inr ⟨unsynced, syn⟩)
        have later := run_synced (r := r.receive segment) (by rw [taken]) others reaches.2
        rw [taken] at later ⊢
        rw [later]
        rfl
      | false =>
        have ignored := receive_unsynced unsynced syn
        rw [ignored]
        have kept := reaches.2
        rw [ignored] at kept
        exact ih unsynced others kept
    | output op => exact ih (r := (r.step (.output op)).2) unsynced others reaches

theorem isn_run_of_noSyn {events : List Event} (unsynced : r.isn = none)
    (noSyn : ∀ event ∈ events, event.isSyn = false) : (r.run (events.map Event.op)).isn = none := by
  induction events generalizing r with
  | nil => exact unsynced
  | cons event rest ih =>
    obtain ⟨first, others⟩ := List.forall_mem_cons.mp noSyn
    cases event with
    | arrival position segment =>
      show ((r.receive segment).run (rest.map Event.op)).isn = none
      rw [receive_unsynced unsynced first]
      exact ih unsynced others
    | output op => exact ih (r := (r.step (.output op)).2) unsynced others

/-- What arrives before the SYN changes nothing, and from then on the receiver holds at every step
    what a reassembler holds that is told the true index of all payloads, whatever they are. -/
theorem reassembler_run_told (storage : Array UInt8) (isn : SeqNo) (events : List Event)
    (proper : ∀ event ∈ events, event.Proper isn)
    (reaches : (ofStream (.ofStorage storage)).ReachesAll events) :
    let start := ofStream (.ofStorage storage)
    (∀ passed position segment, passed ++ [.arrival position segment] <+: events →
      (∀ event ∈ passed, event.isSyn = false) → segment.flags.syn = false →
      start.run ((passed ++ [.arrival position segment]).map Event.op) =
        start.run (passed.map Event.op)) ∧
    ∀ passed, passed <+: events → (start.run (passed.map Event.op)).reassembler =
      (Reassembler.ofStream (.ofStorage storage)).run (Event.toldSinceSyn passed) := by
  intro start
  constructor
  · intro passed position segment _ early noSyn
    have unsynced := isn_run_of_noSyn (r := start) rfl early
    rw [List.map_append, run, List.foldl_append]
    exact receive_unsynced unsynced noSyn
  · intro passed front
    exact run_unsynced rfl (fun event member => proper event (front.subset member))
      (reaches.isPrefix front)

/-- The numbers go round within the stream, whose parts arrive out of order, early, and twice. -/
def crossing : List Event :=
  [.arrival 3 { seqno := ⟨1⟩, payload := [3, 4] },
    .arrival 0 { seqno := ⟨0xfffffffe⟩, flags := { syn := true }, payload := [1] },
    .arrival 3 { seqno := ⟨1⟩, payload := [3, 4] },
    .output (.read 1),
    .arrival 2 { seqno := ⟨0⟩, payload := [2, 3] },
    .arrival 5 { seqno := ⟨3⟩, flags := { fin := true }, payload := [5] },
    .arrival 0 { seqno := ⟨0xfffffffe⟩, flags := { syn := true }, payload := [1] }]

theorem reassembler_run_told_crossing :
    let start := ofStream (.ofStorage (Array.replicate 4 0))
    (∀ event ∈ crossing, event.Proper ⟨0xfffffffe⟩) ∧ start.ReachesAll crossing ∧
      start.run ((crossing.take 1).map Event.op) = start ∧
      (start.run (crossing.map Event.op)).reassembler =
        (Reassembler.ofStream (.ofStorage (Array.replicate 4 0))).run
          [.insert [1] 0 false, .insert [3, 4] 2 false, .output (.read 1), .insert [2, 3] 1 false,
            .insert [5] 4 true, .insert [1] 0 false] := by
  intro start
  have proper : ∀ event ∈ crossing, event.Proper ⟨0xfffffffe⟩ := by decide +kernel
  have reaches : start.ReachesAll crossing := by decide +kernel
  obtain ⟨ignored, same⟩ :=
    reassembler_run_told (Array.replicate 4 0) ⟨0xfffffffe⟩ crossing proper reaches
  refine ⟨proper, reaches, ?_, same crossing List.prefix_rfl⟩
  exact ignored [] 3 { seqno := ⟨1⟩, payload := [3, 4] } (List.take_prefix 1 crossing) (by simp) rfl

end NetStack.Tcp.Receiver
