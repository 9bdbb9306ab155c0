import Mathlib.Algebra.GroupWithZero.Nat
import Mathlib.Data.List.Perm.Basic
import Mathlib.Algebra.BigOperators.Group.List.Basic
import NetStack.Proofs.Session.Reachability
import NetStack.Proofs.Tcp.Replies

namespace NetStack

namespace Tcp

variable {s : Sender} {accepted : Bytes}

theorem Sender.Faithful.length_eq (faithful : s.Faithful accepted) :
    accepted.length = s.stream.totalWritten := by
  have read := faithful.read_le
  have waits := congrArg List.length faithful.buffered
  rw [List.length_drop] at waits
  rw [← s.stream.totalRead_add_length]
  omega

end Tcp

namespace Simulation

open Tcp

/-- A segment at the end of what one side has sent is not one that the other side answers. -/
theorem Party.Conveys.not_asksForAnswer {p q : Party} (conveys : p.Conveys q)
    (short : p.accepted.length < 0x80000000 - 2) {segment : Segment}
    (last : segment.seqno = p.connection.sender.nextSeqno) :
    q.connection.asksForAnswer segment = false := by
  by_contra asks
  have asks := eq_true_of_ne_false asks
  simp only [Connection.asksForAnswer, Receiver.ackno?, Bool.and_eq_true, beq_iff_eq,
    Option.map_eq_some_iff] at asks
  rcases asks with ⟨_, isn, synced, same⟩
  rcases conveys.follows.synced isn synced with ⟨rfl, opened⟩
  have bound := conveys.follows.ackPosition_le
  have sent := conveys.faithful.transcript_length
  have all := conveys.faithful.next_le
  change p.transcript.length = _ at sent
  unfold Transcript.length at sent
  rw [opened, Bool.toNat_true] at sent
  rw [last] at same
  have number := congrArg (fun s => s.value.toNat) same
  have following : (p.connection.sender.nextSeqno.advance 1).value.toNat =
      (p.transcript.isn.value.toNat + p.connection.sender.next + 1) % SeqNo.modulus := by
    have standing := SeqNo.ofPosition_toNat p.connection.sender.next p.transcript.isn
    change p.connection.sender.nextSeqno.value.toNat = _ at standing
    unfold SeqNo.advance
    simp only [UInt32.toNat_add, standing, SeqNo.modulus, UInt32.toNat_one]
    omega
  simp only [following, SeqNo.ofPosition_toNat, SeqNo.modulus] at number
  omega

namespace Pair

variable {a b : Setup} {pair before after : Pair}

def Short (pair : Pair) : Prop :=
  ∀ side, (pair.connection side).outbound.totalWritten < 0x80000000 - 2

theorem faithful_run (events : List Session.Event) (side : Side) :
    let party := ((Session.start a b).run events).party side
    party.Ready ∧ party.connection.sender.Faithful party.accepted := by
  apply Session.run_induction (P := fun session => (session.party side).Ready ∧
    (session.party side).connection.sender.Faithful (session.party side).accepted)
  · have begins := (Session.conveys_start a b) side
    exact ⟨begins.ready, begins.faithful⟩
  · intro session event soFar
    rcases session.step_party event side with same | ⟨op, acted, _⟩
    · rw [same]
      exact soFar
    · rw [acted]
      exact ⟨Party.act_ready soFar.1 op, Party.act_faithful soFar.1 soFar.2 op⟩

structure Orderly (pair : Pair) : Prop where
  ready : ∀ side, (pair.connection side).sender.queue = []
  queue : ∀ side, (pair.connection side).queue = []
  next_le : ∀ side, (pair.connection side).sender.next ≤ (pair.connection side).sender.endPosition
  quiet : ∀ side segment, segment.seqno = (pair.connection side).sender.nextSeqno →
    (pair.connection side.other).asksForAnswer segment = false

theorem Reachable.orderly (reached : Reachable a b pair) (short : pair.Short) : pair.Orderly := by
  rcases reached.reflects with ⟨events, reflects⟩
  have accepted (side : Side) : (((Session.start a b).run events).party side).accepted.length =
      (pair.connection side).outbound.totalWritten := by
    rw [(faithful_run events side).2.length_eq, reflects.connection]
    rfl
  have within : ((Session.start a b).run events).Short := by
    intro side
    rw [accepted]
    exact short side
  have conveys := (Session.conveys_start a b).run within
  constructor
  · intro side
    rw [reflects.connection]
    exact (conveys side).ready.sender
  · exact reached.queue
  · intro side
    have bound := (conveys side).faithful.next_le
    rw [accepted, ← reflects.connection] at bound
    exact bound
  · intro side segment last
    rw [reflects.connection] at last ⊢
    exact (conveys side).not_asksForAnswer (within side) last

def weight (s : Sender) (segment : Segment) : Nat :=
  if segment.space = 0 ∧ segment.seqno = s.nextSeqno then 1 else 2

def unsent (pair : Pair) (side : Side) : Nat :=
  (pair.connection side).sender.endPosition - (pair.connection side).sender.next

def load (pair : Pair) (side : Side) : Nat :=
  ((pair.link side).map (weight (pair.connection side).sender)).sum

/-- What both sides have yet to send, and what is on its way. -/
def rank (pair : Pair) : Nat × Nat :=
  (pair.unsent .a + pair.unsent .b, pair.load .a + pair.load .b)

theorem rank_eq (pair : Pair) (side : Side) : pair.rank =
    (pair.unsent side + pair.unsent side.other, pair.load side + pair.load side.other) := by
  cases side with
  | a => rfl
  | b =>
    show (_, _) = (_, _)
    rw [Nat.add_comm (pair.unsent .a), Nat.add_comm (pair.load .a)]
    rfl

theorem sum_eraseIdx_weight (s : Sender) {segments : List Segment} {index : Nat}
    (inside : index < segments.length) :
    weight s segments[index] + ((segments.eraseIdx index).map (weight s)).sum =
      (segments.map (weight s)).sum := by
  have same := (List.getElem_cons_eraseIdx_perm inside).map (weight s)
  rw [← same.sum_eq, List.map_cons, List.sum_cons]

theorem weight_pos (s : Sender) (segment : Segment) : 0 < weight s segment := by
  unfold weight
  split <;> omega

theorem weight_congr {s t : Sender} (same : s.nextSeqno = t.nextSeqno) : weight s = weight t := by
  funext segment
  unfold weight
  rw [same]

/-- A delivery lets out something new, or takes more off the network than it puts on it. -/
theorem Delivers.rank_lt (orderly : before.Orderly) (later : after.Orderly)
    (delivers : before.Delivers after) : Prod.Lex (· < ·) (· < ·) after.rank before.rank := by
  rcases delivers.parts orderly.queue with ⟨side, index, inside, talker, listener, left, added⟩
  have taken := sum_eraseIdx_weight (before.connection side).sender inside
  have counted := weight_pos (before.connection side).sender (before.link side)[index]
  have asks := later.quiet side (before.link side)[index]
  have bound := later.next_le side.other
  have kept := (before.connection side.other).receive_keeps (before.link side)[index]
  have replies := Connection.receive_replies (orderly.ready side.other) (before.link side)[index]
  have empty := orderly.queue side.other
  rw [rank_eq after side, rank_eq before side]
  unfold unsent load
  rw [talker, listener] at asks
  rw [listener] at bound
  rw [talker, listener, left, added, List.map_append, List.sum_append]
  generalize (before.connection side.other).receive (before.link side)[index] = next at *
  dsimp only at asks bound ⊢
  rw [kept.2] at bound ⊢
  have unmoved (same : next.sender.next = (before.connection side.other).sender.next) :
      weight next.sender = weight (before.connection side.other).sender := by
    apply weight_congr
    unfold Sender.nextSeqno
    rw [same, kept.1]
  cases replies with
  | more further =>
    apply Prod.Lex.left
    omega
  | silent same queue =>
    rw [empty, List.suffix_nil] at queue
    rw [unmoved same, same, queue, List.map_nil, List.sum_nil]
    apply Prod.Lex.right
    omega
  | bare same due queue =>
    have half : weight (before.connection side.other).sender
        (next.stamp { seqno := (before.connection side.other).sender.nextSeqno }) = 1 := by
      simp [weight, Segment.space, Flags.none]
    have full : weight (before.connection side).sender (before.link side)[index] = 2 := by
      apply if_neg
      rintro ⟨bare, last⟩
      rcases due with occupies | asked
      · omega
      · have silent : next.asksForAnswer (before.link side)[index] = false := asks last
        simp [silent] at asked
    rw [empty, List.nil_append] at queue
    rw [unmoved same, same, queue, List.map_singleton, List.sum_singleton, half]
    apply Prod.Lex.right
    omega

theorem Delivers.short (delivers : before.Delivers after)
    (queues : ∀ side, (before.connection side).queue = []) (short : before.Short) : after.Short := by
  rcases delivers.parts queues with ⟨side, index, _, talker, listener, _, _⟩
  intro other
  by_cases own : other = side
  · rw [own, talker]
    exact short side
  · have kept := (before.connection side.other).receive_keeps (before.link side)[index]
    have bound := short side.other
    rw [Side.eq_other_of_ne own, listener]
    unfold Sender.endPosition at kept
    unfold Connection.outbound at bound ⊢
    dsimp only
    omega

theorem Reachable.acc (reached : Reachable a b pair) (short : pair.Short) :
    Acc (fun after before => Delivers before after) pair := by
  have measured := (Prod.lex ⟨(· < ·), Nat.lt_wfRel.wf⟩ ⟨(· < ·), Nat.lt_wfRel.wf⟩).wf
  generalize place : pair.rank = rank
  induction rank using measured.induction generalizing pair with
  | _ rank ih =>
    constructor
    intro after delivers
    have later := Reachable.deliver reached delivers
    have still := delivers.short reached.queue short
    apply ih after.rank ?_ later still rfl
    rw [← place]
    exact delivers.rank_lt (reached.orderly short) (later.orderly still)

theorem exists_delivers (busy : pair.isQuiet = false) : ∃ after, pair.Delivers after := by
  have waits : ∃ side, 0 < (pair.link side).length := by
    by_contra idle
    have empty (side : Side) : pair.link side = [] := by
      apply List.length_eq_zero_iff.mp
      by_contra some_left
      exact idle ⟨side, by omega⟩
    have quiet : pair.isQuiet = true := by
      unfold isQuiet
      rw [show pair.fromA = [] from empty .a, show pair.fromB = [] from empty .b]
      rfl
    simp [quiet] at busy
  rcases waits with ⟨side, inside⟩
  exact ⟨_, side, 0, inside, rfl⟩

theorem exists_quiet (settles : Acc (fun after before => Delivers before after) pair) :
    ∃ last, Relation.ReflTransGen Delivers pair last ∧ last.isQuiet = true := by
  induction settles with
  | intro pair _ ih =>
    by_cases quiet : pair.isQuiet = true
    · exact ⟨pair, .refl, quiet⟩
    · rcases exists_delivers (eq_false_of_ne_true quiet) with ⟨after, delivers⟩
      rcases ih after delivers with ⟨last, deliveries, quiet⟩
      exact ⟨last, .head delivers deliveries, quiet⟩

theorem exists_not_delivers (settles : Acc (fun after before => Delivers before after) pair)
    (states : Nat → Pair) (start : states 0 = pair) :
    ∃ n, ¬ (states n).Delivers (states (n + 1)) := by
  induction settles generalizing states with
  | intro pair _ ih =>
    by_cases first : pair.Delivers (states 1)
    · rcases ih (states 1) first (fun n => states (n + 1)) rfl with ⟨n, stops⟩
      exact ⟨n + 1, stops⟩
    · rw [← start] at first
      exact ⟨0, first⟩

/-- Wherever two connections have got to: if segments only arrive from there on, in whatever order,
    there is an end to it, and at the end nothing is on its way. -/
theorem deliveries_end (a b : Setup) (pair : Pair) (reached : Reachable a b pair)
    (short : pair.Short) :
    (∀ states : Nat → Pair, states 0 = pair → ∃ n, ¬ (states n).Delivers (states (n + 1))) ∧
    ∀ later, Relation.ReflTransGen Delivers pair later →
      ∃ last, Relation.ReflTransGen Delivers later last ∧ last.isQuiet = true := by
  have settles := reached.acc short
  constructor
  · exact exists_not_delivers settles
  · intro later deliveries
    apply exists_quiet
    induction deliveries with
    | refl => exact settles
    | tail _ delivers ih => exact ih.inv delivers

def crossing : List Op :=
  [.call .a .connect, .befall .duplicate .a 0, .befall .deliver .b 0, .call .a (.write [7]),
    .befall .deliver .a 1, .call .b (.write [8])]

theorem deliveries_end_crossing :
    let setup := Setup.ofConfig { receiveCapacity := 4, sendCapacity := 4, isn := some ⟨0⟩ }
    let pair := (start setup setup).run crossing
    pair.fromA.length = 2 ∧ pair.fromB.length = 1 ∧
      ∃ last, Relation.ReflTransGen Delivers pair last ∧ last.isQuiet = true := by
  intro setup pair
  have reached : Reachable setup setup pair := by
    apply run_reachable
    intro op member
    simp only [crossing, List.mem_cons, List.not_mem_nil, or_false] at member
    rcases member with rfl | rfl | rfl | rfl | rfl | rfl
    · exact ⟨.connect, rfl⟩
    · trivial
    · trivial
    · exact ⟨.write [7], rfl⟩
    · trivial
    · exact ⟨.write [8], rfl⟩
  have short : pair.Short := by
    intro side
    cases side <;> decide +kernel
  have ends := (deliveries_end setup setup pair reached short).2 pair .refl
  exact ⟨by decide +kernel, by decide +kernel, ends⟩

end Pair

end Simulation

end NetStack
