import NetStack.Proofs.Session.Conveyance

namespace NetStack.Simulation

open Tcp

namespace Pair

section Parts

variable (pair : Pair) (side : Side)

@[simp] theorem connection_withConnection (connection : Connection) :
    (pair.withConnection connection side).connection side = connection := by
  cases side <;> rfl

@[simp] theorem connection_other_withConnection (connection : Connection) :
    (pair.withConnection connection side).connection side.other = pair.connection side.other := by
  cases side <;> rfl

@[simp] theorem link_withConnection (connection : Connection) (other : Side) :
    (pair.withConnection connection side).link other = pair.link other := by
  cases side <;> cases other <;> rfl

@[simp] theorem connection_withLink (link : List Segment) (other : Side) :
    (pair.withLink link side).connection other = pair.connection other := by
  cases side <;> cases other <;> rfl

@[simp] theorem link_withLink (link : List Segment) : (pair.withLink link side).link side = link := by
  cases side <;> rfl

@[simp] theorem link_other_withLink (link : List Segment) :
    (pair.withLink link side).link side.other = pair.link side.other := by
  cases side <;> rfl

theorem connection_hand (segment : Segment) :
    (pair.hand side.other segment).connection side = pair.connection side := by
  cases side <;> rfl

theorem connection_other_hand (segment : Segment) : (pair.hand side.other segment).connection side.other =
    (pair.connection side.other).receive segment := by
  cases side <;> rfl

theorem link_hand (segment : Segment) (other : Side) :
    (pair.hand side segment).link other = pair.link other := by
  cases side <;> cases other <;> rfl

@[simp] theorem connection_collect :
    pair.collect.connection side = { pair.connection side with queue := [] } := by
  cases side <;> rfl

@[simp] theorem link_collect :
    pair.collect.link side = pair.link side ++ (pair.connection side).queue := by
  cases side <;> rfl

end Parts

def start (a b : Setup) : Pair := { a := a.party.connection, b := b.party.connection }

def Delivers (before after : Pair) : Prop :=
  ∃ side index, index < (before.link side).length ∧
    after = (before.step (.befall .deliver side index)).2

/-- The states of two connections over a network that loses, repeats and reorders what is on its
    way. -/
inductive Reachable (a b : Setup) : Pair → Prop
  | start : Reachable a b (.start a b)
  | call {pair : Pair} (reached : Reachable a b pair) (side : Side) (call : Call) :
      Reachable a b (pair.step (.call side call.op)).2
  | deliver {before after : Pair} (reached : Reachable a b before)
      (delivers : before.Delivers after) : Reachable a b after
  | transit {pair : Pair} (reached : Reachable a b pair) {fromA fromB : List Segment}
      (onA : fromA ⊆ pair.fromA) (onB : fromB ⊆ pair.fromB) :
      Reachable a b { pair with fromA, fromB }

theorem collected_eq {connection : Connection} (nothing : connection.queue = []) :
    { connection with queue := [] } = connection := by
  rw [← nothing]

structure Reflects (pair : Pair) (session : Session) : Prop where
  connection : ∀ side, pair.connection side = (session.party side).connection
  link : ∀ side, pair.link side ⊆ (session.party side).sent

variable {a b : Setup} {pair before after : Pair} {session : Session}

theorem Reflects.act (reflects : pair.Reflects session) {rest : Pair} (side : Side)
    (op : Connection.Op) (queues : ∀ side, (pair.connection side).queue = [])
    (same : ∀ side, rest.connection side = pair.connection side)
    (left : ∀ side, rest.link side ⊆ pair.link side) :
    (rest.withConnection ((rest.connection side).step op).2 side).collect.Reflects
      (session.withParty ((session.party side).act op) side) := by
  constructor
  · intro other
    by_cases own : other = side
    · subst own
      rw [connection_collect, connection_withConnection, same, reflects.connection,
        Session.party_withParty]
      rfl
    · rw [Side.eq_other_of_ne own, connection_collect, connection_other_withConnection, same,
        Session.party_other_withParty, ← reflects.connection]
      exact collected_eq (queues side.other)
  · intro other
    have earlier := List.Subset.trans (left other) (reflects.link other)
    by_cases own : other = side
    · subst own
      rw [link_collect, connection_withConnection, link_withConnection, same, reflects.connection,
        Session.party_withParty]
      exact List.append_subset.mpr ⟨List.Subset.trans earlier (List.subset_append_left _ _),
        List.subset_append_right _ _⟩
    · have idle := Side.eq_other_of_ne own
      subst idle
      rw [link_collect, connection_other_withConnection, link_withConnection, same, queues,
        List.append_nil, Session.party_other_withParty]
      exact earlier

theorem queue_collect (pair : Pair) (side : Side) : (pair.collect.connection side).queue = [] := by
  rw [connection_collect]

theorem Delivers.eq_hand (delivers : before.Delivers after) :
    ∃ side index, ∃ inside : index < (before.link side).length,
      after = ((before.withLink ((before.link side).eraseIdx index) side).hand side.other
        (before.link side)[index]).collect := by
  rcases delivers with ⟨side, index, inside, rfl⟩
  refine ⟨side, index, inside, ?_⟩
  simp [step, act, befall, inside]

theorem Delivers.parts (delivers : before.Delivers after)
    (queues : ∀ side, (before.connection side).queue = []) :
    ∃ side index, ∃ inside : index < (before.link side).length,
      let next := (before.connection side.other).receive (before.link side)[index]
      after.connection side = before.connection side ∧
        after.connection side.other = { next with queue := [] } ∧
        after.link side = (before.link side).eraseIdx index ∧
        after.link side.other = before.link side.other ++ next.queue := by
  rcases delivers.eq_hand with ⟨side, index, inside, rfl⟩
  refine ⟨side, index, inside, ?_, ?_, ?_, ?_⟩
  · rw [connection_collect, connection_hand, connection_withLink]
    exact collected_eq (queues side)
  · rw [connection_collect, connection_other_hand, connection_withLink]
  · rw [link_collect, connection_hand, link_hand, connection_withLink, link_withLink, queues,
      List.append_nil]
  · rw [link_collect, connection_other_hand, link_hand, connection_withLink, link_other_withLink]

theorem Reachable.queue (reached : Reachable a b pair) (side : Side) :
    (pair.connection side).queue = [] := by
  induction reached with
  | start => cases side <;> rfl
  | call => exact queue_collect _ side
  | deliver _ delivers =>
    rcases delivers with ⟨_, _, _, rfl⟩
    exact queue_collect _ side
  | transit _ _ _ ih => cases side <;> exact ih

theorem collect_eq (queues : ∀ side, (pair.connection side).queue = []) : pair.collect = pair := by
  have onA : pair.a.queue = [] := queues .a
  have onB : pair.b.queue = [] := queues .b
  unfold collect
  rw [collected_eq onA, collected_eq onB, onA, onB, List.append_nil, List.append_nil]

theorem Reachable.withLink (reached : Reachable a b pair) (side : Side) {link : List Segment}
    (left : link ⊆ pair.link side) : Reachable a b (pair.withLink link side) := by
  cases side with
  | a => exact .transit reached left (List.Subset.refl pair.fromB)
  | b => exact .transit reached (List.Subset.refl pair.fromA) left

theorem Reachable.befall (reached : Reachable a b pair) (fate : Fate) (side : Side) (index : Nat) :
    Reachable a b (pair.step (.befall fate side index)).2 := by
  by_cases inside : index < (pair.link side).length
  · have member := List.getElem_mem inside
    have found := List.getElem?_eq_getElem inside
    generalize (pair.link side)[index] = segment at member found
    cases fate with
    | deliver => exact .deliver reached ⟨side, index, inside, rfl⟩
    | duplicate =>
      -- a copy arrives
      have copied := reached.withLink side (List.cons_subset.mpr ⟨member, List.Subset.refl _⟩)
      apply Reachable.deliver copied
      refine ⟨side, 0, by simp, ?_⟩
      simp only [step, act, Pair.befall, found, link_withLink, List.getElem?_cons_zero,
        List.eraseIdx_cons_zero]
      cases side <;> rfl
    | lose =>
      have left := reached.withLink side (List.eraseIdx_sublist (pair.link side) index).subset
      have same : (pair.step (.befall .lose side index)).2 =
          (pair.withLink ((pair.link side).eraseIdx index) side).collect := by
        simp only [step, act, Pair.befall, found]
      rw [same, collect_eq left.queue]
      exact left
  · have same : (pair.step (.befall fate side index)).2 = pair.collect := by
      simp [step, act, Pair.befall, inside]
    rw [same, collect_eq reached.queue]
    exact reached

theorem Reachable.tick (reached : Reachable a b pair) (span : Duration) :
    Reachable a b (pair.step (.tick span)).2 := by
  have empty : pair.b.queue = [] := reached.queue .b
  have same : { pair.b with queue := [] } = pair.b := collected_eq empty
  have both : (pair.step (.tick span)).2 =
      ((pair.step (.call .a (.tick span))).2.step (.call .b (.tick span))).2 := by
    simp only [step, act, Pair.tick, Connection.step, connection, withConnection, collect, same, empty,
      List.append_nil]
  rw [both]
  exact (reached.call .a (.tick span)).call .b (.tick span)

/-- What happens from outside, one thing at a time. -/
def Op.Single : Op → Prop
  | .call _ op => ∃ call : Call, op = call.op
  | .befall _ _ _ | .tick _ => True
  | .pump => False

theorem run_reachable {ops : List Op} (single : ∀ op ∈ ops, op.Single) :
    Reachable a b ((start a b).run ops) := by
  induction ops using List.reverseRecOn with
  | nil => exact .start
  | append_singleton front op ih =>
    have reached := ih fun earlier member => single earlier (List.mem_append_left _ member)
    have last := single op (List.mem_append_right _ List.mem_cons_self)
    unfold run at reached ⊢
    rw [List.foldl_append]
    cases op with
    | call side op =>
      rcases last with ⟨call, rfl⟩
      exact reached.call side call
    | befall fate side index => exact reached.befall fate side index
    | tick span => exact reached.tick span
    | pump => exact last.elim

theorem Reachable.reflects (reached : Reachable a b pair) :
    ∃ events, pair.Reflects ((Session.start a b).run events) := by
  induction reached with
  | start =>
    refine ⟨[], fun side => ?_, fun side => ?_⟩
    · cases side <;> rfl
    · cases side <;> exact List.nil_subset _
  | @call pair reached side call ih =>
    rcases ih with ⟨events, reflects⟩
    refine ⟨events ++ [.call side call], ?_⟩
    rw [Session.run_append]
    exact reflects.act side call.op reached.queue (fun _ => rfl) fun _ => List.Subset.refl _
  | @deliver before after reached delivers ih =>
    rcases ih with ⟨events, reflects⟩
    rcases delivers.eq_hand with ⟨side, index, inside, rfl⟩
    rcases List.mem_iff_getElem?.mp (reflects.link side (List.getElem_mem inside)) with
      ⟨place, found⟩
    refine ⟨events ++ [.deliver side place], ?_⟩
    have stepped : ((Session.start a b).run events).step (.deliver side place) =
        ((Session.start a b).run events).withParty
          ((((Session.start a b).run events).party side.other).act
            (.receive (before.link side)[index])) side.other := by
      simp only [Session.step, found]
    rw [Session.run_append, show (((Session.start a b).run events).run [.deliver side place]) = _
      from stepped]
    apply reflects.act side.other (.receive (before.link side)[index]) reached.queue
    · exact connection_withLink _ _ _
    · intro other
      by_cases own : other = side
      · subst own
        rw [link_withLink]
        exact (List.eraseIdx_sublist _ _).subset
      · rw [Side.eq_other_of_ne own, link_other_withLink]
        exact List.Subset.refl _
  | transit _ onA onB ih =>
    rcases ih with ⟨events, reflects⟩
    refine ⟨events, fun side => ?_, fun side => ?_⟩
    · rw [← reflects.connection]
      cases side <;> rfl
    · cases side with
      | a => exact List.Subset.trans onA (reflects.link .a)
      | b => exact List.Subset.trans onB (reflects.link .b)

end Pair

end NetStack.Simulation
