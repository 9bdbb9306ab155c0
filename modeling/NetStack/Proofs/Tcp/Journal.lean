import Mathlib.Data.List.Basic
import NetStack.Proofs.Tcp.Flow
import NetStack.Proofs.Tcp.Soundness

namespace NetStack.Tcp

theorem Receiver.isn_receive (r : Receiver) (segment : Segment) :
    (r.receive segment).isn.isSome = true ↔ r.isn.isSome = true ∨ segment.flags.syn = true := by
  have accepts (isn : SeqNo) : (r.accept isn segment).isn = some isn := by
    unfold accept
    dsimp only
    split <;> rfl
  unfold receive
  cases known : r.isn with
  | some isn => simp [accepts]
  | none => cases syn : segment.flags.syn <;> simp [accepts, known]

namespace Connection

section Gather

variable {α : Type} (observe : Connection → Op → List α) (c : Connection)

/-- What there is to observe of the operations of a run, in their order. -/
def gather (c : Connection) : List Op → List α
  | [] => []
  | op :: rest => observe c op ++ gather (c.step op).2 rest

theorem gather_append (first second : List Op) :
    gather observe c (first ++ second) =
      gather observe c first ++ gather observe (c.run first) second := by
  induction first generalizing c with
  | nil => rfl
  | cons op rest ih =>
    rw [List.cons_append, gather, ih, gather, List.append_assoc]
    rfl

theorem gather_last (ops : List Op) (op : Op) :
    gather observe c (ops ++ [op]) = gather observe c ops ++ observe (c.run ops) op := by
  rw [gather_append, gather, gather, List.append_nil]

theorem mem_gather {ops : List Op} {fact : α} : fact ∈ gather observe c ops ↔
    ∃ front op back, ops = front ++ op :: back ∧ fact ∈ observe (c.run front) op := by
  induction ops generalizing c with
  | nil => simp [gather]
  | cons op rest ih =>
    rw [gather, List.mem_append, ih]
    constructor
    · rintro (now | ⟨front, later, back, rfl, seen⟩)
      · exact ⟨[], op, rest, rfl, now⟩
      · exact ⟨op :: front, later, back, rfl, seen⟩
    · rintro ⟨front, later, back, split, seen⟩
      cases front with
      | nil =>
        cases split
        exact .inl seen
      | cons first front =>
        cases split
        exact .inr ⟨front, later, back, rfl, seen⟩

/-- What only ever comes about through something that is observed, holds once that was seen. -/
theorem gather_tracks {I P : Connection → Prop} {Q : α → Prop}
    (kept : ∀ current op, I current → I (current.step op).2)
    (stepped : ∀ current op, I current →
      (P (current.step op).2 ↔ P current ∨ ∃ fact ∈ observe current op, Q fact))
    (begins : I c) (ops : List Op) :
    P (c.run ops) ↔ P c ∨ ∃ fact ∈ gather observe c ops, Q fact := by
  induction ops generalizing c with
  | nil => simp [gather, run]
  | cons op rest ih =>
    show P ((c.step op).2.run rest) ↔ _
    rw [ih _ (kept c op begins), stepped c op begins, gather, or_assoc]
    simp only [List.mem_append, or_and_right, exists_or]

end Gather

/-- What an operation adds to the outbound queue. An operation that takes something out adds
    nothing. -/
def queuedBy (c : Connection) (op : Op) : List Segment :=
  (c.step op).2.queue.drop c.queue.length

/-- A segment that entered the outbound queue, with the receiving half as it was then. -/
structure Entry where
  segment : Segment
  receiver : Receiver
  deriving DecidableEq

def entriesBy (c : Connection) (op : Op) : List Entry :=
  (c.queuedBy op).map (⟨·, (c.step op).2.receiver⟩)

def journal (c : Connection) (ops : List Op) : List Entry := gather entriesBy c ops

variable {c : Connection} {op : Op}

theorem Does.queuedBy {asked : List Sender.Op} {fed : List Receiver.Op}
    (does : c.Does (c.step op).2 asked fed) :
    c.queuedBy op = (c.sender.run asked).queue.map (c.step op).2.stamp := by
  unfold Connection.queuedBy
  rcases does.queue with appended | ⟨nothing, left⟩
  · rw [appended, List.drop_left]
  · rw [nothing, List.map_nil, List.drop_eq_nil_of_le left.length_le]

/-- What is queued is bare until the receiving half stamps it. -/
theorem exists_bare_of_queuedBy (sound : c.Sound) {segment : Segment}
    (queued : segment ∈ c.queuedBy op) :
    ∃ bare, bare.flags.ack = false ∧ segment = (c.step op).2.stamp bare := by
  rcases c.step_carries op sound.ready with ⟨asked, fed, carries, does⟩
  rcases sound.faithful with ⟨accepted, faithful⟩
  rw [does.queuedBy] at queued
  rcases List.mem_map.mp queued with ⟨bare, waiting, stamped⟩
  have said := faithful.run fun request member => (carries.warrants request member).leaves
  exact ⟨bare, (said.1.queued bare waiting).2, stamped.symm⟩

theorem Carries.silent_of_inactive {reply : Reply} {asked : List Sender.Op}
    {fed : List Receiver.Op} (carries : c.Carries op reply asked fed) (inactive : c.active = false) :
    (c.sender.run asked).queue = c.sender.queue := by
  cases carries with
  | ignored | deaf | read => rfl
  | finish =>
    rw [inactive, Bool.false_and]
    rfl
  | connect active | write active | receive active | reset active | tick active | giveUp active
    | abort active => simp [inactive] at active

theorem active_of_queuedBy (sound : c.Sound) {segment : Segment}
    (queued : segment ∈ c.queuedBy op) : c.active = true := by
  by_contra inactive
  rcases c.step_carries op sound.ready with ⟨asked, fed, carries, does⟩
  rw [does.queuedBy, carries.silent_of_inactive (eq_false_of_ne_true inactive), sound.ready]
    at queued
  cases queued

theorem step_reset {segment : Segment} (active : c.active = true) (rst : segment.flags.rst = true)
    (syn : segment.flags.syn = true) :
    (c.step (.receive segment)).2.active = false ∧ c.queuedBy (.receive segment) = [] := by
  have resets : (c.step (.receive segment)).2 = c.receiveReset := by
    show c.receive segment = c.receiveReset
    simp [Connection.receive, active, rst, syn]
  unfold queuedBy
  rw [resets]
  exact ⟨rfl, List.drop_nil⟩

theorem isn_step (sound : c.Sound) (op : Op) : (c.step op).2.receiver.isn.isSome = true ↔
    c.receiver.isn.isSome = true ∨ (c.active = true ∧
      ∃ segment, op = .receive segment ∧ segment.flags.rst = false ∧ segment.flags.syn = true) := by
  rcases c.step_carries op sound.ready with ⟨asked, fed, carries, does⟩
  rw [does.receiver]
  generalize (c.step op).1 = reply at carries
  cases carries with
  | ignored _ _ noSegment => simp [Receiver.run, noSegment]
  | deaf waits =>
    rcases waits with inactive | ⟨_, noSyn⟩
    · simp [Receiver.run, inactive]
    · simp [Receiver.run, noSyn]
  | @receive segment _ active plain =>
    show (c.receiver.receive segment).isn.isSome = true ↔ _
    rw [Receiver.isn_receive]
    simp [active, plain]
  | reset _ rst => simp [Receiver.run, Receiver.step, Receiver.withStream, rst]
  | connect | write | finish | tick | giveUp | abort | read =>
    simp [Receiver.run, Receiver.step, Receiver.withStream]

theorem isn_of_isPrefix (sound : c.Sound) {passed ops : List Op} (front : passed <+: ops)
    (synced : (c.run passed).receiver.isn.isSome = true) :
    (c.run ops).receiver.isn.isSome = true :=
  run_keeps (P := fun current => current.receiver.isn.isSome = true) sound
    (fun _ reached op before => (isn_step reached op).mpr (.inl before)) front synced

def BringSyn (ops : List Op) : Prop := ∃ segment, .receive segment ∈ ops ∧ segment.flags.syn = true

theorem bringSyn_of_isn (sound : c.Sound) {ops : List Op}
    (synced : (c.run ops).receiver.isn.isSome = true) :
    c.receiver.isn.isSome = true ∨ BringSyn ops := by
  induction ops generalizing c with
  | nil => exact .inl synced
  | cons op rest ih =>
    rcases ih (sound.step op) synced with early | ⟨segment, later, syn⟩
    · rcases (isn_step sound op).mp early with already | ⟨_, segment, rfl, _, syn⟩
      · exact .inl already
      · exact .inr ⟨segment, List.mem_cons_self, syn⟩
    · exact .inr ⟨segment, List.mem_cons_of_mem _ later, syn⟩

theorem isn_of_bringSyn (sound : c.Sound) {ops : List Op} (active : (c.run ops).active = true)
    (brings : BringSyn ops) : (c.run ops).receiver.isn.isSome = true := by
  rcases brings with ⟨segment, member, syn⟩
  rcases List.append_of_mem member with ⟨front, back, rfl⟩
  have reached := sound.run front
  have front_step : front ++ [.receive segment] <+: front ++ .receive segment :: back := by simp
  apply isn_of_isPrefix sound front_step
  rw [step_last, isn_step reached]
  rw [run_append] at active
  have before : (c.run front).active = true := active_of_run active
  have after : ((c.run front).step (.receive segment)).2.active = true :=
    active_of_run active
  refine .inr ⟨before, segment, rfl, ?_, syn⟩
  by_contra rst
  have resets := (step_reset before (eq_true_of_ne_false rst) syn).1
  simp [resets] at after

theorem isn_iff_of_queuedBy (sound : c.Sound) (fresh : c.receiver.isn = none) {front : List Op}
    {segment : Segment} (queued : segment ∈ (c.run front).queuedBy op) :
    (c.run (front ++ [op])).receiver.isn.isSome = true ↔ BringSyn (front ++ [op]) := by
  have reached := sound.run front
  have active := active_of_queuedBy reached queued
  constructor
  · intro synced
    rcases bringSyn_of_isn sound synced with early | brings
    · simp [fresh] at early
    · exact brings
  · rintro ⟨received, member, syn⟩
    rw [step_last, isn_step reached]
    rcases List.mem_append.mp member with early | now
    · exact .inl (isn_of_bringSyn sound active ⟨received, early, syn⟩)
    · have same := List.mem_singleton.mp now
      subst same
      refine .inr ⟨active, received, rfl, ?_, syn⟩
      by_contra rst
      rw [(step_reset active (eq_true_of_ne_false rst) syn).2] at queued
      cases queued

end Connection

end NetStack.Tcp
