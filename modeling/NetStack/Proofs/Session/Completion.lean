import NetStack.Proofs.Session.Delivery
import NetStack.Proofs.Session.Lockstep
import NetStack.Proofs.Session.Quiescence
import NetStack.Proofs.Tcp.Advertising
import NetStack.Proofs.Tcp.Finality
import NetStack.Proofs.Tcp.Linger
import NetStack.Proofs.Tcp.Marks
import NetStack.Proofs.Tcp.Spelling

namespace NetStack

namespace Tcp

theorem Reports.known_eq {isn : SeqNo} {known heard : Nat} (reports : Reports isn known [] heard) :
    known = heard := by
  cases reports
  rfl

theorem Connection.tick_of_idle {c : Connection} {span : Duration} (active : c.active = true)
    (queue : c.sender.queue = []) (still : c.sender.tick span = c.sender)
    (retries : c.sender.timer.retries = 0) :
    c.tick span = { c with idle := c.idle + span }.settle := by
  unfold Connection.tick
  rw [if_pos active, still]
  dsimp only
  rw [retries, if_neg (Nat.not_lt_zero _)]
  congr 1
  unfold flush
  simp only [queue, List.map_nil, List.append_nil]
  rw [← queue]

end Tcp

namespace Simulation

open Tcp

namespace Party

variable {p q : Party} {op : Connection.Op}

structure Suits (p : Party) (setup : Setup) : Prop where
  maxPayload : p.connection.sender.maxPayload = setup.config.maxPayload
  capacity : p.connection.inbound.capacity = setup.inbound.size
  timeout : p.connection.active = true → p.connection.timeout = setup.config.timeout

theorem suits_start (setup : Setup) : setup.party.Suits setup := ⟨rfl, rfl, fun _ => rfl⟩

theorem Suits.act {setup : Setup} (suits : p.Suits setup) (steady : p.Steady)
    (op : Connection.Op) : (p.act op).Suits setup where
  maxPayload := by
    obtain ⟨asked, fed, performs⟩ := act_performs steady.ready op
    rw [performs.sender]
    exact (p.connection.sender.maxPayload_run asked).trans suits.maxPayload
  capacity := (Connection.step_progresses steady.sound op).capacity.trans suits.capacity
  timeout := by
    intro active
    have alive := Connection.active_of_step (c := p.connection) active
    exact (Connection.step_turns steady.sound alive op).timeout.trans (suits.timeout alive)

theorem Steady.opened_of_connect (steady : p.Steady) :
    (p.act .connect).connection.sender.next ≠ 0 := by
  show (p.connection.step .connect).2.sender.next ≠ 0
  rw [Connection.step_connect]
  split
  · have opened := p.connection.sender.transmit_next_pos
    show p.connection.sender.transmit.next ≠ 0
    omega
  · rename_i refused
    intro unopened
    have unopened : p.connection.sender.next = 0 := unopened
    have inactive : p.connection.active = false := by
      by_contra active
      exact refused (by simp [Connection.isUnopened, unopened, active])
    have complete := (steady.complete inactive).2
    simp only [Connection.outboundComplete, Bool.and_eq_true, beq_iff_eq] at complete
    have sent := complete.1.2
    rw [unopened, Sender.endPosition] at sent
    omega

theorem Steady.sent_all (steady : p.Steady) (opened : p.connection.sender.next ≠ 0)
    (acked : p.connection.sender.acked = p.connection.sender.next)
    (some_fits : 0 < p.connection.sender.maxPayload) :
    p.connection.outbound.toList = [] ∧ p.connection.sender.next =
      p.accepted.length + 1 + p.connection.outbound.inputEnded.toNat := by
  by_cases active : p.connection.active = true
  · apply steady.faithful.all_sent_of_exhausted (steady.exhausted active) (by omega) opened
    · unfold Sender.rightEdge
      omega
    · exact some_fits
  · have complete := (steady.complete (eq_false_of_ne_true active)).2
    simp only [Connection.outboundComplete, Bool.and_eq_true, beq_iff_eq] at complete
    obtain ⟨ended, empty⟩ := p.connection.outbound.atEnd_iff.mp complete.1.1
    have written := steady.faithful.length_eq
    refine ⟨empty, ?_⟩
    rw [complete.1.2, ended, written]
    rfl

theorem Steady.opened_of_heard (steady : p.Steady) (heard : p.connection.receiver.heardTo ≠ 0) :
    p.connection.sender.next ≠ 0 := by
  apply steady.opened
  by_contra unsynced
  exact heard (if_neg unsynced)

/-- With nothing on its way, both parties know that all has arrived. -/
theorem Streams.settled (streams : p.Streams q [] []) :
    q.connection.receiver.heardTo = p.connection.sender.next ∧
      p.connection.sender.acked = p.connection.sender.next := by
  have arrived : q.connection.receiver.heardTo = p.connection.sender.next := streams.successive
  exact ⟨arrived, streams.reports.known_eq.trans arrived⟩

theorem Streams.landed (streams : p.Streams q [] []) (steady : p.Steady) :
    p.connection.sender.inFlight = 0 := by
  have acked := streams.settled.2
  have flying := steady.sound.accounted.inFlight_pos_iff
  omega

theorem Streams.all_received (streams : p.Streams q [] []) (steady : p.Steady)
    (opened : p.connection.sender.next ≠ 0) (some_fits : 0 < p.connection.sender.maxPayload) :
    q.received = p.accepted ∧
      q.connection.inbound.inputEnded = p.connection.outbound.inputEnded := by
  obtain ⟨arrived, acked⟩ := streams.settled
  obtain ⟨_, sent⟩ := steady.sent_all opened acked some_fits
  obtain ⟨length, front, all⟩ := received_of_follows steady.faithful streams.follows
  have stands : q.connection.receiver.heardTo = q.connection.receiver.ackPosition := by
    unfold Receiver.heardTo at arrived ⊢
    split
    · rfl
    · rename_i unsynced
      rw [if_neg unsynced] at arrived
      omega
  rw [stands, sent] at arrived
  change q.connection.inbound.totalWritten + 1 + q.connection.inbound.inputEnded.toNat = _
    at arrived
  have short := front.length_le
  cases ended : q.connection.inbound.inputEnded with
  | true =>
    obtain ⟨told, whole⟩ := all ended
    exact ⟨whole, told.symm⟩
  | false =>
    rw [ended, Bool.toNat_false] at arrived
    refine ⟨front.eq_of_length (by omega), ?_⟩
    cases told : p.connection.outbound.inputEnded with
    | true =>
      rw [told, Bool.toNat_true] at arrived
      omega
    | false => rfl

theorem Streams.complete (streams : p.Streams q [] []) (back : q.Streams p [] [])
    (steady : p.Steady) (opened : p.connection.sender.next ≠ 0)
    (some_fits : 0 < p.connection.sender.maxPayload)
    (outbound : p.connection.outbound.inputEnded = true)
    (inbound : p.connection.inbound.inputEnded = true) : p.connection.Complete := by
  have acked := streams.settled.2
  obtain ⟨empty, sent⟩ := steady.sent_all opened acked some_fits
  have written := steady.faithful.length_eq
  constructor
  · have assembled : p.connection.receiver.unassembled = 0 := by
      unfold Receiver.unassembled Reassembler.unassembled
      rw [back.inStep.current.pending]
      rfl
    rw [Connection.inboundComplete, assembled, inbound]
    rfl
  · have atEnd := p.connection.outbound.atEnd_iff.mpr ⟨outbound, empty⟩
    rw [outbound, Bool.toNat_true, written] at sent
    rw [Connection.outboundComplete, atEnd, Bool.true_and, Bool.and_eq_true, beq_iff_eq, beq_iff_eq]
    exact ⟨sent, streams.landed steady⟩

/-- Once both streams are at their end and all is acknowledged, one tick is enough. -/
theorem Steady.closes (steady : p.Steady) {setup : Setup} (suits : p.Suits setup)
    (complete : p.connection.Complete) {span : Duration}
    (waited : setup.config.timeout.scale 10 ≤ span) :
    (p.act (.tick span)).connection.active = false ∧
      (p.act (.tick span)).connection.state = .closed := by
  obtain ⟨inbound, outbound⟩ := complete
  by_cases active : p.connection.active = true
  · obtain ⟨initial, history, timed⟩ := steady.timed
    have landed : p.connection.sender.inFlight = 0 := by
      simp only [Connection.outboundComplete, Bool.and_eq_true, beq_iff_eq] at outbound
      exact outbound.2
    have nothing : p.connection.sender.outstanding = [] :=
      timed.accounted.outstanding_eq_nil_iff.mpr (timed.accounted.acked_eq_next landed)
    have retries : p.connection.sender.timer.retries = 0 := by
      rw [timed.idle nothing]
      rfl
    have ticked := Connection.tick_of_idle active steady.sound.ready
      (timed.tick_of_idle nothing span) retries
    have lingered : p.connection.lingerPeriod ≤ p.connection.idle + span := by
      rw [Connection.lingerPeriod, suits.timeout active]
      rw [Duration.le_iff] at waited ⊢
      rw [Duration.millis_add]
      have bound := span.bounded
      omega
    have inactive : (p.connection.tick span).active = false := by
      rw [ticked]
      by_contra still
      have waits := Connection.waits_settle (eq_true_of_ne_false still)
      exact (waits ⟨inbound, outbound⟩).2 lingered
    refine ⟨inactive, Connection.Intact.state_eq ?_ inactive⟩
    show (p.connection.tick span).inbound.failed = false ∧
      (p.connection.tick span).outbound.failed = false
    rw [ticked]
    exact steady.unfailed
  · have inactive := eq_false_of_ne_true active
    have same : p.connection.tick span = p.connection := if_neg active
    have kept : (p.act (.tick span)).connection = { p.connection with queue := [] } := by
      rw [← same]
      rfl
    rw [kept]
    exact ⟨inactive, Connection.Intact.state_eq steady.unfailed inactive⟩

end Party

def Call.Plain : Call → Prop
  | .connect | .write _ | .finish => True
  | .read _ | .tick _ | .abort => False

instance : (call : Call) → Decidable call.Plain
  | .connect | .write _ | .finish => inferInstanceAs (Decidable True)
  | .read _ | .tick _ | .abort => inferInstanceAs (Decidable False)

namespace Session

/-- What a side has sent and the other side has not been handed, oldest first. -/
def onWay (session : Session) (side : Side) : List Segment :=
  (session.party side).sent.drop (session.party side.other).heard.length

/-- No time passes, nobody reads or aborts, and of all that is on its way from a side the oldest
    segment arrives. -/
def Admits (session : Session) : Event → Prop
  | .call _ call => call.Plain
  | .deliver side index => index = (session.party side.other).heard.length

instance (session : Session) : (event : Event) → Decidable (session.Admits event)
  | .call _ call => inferInstanceAs (Decidable call.Plain)
  | .deliver _ index => inferInstanceAs (Decidable (index = _))

/-- Whatever happens leaves nothing behind, repeats nothing and brings nothing out of order. -/
def InOrder : Session → List Event → Prop
  | _, [] => True
  | session, event :: rest => session.Admits event ∧ InOrder (session.step event) rest

instance decidableInOrder :
    (session : Session) → (events : List Event) → Decidable (session.InOrder events)
  | _, [] => inferInstanceAs (Decidable True)
  | session, event :: rest =>
    have := decidableInOrder (session.step event) rest
    inferInstanceAs (Decidable (_ ∧ _))

/-- Each side has room for all that the other one accepts. -/
def Roomy (session : Session) (setups : Side → Setup) : Prop :=
  ∀ side, (session.party side).accepted.length ≤ (setups side.other).inbound.size

structure Lockstep (session : Session) (setups : Side → Setup) : Prop where
  steady : ∀ side, (session.party side).Steady
  suits : ∀ side, (session.party side).Suits (setups side)
  heard_le : ∀ side, (session.party side.other).heard.length ≤ (session.party side).sent.length
  streams : ∀ side, (session.party side).Streams (session.party side.other)
    (session.onWay side) (session.onWay side.other)

variable {session : Session} {setups : Side → Setup}

theorem lockstep_start (setups : Side → Setup) :
    (start (setups .a) (setups .b)).Lockstep setups := by
  constructor <;> intro side <;> cases side
  · exact Party.steady_start _
  · exact Party.steady_start _
  · exact Party.suits_start _
  · exact Party.suits_start _
  · exact Nat.le_refl _
  · exact Nat.le_refl _
  · exact Party.streams_start _ _
  · exact Party.streams_start _ _

theorem onWay_act (session : Session) {side : Side} (op : Connection.Op)
    (heard_le : (session.party side.other).heard.length ≤ (session.party side).sent.length) :
    let after := session.withParty ((session.party side).act op) side
    after.onWay side =
        session.onWay side ++ ((session.party side).connection.step op).2.queue ∧
      after.onWay side.other = (session.onWay side.other).drop (heardBy op).length := by
  intro after
  unfold onWay
  rw [Side.other_other, party_withParty, party_other_withParty]
  constructor
  · exact List.drop_append_of_le_length heard_le
  · rw [List.drop_drop, ← List.length_append]
    rfl

theorem Lockstep.act (lockstep : session.Lockstep setups)
    (small : ∀ side, (setups side).inbound.size < 0x80000000) (roomy : session.Roomy setups)
    {side : Side} {op : Connection.Op} (calm : op.Calm)
    (heard : heardBy op <+: session.onWay side.other) :
    (session.withParty ((session.party side).act op) side).Lockstep setups := by
  obtain ⟨left, first⟩ := heard
  have steady := lockstep.steady side
  have streams := lockstep.streams side
  have back := lockstep.streams side.other
  have room := roomy side.other
  have behind : (session.party side).heard.length + (heardBy op).length ≤
      (session.party side.other).sent.length := by
    have remains := congrArg List.length first
    have before := lockstep.heard_le side.other
    unfold onWay at remains
    rw [Side.other_other] at remains before
    rw [List.length_append, List.length_drop] at remains
    omega
  have short (side : Side) : (session.party side).accepted.length < 0x80000000 :=
    Nat.lt_of_le_of_lt (roomy side) (small side.other)
  rw [Side.other_other] at back room
  rw [← (lockstep.suits side).capacity] at room
  have speaks := streams.speak steady calm (short side) first.symm
  have listens := back.listen steady calm (lockstep.steady side.other).faithful first.symm room
    (short side.other)
  obtain ⟨said, remains⟩ := session.onWay_act op (lockstep.heard_le side)
  rw [← first, List.drop_left] at remains
  rw [← said, ← remains] at speaks listens
  have opened : ∀ segment, op = .receive segment → segment.flags.ack = true →
      (session.party side).connection.isUnopened = false := by
    rintro segment rfl
    exact streams.opened first.symm
  have either {P : Side → Prop} (own : P side) (other : P side.other) (any : Side) : P any := by
    by_cases same : any = side
    · exact same ▸ own
    · exact Side.eq_other_of_ne same ▸ other
  constructor <;> apply either <;>
    simp only [Side.other_other, party_withParty, party_other_withParty]
  · exact steady.act calm opened
  · exact lockstep.steady side.other
  · exact (lockstep.suits side).act steady op
  · exact lockstep.suits side.other
  · exact Nat.le_trans (lockstep.heard_le side) (List.prefix_append _ _).length_le
  · show ((session.party side).heard ++ heardBy op).length ≤ _
    rw [List.length_append]
    exact behind
  · exact speaks
  · exact listens

theorem Lockstep.step (lockstep : session.Lockstep setups)
    (small : ∀ side, (setups side).inbound.size < 0x80000000) (roomy : session.Roomy setups)
    {event : Event} (admitted : session.Admits event) : (session.step event).Lockstep setups := by
  cases event with
  | call side call =>
    apply lockstep.act small roomy
    · cases call with
      | connect | write | finish => trivial
      | read | tick | abort => exact admitted.elim
    · cases call <;> exact List.nil_prefix
  | deliver side index =>
    have oldest : index = (session.party side.other).heard.length := admitted
    cases found : (session.party side).sent[index]? with
    | none =>
      rw [show session.step (.deliver side index) = session by simp [Session.step, found]]
      exact lockstep
    | some segment =>
      have stepped : session.step (.deliver side index) = session.withParty
          ((session.party side.other).act (.receive segment)) side.other := by
        simp [Session.step, found]
      have first : session.onWay side =
          segment :: (session.party side).sent.drop (index + 1) := by
        obtain ⟨inside, is⟩ := List.getElem?_eq_some_iff.mp found
        rw [onWay, ← oldest, List.drop_eq_getElem_cons inside, is]
      have successive := (lockstep.streams side).successive
      rw [first] at successive
      rw [stepped]
      apply lockstep.act small roomy
      · exact successive.2.1
      · rw [Side.other_other, first]
        exact ⟨_, rfl⟩

theorem Roomy.before {event : Event} (roomy : (session.step event).Roomy setups) :
    session.Roomy setups :=
  fun side => Nat.le_trans (session.step_grows event side).1.length_le (roomy side)

theorem Roomy.start {events : List Event} (roomy : (session.run events).Roomy setups) :
    session.Roomy setups := by
  induction events generalizing session with
  | nil => exact roomy
  | cons event rest ih => exact (ih roomy).before

theorem Lockstep.run (lockstep : session.Lockstep setups)
    (small : ∀ side, (setups side).inbound.size < 0x80000000) {events : List Event}
    (inOrder : session.InOrder events) (roomy : (session.run events).Roomy setups) :
    (session.run events).Lockstep setups := by
  induction events generalizing session with
  | nil => exact lockstep
  | cons event rest ih =>
    obtain ⟨admitted, following⟩ := inOrder
    have current : (session.step event).Roomy setups := Roomy.start roomy
    exact ih (lockstep.step small current.before admitted) following roomy

theorem Lockstep.opened_step (lockstep : session.Lockstep setups) {event : Event} {side : Side}
    (opened : (session.party side).connection.sender.next ≠ 0 ∨ event = .call side .connect) :
    ((session.step event).party side).connection.sender.next ≠ 0 := by
  have steady := lockstep.steady side
  rcases opened with already | rfl
  · rcases session.step_party event side with same | ⟨op, acted, _⟩
    · rw [same]
      exact already
    · have grown := (Party.act_advances steady.ready op).next
      rw [acted]
      omega
  · unfold Session.step
    rw [party_withParty]
    exact steady.opened_of_connect

theorem Lockstep.opened_run (lockstep : session.Lockstep setups)
    (small : ∀ side, (setups side).inbound.size < 0x80000000) {events : List Event}
    (inOrder : session.InOrder events) (roomy : (session.run events).Roomy setups) {side : Side}
    (opened : (session.party side).connection.sender.next ≠ 0 ∨ .call side .connect ∈ events) :
    ((session.run events).party side).connection.sender.next ≠ 0 := by
  induction events generalizing session with
  | nil => exact opened.resolve_right List.not_mem_nil
  | cons event rest ih =>
    obtain ⟨admitted, following⟩ := inOrder
    have current : (session.step event).Roomy setups := Roomy.start roomy
    apply ih (lockstep.step small current.before admitted) following roomy
    rw [List.mem_cons, ← or_assoc] at opened
    exact opened.imp_left fun now => lockstep.opened_step (now.imp_right Eq.symm)

/-- Whenever nothing is on its way, each side has heard what the other one has said. -/
theorem Lockstep.streams_quiet (lockstep : session.Lockstep setups)
    (quiet : ∀ side, session.onWay side = []) (side : Side) :
    (session.party side).Streams (session.party side.other) [] [] := by
  have streams := lockstep.streams side
  rw [quiet side, quiet side.other] at streams
  exact streams

theorem Lockstep.opened_quiet (lockstep : session.Lockstep setups)
    (quiet : ∀ side, session.onWay side = []) {caller : Side}
    (opened : (session.party caller).connection.sender.next ≠ 0) (side : Side) :
    (session.party side).connection.sender.next ≠ 0 := by
  by_cases own : side = caller
  · rw [own]
    exact opened
  · rw [Side.eq_other_of_ne own]
    apply (lockstep.steady caller.other).opened_of_heard
    rw [(lockstep.streams_quiet quiet caller).settled.1]
    exact opened

/-- Let two connections be driven by their applications while every segment arrives, once and in
    order. Whenever nothing is on its way after one of them has connected, all that either side
    accepted has arrived, and so has its end if it was called for. After both ends it takes a
    single tick on each side to close both connections. -/
theorem transfer_completes (setups : Side → Setup) (events : List Event)
    (some_fits : ∀ side, 0 < (setups side).config.maxPayload)
    (small : ∀ side, (setups side).inbound.size < 0x80000000)
    (inOrder : (start (setups .a) (setups .b)).InOrder events)
    (roomy : ((start (setups .a) (setups .b)).run events).Roomy setups)
    (quiet : ∀ side, ((start (setups .a) (setups .b)).run events).onWay side = [])
    (connected : ∃ side, .call side .connect ∈ events) :
    let last := (start (setups .a) (setups .b)).run events
    (∀ side,
      let speaker := last.party side
      let listener := last.party side.other
      speaker.connection.sender.inFlight = 0 ∧ speaker.connection.outbound.toList = [] ∧
        listener.received = speaker.accepted ∧
        (listener.connection.inbound.inputEnded = true ↔ .call side .finish ∈ events)) ∧
    ((∀ side, .call side .finish ∈ events) → ∀ spans : Side → Duration,
      (∀ side, (setups side).config.timeout.scale 10 ≤ spans side) →
        let later := last.run [.call .a (.tick (spans .a)), .call .b (.tick (spans .b))]
        ∀ side, (later.party side).connection.active = false ∧
          (later.party side).connection.state = .closed) := by
  intro last
  obtain ⟨caller, called⟩ := connected
  have begins := lockstep_start setups
  have lockstep : last.Lockstep setups := begins.run small inOrder roomy
  have streams := lockstep.streams_quiet quiet
  have opened := lockstep.opened_quiet quiet (begins.opened_run small inOrder roomy (.inr called))
  have fits (side : Side) : 0 < (last.party side).connection.sender.maxPayload :=
    (lockstep.suits side).maxPayload ▸ some_fits side
  have ends (side : Side) : (last.party side).connection.outbound.inputEnded = true ↔
      .call side .finish ∈ events := by
    refine (inputEnded_run (begins.steady side).ready).trans (or_iff_right ?_)
    cases side <;> exact Bool.false_ne_true
  have received (side : Side) := (streams side).all_received (lockstep.steady side) (opened side)
    (fits side)
  constructor
  · intro side speaker listener
    have steady := lockstep.steady side
    have drained := (steady.sent_all (opened side) (streams side).settled.2 (fits side)).1
    refine ⟨(streams side).landed steady, drained, (received side).1, ?_⟩
    rw [(received side).2]
    exact ends side
  · intro finished spans waited later side
    have back := streams side.other
    have other := (received side.other).2
    rw [Side.other_other] at back other
    have outbound := (ends side).mpr (finished side)
    have inbound := other.trans ((ends side.other).mpr (finished side.other))
    have complete := (streams side).complete back (lockstep.steady side) (opened side) (fits side)
      outbound inbound
    have closes := (lockstep.steady side).closes (lockstep.suits side) complete (waited side)
    cases side <;> exact closes

def fitting : Side → Setup
  | .a => .ofConfig
    { receiveCapacity := 2, sendCapacity := 4, maxPayload := 2, isn := some ⟨0xfffffffe⟩ }
  | .b => .ofConfig { receiveCapacity := 3, sendCapacity := 4, maxPayload := 1, isn := some ⟨0⟩ }

/-- One side writes and ends its stream before it connects, and its FIN probes a closed window; the
    other side answers. -/
def probing : List Event :=
  [.call .a (.write [1, 2, 3]), .call .a .finish, .call .a .connect, .deliver .a 0, .deliver .b 0,
    .deliver .a 1, .deliver .a 2, .deliver .b 1, .deliver .b 2, .deliver .a 3, .deliver .b 3,
    .call .b (.write [9, 8]), .call .b .finish, .deliver .b 4, .deliver .a 4, .deliver .b 5,
    .deliver .a 5, .deliver .b 6, .deliver .a 6]

theorem transfer_completes_probing :
    let last := (start (fitting .a) (fitting .b)).run probing
    last.Roomy fitting ∧ (last.party .b).received = [1, 2, 3] ∧ (last.party .a).received = [9, 8] ∧
      ∀ side, ((last.run [.call .a (.tick (.ofMillis 10000)),
        .call .b (.tick (.ofMillis 10000))]).party side).connection.active = false := by
  intro last
  have inOrder : (start (fitting .a) (fitting .b)).InOrder probing := by decide +kernel
  have roomy : last.Roomy fitting := by
    intro side
    cases side <;> decide +kernel
  have quiet : ∀ side, last.onWay side = [] := by
    intro side
    cases side <;> decide +kernel
  have some_fits : ∀ side, 0 < (fitting side).config.maxPayload := by
    intro side
    cases side <;> decide
  have small : ∀ side, (fitting side).inbound.size < 0x80000000 := by
    intro side
    cases side <;> decide
  obtain ⟨arrives, closes⟩ :=
    transfer_completes fitting probing some_fits small inOrder roomy quiet ⟨.a, by decide⟩
  refine ⟨roomy, (arrives .a).2.2.1.trans (by decide +kernel),
    (arrives .b).2.2.1.trans (by decide +kernel), fun side => ?_⟩
  have finished (side : Side) : .call side .finish ∈ probing := by
    cases side <;> decide
  have waited (side : Side) : (fitting side).config.timeout.scale 10 ≤ .ofMillis 10000 := by
    cases side <;> decide +kernel
  exact (closes finished (fun _ => .ofMillis 10000) waited side).1

end Session

end Simulation

end NetStack
