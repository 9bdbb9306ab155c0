import NetStack.Proofs.Session.Conveyance
import NetStack.Proofs.Tcp.Acknowledging
import NetStack.Proofs.Tcp.Timekeeping

namespace NetStack

namespace Tcp

theorem Transcript.Successive.stamp {t : Transcript} {start stop : Nat} {segments : List Segment}
    (successive : t.Successive start segments stop) (c : Connection) :
    t.Successive start (segments.map c.stamp) stop := by
  induction segments generalizing start with
  | nil => exact successive
  | cons segment rest ih =>
    obtain ⟨covers, plain, following⟩ := successive
    refine ⟨covers.stamp c, by rw [c.stamp_rst, plain], ?_⟩
    rw [c.stamp_space]
    exact ih following

inductive Reports (isn : SeqNo) : Nat → List Segment → Nat → Prop
  | done (heard : Nat) : Reports isn heard [] heard
  | silent {known heard : Nat} {segment : Segment} {rest : List Segment}
      (noAck : segment.flags.ack = false) (following : Reports isn known rest heard) :
      Reports isn known (segment :: rest) heard
  | told {known heard position : Nat} {segment : Segment} {rest : List Segment}
      (ack : segment.flags.ack = true) (ackno : segment.ackno = .ofPosition position isn)
      (positive : 0 < position) (order : known ≤ position)
      (following : Reports isn position rest heard) : Reports isn known (segment :: rest) heard

namespace Reports

variable {isn : SeqNo} {known between heard : Nat} {segments : List Segment}

theorem known_le (reports : Reports isn known segments heard) : known ≤ heard := by
  induction reports with
  | done => exact Nat.le_refl _
  | silent _ _ ih => exact ih
  | told _ _ _ order _ ih => exact Nat.le_trans order ih

theorem append {left right : List Segment} (first : Reports isn known left between)
    (second : Reports isn between right heard) : Reports isn known (left ++ right) heard := by
  induction first with
  | done => exact second
  | silent noAck _ ih => exact .silent noAck (ih second)
  | told ack ackno positive order _ ih => exact .told ack ackno positive order (ih second)

theorem of_silent (silent : ∀ segment ∈ segments, segment.flags.ack = false) :
    Reports isn heard segments heard := by
  induction segments with
  | nil => exact .done heard
  | cons segment rest ih =>
    obtain ⟨first, others⟩ := List.forall_mem_cons.mp silent
    exact .silent first (ih others)

theorem of_told (positive : 0 < heard) (order : known ≤ heard)
    (tells : ∀ segment ∈ segments,
      segment.flags.ack = true ∧ segment.ackno = .ofPosition heard isn)
    (something : known < heard → segments ≠ []) : Reports isn known segments heard := by
  induction segments generalizing known with
  | nil =>
    have same : known = heard := by
      by_contra differs
      exact something (by omega) rfl
    rw [same]
    exact .done heard
  | cons segment rest ih =>
    obtain ⟨first, others⟩ := List.forall_mem_cons.mp tells
    exact .told first.1 first.2 positive order
      (ih (Nat.le_refl _) others fun beyond => absurd beyond (Nat.lt_irrefl _))

end Reports

end Tcp

namespace Simulation

open Tcp

theorem heardBy_cases {op : Connection.Op} {way left : List Segment}
    (heard : way = heardBy op ++ left) :
    (left = way ∧ ∀ segment, op ≠ .receive segment) ∨
      ∃ segment, op = .receive segment ∧ way = segment :: left := by
  cases op with
  | receive segment => exact .inr ⟨segment, rfl, heard⟩
  | connect | write | finish | tick | abort | read | dispatch | wait =>
    exact .inl ⟨heard.symm, by simp⟩

namespace Party

/-- A party that was never torn down, and for which no time has passed. -/
structure Steady (p : Party) : Prop where
  sound : p.connection.Sound
  queue : p.connection.queue = []
  faithful : p.connection.sender.Faithful p.accepted
  exhausted : p.connection.active = true → p.connection.sender.Exhausted
  concluded : p.connection.Concluded
  unfailed : p.connection.inbound.failed = false ∧ p.connection.outbound.failed = false
  opened : p.connection.receiver.isn.isSome = true → p.connection.sender.next ≠ 0
  timed : ∃ initial history, p.connection.sender.Timed initial history
  near : p.connection.sender.next ≤ p.connection.sender.acked + 0xffff

variable {p q : Party} {op : Connection.Op}

theorem Steady.ready (steady : p.Steady) : p.Ready := ⟨steady.sound.ready, steady.queue⟩

theorem steady_start (setup : Setup) : setup.party.Steady where
  sound := Connection.ofStorage_sound _ _ _
  queue := rfl
  faithful := Sender.ofStorage_faithful _ _ _ _
  exhausted := fun _ => Sender.exhausted_of_unanswered rfl
  concluded := Connection.concluded_of_active rfl
  unfailed := ⟨rfl, rfl⟩
  opened := by simp [Setup.party, Connection.ofStorage, Receiver.ofStream]
  timed := ⟨_, _, Sender.ofStream_timed _ _ _ _⟩
  near := Nat.zero_le _

theorem Steady.act (steady : p.Steady) (calm : op.Calm)
    (opened : ∀ segment, op = .receive segment → segment.flags.ack = true →
      p.connection.isUnopened = false) : (p.act op).Steady := by
  obtain ⟨asked, fed, performs⟩ := act_performs steady.ready op
  have asks := performs.carries.calm calm
  have stepped := steady.sound.step op
  have reached := performs.sender
  have advances := act_advances steady.ready op
  constructor
  · exact ⟨stepped.ready, stepped.accounted, stepped.faithful, stepped.tidy, stepped.synced⟩
  · rfl
  · exact act_faithful steady.ready steady.faithful op
  · intro active
    have alive := Connection.active_of_step (c := p.connection) active
    have exhausted := performs.carries.exhausted alive steady.faithful steady.sound.accounted
      (steady.exhausted alive)
    rw [reached]
    exact exhausted.congr rfl rfl rfl rfl rfl
  · exact steady.concluded.step op
  · constructor
    · unfold Connection.inbound
      rw [performs.receiver]
      rcases performs.carries.fed_calm calm with nothing | ⟨segment, _, received⟩
      · rw [nothing]
        exact steady.unfailed.1
      · rw [received]
        exact (p.connection.receiver.failed_receive segment).trans steady.unfailed.1
    · unfold Connection.outbound
      rw [reached]
      exact (Sender.failed_run_calm asks).trans steady.unfailed.2
  · rw [reached, performs.receiver]
    exact performs.carries.opened calm steady.opened
  · obtain ⟨initial, history, timed⟩ := steady.timed
    have noReset : Sender.Op.sendReset ∉ asked := fun member => asks _ member
    have later := timed.run noReset
    rw [reached]
    exact ⟨initial, _, later.requeue []⟩
  · have near := steady.near
    have acked := advances.acked
    rw [reached] at acked ⊢
    dsimp only at acked ⊢
    by_cases active : p.connection.active = true
    · have bound := performs.carries.next_le active opened
      have window := (p.connection.sender.run asked).window.toNat_lt
      unfold Sender.rightEdge at bound
      omega
    · have still := (performs.carries.kept_of_inactive (eq_false_of_ne_true active)).1
      omega

structure Streams (p q : Party) (way back : List Segment) : Prop where
  successive : p.transcript.Successive q.connection.receiver.heardTo way p.connection.sender.next
  follows : q.connection.receiver.Follows p.transcript q.taken
  inStep : q.connection.receiver.InStep
  reports : Reports p.transcript.isn p.connection.sender.acked back q.connection.receiver.heardTo

variable {way back left : List Segment}

theorem streams_start (first second : Setup) : first.party.Streams second.party [] [] where
  successive := rfl
  follows := Receiver.ofStorage_follows _ _
  inStep := Receiver.ofStorage_inStep _
  reports := .done 0

theorem Streams.opened (streams : p.Streams q way back) {segment : Segment}
    (first : back = segment :: left) (ack : segment.flags.ack = true) :
    p.connection.isUnopened = false := by
  have heard := streams.successive.start_le
  have reports := streams.reports
  rw [first] at reports
  cases reports with
  | silent noAck => simp [ack] at noAck
  | told _ _ positive _ following =>
    have reached := following.known_le
    exact beq_false_of_ne (by omega)

theorem Steady.complete (steady : p.Steady) (inactive : p.connection.active = false) :
    p.connection.inboundComplete = true ∧ p.connection.outboundComplete = true := by
  rcases steady.concluded inactive with ⟨failed, _⟩ | complete
  · rw [steady.unfailed.1] at failed
    cases failed
  · exact complete

theorem Steady.acked_of_inactive (steady : p.Steady) (inactive : p.connection.active = false) :
    p.connection.sender.acked = p.connection.sender.next := by
  have complete := (steady.complete inactive).2
  simp only [Connection.outboundComplete, Bool.and_eq_true, beq_iff_eq] at complete
  exact steady.sound.accounted.acked_eq_next complete.2

theorem Steady.acked_act (steady : p.Steady) {segment : Segment} {asked : List Sender.Op}
    {fed : List Receiver.Op} {position : Nat}
    (carries : p.connection.Carries (.receive segment) .done asked fed)
    (plain : segment.flags.rst = false) (ack : segment.flags.ack = true)
    (opened : p.connection.isUnopened = false)
    (ackno : segment.ackno = .ofPosition position p.transcript.isn)
    (order : p.connection.sender.acked ≤ position) (sent : position ≤ p.connection.sender.next)
    (short : p.accepted.length < 0x80000000) :
    (p.connection.sender.run asked).acked = position := by
  have near := steady.near
  have bound := steady.faithful.next_le
  by_cases active : p.connection.active = true
  · have acknowledges : segment.acknowledges = true := by simp [Segment.acknowledges, ack, plain]
    rcases carries.hearing active (fun _ _ _ => opened) with ⟨_, silent⟩ |
      ⟨heard, rest, received, _, rfl, quiet⟩
    · simp [silent segment rfl] at acknowledges
    · cases received
      have place : segment.ackno.positionNear p.connection.sender.isn p.connection.sender.acked =
          position := by
        rw [ackno]
        apply SeqNo.positionNear_ofPosition p.transcript.isn
        · omega
        · omega
        · unfold SeqNo.positionLimit
          omega
      have noted := p.connection.sender.acknowledge_acked segment.ackno segment.window
      rw [place, if_pos sent, Nat.max_eq_right order] at noted
      exact (Sender.quiet_run quiet).1.trans noted
  · have inactive := eq_false_of_ne_true active
    have acked := steady.acked_of_inactive inactive
    rw [(carries.kept_of_inactive inactive).2]
    omega

theorem Streams.reports_act (streams : p.Streams q way back) (steady : p.Steady) (calm : op.Calm)
    (short : p.accepted.length < 0x80000000)
    (heard : back = heardBy op ++ left) :
    Reports p.transcript.isn (p.act op).connection.sender.acked left
      q.connection.receiver.heardTo := by
  obtain ⟨asked, fed, performs⟩ := act_performs steady.ready op
  have reached := streams.successive.start_le
  have reports := streams.reports
  rw [performs.sender]
  dsimp only
  have quiet (silent : ∀ segment, op = .receive segment → segment.flags.ack = false) :
      (p.connection.sender.run asked).acked = p.connection.sender.acked := by
    have noAck : Sender.Quiet asked := by
      intro ackno window member
      obtain ⟨segment, received, _, ack, _⟩ := performs.carries.warrants _ member
      simp [silent segment received] at ack
    exact (Sender.quiet_run noAck).1
  rcases heardBy_cases heard with ⟨rfl, noSegment⟩ | ⟨segment, received, first⟩
  · rw [quiet fun segment received => absurd received (noSegment segment)]
    exact reports
  · have opened := streams.opened first
    rw [first] at reports
    cases reports with
    | silent noAck following =>
      rw [quiet fun other same => by cases received.symm.trans same; exact noAck]
      exact following
    | @told _ _ position _ _ ack ackno positive order following =>
      have bound := following.known_le
      subst received
      have carries : p.connection.Carries (.receive segment) .done asked fed := performs.carries
      rw [steady.acked_act carries calm ack (opened ack) ackno order (by omega) short]
      exact following

theorem Streams.speak (streams : p.Streams q way back) (steady : p.Steady) (calm : op.Calm)
    (short : p.accepted.length < 0x80000000)
    (heard : back = heardBy op ++ left) :
    (p.act op).Streams q (way ++ (p.connection.step op).2.queue) left := by
  have extension := act_extends steady.ready steady.faithful op
  have reports := streams.reports_act steady calm short heard
  obtain ⟨asked, fed, performs⟩ := act_performs steady.ready op
  have queue : (p.connection.step op).2.queue =
      (p.connection.sender.run asked).queue.map (p.act op).connection.stamp :=
    List.append_cancel_left performs.sent
  obtain ⟨added, queued, successive⟩ := steady.faithful.run_goesOn (performs.carries.calm calm)
  rw [steady.sound.ready, List.nil_append] at queued
  have said : (p.act op).transcript = (p.connection.sender.run asked).transcript
      (p.accepted ++ p.connection.sender.admittedBy asked) := by
    unfold transcript
    rw [performs.sender, performs.accepted]
    rfl
  constructor
  · rw [Transcript.successive_append]
    refine ⟨_, streams.successive.extend extension, ?_⟩
    rw [queue, queued, said, performs.sender]
    exact successive.stamp _
  · exact streams.follows.extend extension
  · exact streams.inStep
  · rw [extension.isn]
    exact reports

theorem taken_act (calm : op.Calm) : (q.act op).taken = q.taken := by
  have nothing : takenBy (q.connection.step op).1 = [] := by
    cases op with
    | connect =>
      rw [Connection.step_connect]
      split <;> rfl
    | write data =>
      rw [Connection.step_write]
      split <;> rfl
    | finish | receive => rfl
    | tick | abort | read | dispatch | wait => exact calm.elim
  show q.taken ++ takenBy (q.connection.step op).1 = q.taken
  rw [nothing, List.append_nil]

theorem Streams.space_of_deaf (streams : p.Streams q way back) (steady : q.Steady)
    {segment : Segment} (first : way = segment :: left)
    (deaf : q.connection.active = false ∨
      q.connection.isListening = true ∧ segment.flags.syn = false) : segment.space = 0 := by
  have successive := streams.successive
  rw [first] at successive
  obtain ⟨covers, _⟩ := successive
  rcases deaf with inactive | ⟨listens, noSyn⟩
  · have ended := Connection.inputEnded_of_complete (steady.complete inactive).1
    have stands : q.connection.receiver.heardTo = q.connection.receiver.ackPosition :=
      if_pos (steady.sound.synced ended)
    rw [stands] at covers
    exact streams.follows.space_eq_zero ended covers
  · have stands : q.connection.receiver.heardTo = 0 := by
      simp only [Connection.isListening, Receiver.ackno?, Option.isNone_map, Bool.and_eq_true,
        Option.isNone_iff_eq_none] at listens
      rw [Receiver.heardTo, listens.1]
      rfl
    rw [stands] at covers
    rcases covers.start rfl with syn | empty
    · simp [noSyn] at syn
    · exact empty

theorem Streams.hear (streams : p.Streams q way back) (steady : q.Steady) {segment : Segment}
    (plain : segment.flags.rst = false) (first : way = segment :: left)
    (said : p.connection.sender.Faithful p.accepted)
    (room : p.accepted.length ≤ q.connection.inbound.capacity)
    (short : p.accepted.length < 0x80000000) :
    (q.act (.receive segment)).connection.receiver.Follows p.transcript q.taken ∧
      (q.act (.receive segment)).connection.receiver.InStep ∧
      (q.act (.receive segment)).connection.receiver.heardTo =
        q.connection.receiver.heardTo + segment.space := by
  obtain ⟨asked, fed, performs⟩ := act_performs steady.ready (.receive segment)
  rw [performs.receiver]
  have carries : q.connection.Carries (.receive segment) .done asked fed := performs.carries
  cases carries with
  | ignored _ _ noSegment => exact absurd rfl (noSegment segment)
  | deaf deaf =>
    rw [streams.space_of_deaf steady first deaf]
    exact ⟨streams.follows, streams.inStep, rfl⟩
  | receive =>
    have successive := streams.successive
    rw [first] at successive
    have text : p.transcript.text.length ≤ p.accepted.length := by
      have sent := said.text_length
      have read := said.read_le
      unfold transcript
      omega
    apply streams.inStep.receive_next streams.follows successive.1
    · show _ ≤ q.connection.inbound.totalRead + q.connection.inbound.capacity
      omega
    · unfold SeqNo.positionLimit
      omega
  | reset _ rst => simp [plain] at rst

theorem Streams.listen_grows (streams : p.Streams q way back) (steady : q.Steady) (calm : op.Calm)
    (said : p.connection.sender.Faithful p.accepted)
    (heard : way = heardBy op ++ left)
    (room : p.accepted.length ≤ q.connection.inbound.capacity)
    (short : p.accepted.length < 0x80000000) :
    ((q.act op).connection.receiver.Follows p.transcript q.taken ∧
      (q.act op).connection.receiver.InStep) ∧
    p.transcript.Successive (q.act op).connection.receiver.heardTo left p.connection.sender.next ∧
    q.connection.receiver.heardTo ≤ (q.act op).connection.receiver.heardTo ∧
    (q.connection.receiver.heardTo < (q.act op).connection.receiver.heardTo →
      (q.connection.step op).2.queue ≠ []) := by
  rcases heardBy_cases heard with ⟨rfl, noSegment⟩ | ⟨segment, rfl, first⟩
  · obtain ⟨asked, fed, performs⟩ := act_performs steady.ready op
    have nothing : fed = [] := by
      rcases performs.carries.fed_calm calm with nothing | ⟨segment, received, _⟩
      · exact nothing
      · exact absurd received (noSegment segment)
    rw [performs.receiver, nothing]
    exact ⟨⟨streams.follows, streams.inStep⟩, streams.successive, Nat.le_refl _,
      fun beyond => absurd beyond (Nat.lt_irrefl _)⟩
  · obtain ⟨follows, inStep, position⟩ := streams.hear steady calm first said room short
    have successive := streams.successive
    rw [first] at successive
    refine ⟨⟨follows, inStep⟩, ?_, by omega, fun beyond => ?_⟩
    · rw [position]
      exact successive.2.2
    · have active : q.connection.active = true := by
        by_contra inactive
        have empty := streams.space_of_deaf steady first (.inl (eq_false_of_ne_true inactive))
        omega
      have synced : (q.act (.receive segment)).connection.receiver.isn.isSome = true := by
        by_contra unsynced
        have nowhere : (q.act (.receive segment)).connection.receiver.heardTo = 0 := if_neg unsynced
        omega
      exact Connection.receive_queue_ne_nil steady.sound active calm (by omega) synced

theorem Steady.reports_queued (steady : q.Steady) {t : Transcript} {taken : Bytes} {before : Nat}
    (follows : (q.act op).connection.receiver.Follows t taken)
    (grown : before ≤ (q.act op).connection.receiver.heardTo)
    (answers : before < (q.act op).connection.receiver.heardTo →
      (q.connection.step op).2.queue ≠ []) :
    Reports t.isn before (q.connection.step op).2.queue
      (q.act op).connection.receiver.heardTo := by
  obtain ⟨asked, fed, performs⟩ := act_performs steady.ready op
  have queue : (q.connection.step op).2.queue =
      (q.connection.sender.run asked).queue.map (q.act op).connection.stamp :=
    List.append_cancel_left performs.sent
  have bare := (steady.faithful.run fun request member =>
    (performs.carries.warrants request member).leaves).1.queued
  rw [queue] at answers ⊢
  generalize (q.act op).connection = after at *
  cases synced : after.receiver.isn with
  | some isn =>
    obtain ⟨rfl, _⟩ := follows.synced isn synced
    have stands : after.receiver.heardTo = after.receiver.ackPosition :=
      if_pos (by rw [synced]; rfl)
    apply Reports.of_told ?_ grown ?_ answers
    · rw [stands, Receiver.ackPosition]
      omega
    · intro segment member
      obtain ⟨plain, queued, rfl⟩ := List.mem_map.mp member
      rw [after.stamp_ack (bare plain queued).2, after.stamp_ackno plain synced, synced, stands]
      exact ⟨rfl, rfl⟩
  | none =>
    have nowhere : after.receiver.heardTo = 0 := if_neg (by simp [synced])
    have start : before = after.receiver.heardTo := by omega
    rw [start]
    apply Reports.of_silent
    intro segment member
    obtain ⟨plain, queued, rfl⟩ := List.mem_map.mp member
    rw [after.stamp_ack (bare plain queued).2, synced]
    rfl

theorem Streams.listen (streams : p.Streams q way back) (steady : q.Steady) (calm : op.Calm)
    (said : p.connection.sender.Faithful p.accepted)
    (heard : way = heardBy op ++ left)
    (room : p.accepted.length ≤ q.connection.inbound.capacity)
    (short : p.accepted.length < 0x80000000) :
    p.Streams (q.act op) left (back ++ (q.connection.step op).2.queue) := by
  obtain ⟨⟨follows, inStep⟩, successive, grown, answers⟩ :=
    streams.listen_grows steady calm said heard room short
  refine ⟨successive, ?_, inStep, ?_⟩
  · rw [taken_act calm]
    exact follows
  · exact streams.reports.append (steady.reports_queued follows grown answers)

end Party

end Simulation

end NetStack
