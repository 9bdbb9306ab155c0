import NetStack.Proofs.Tcp.Advertising
import NetStack.Proofs.Tcp.Arrivals
import NetStack.Proofs.Tcp.Closing
import NetStack.Proofs.Tcp.Linger
import NetStack.Proofs.Tcp.Marks

namespace NetStack.Tcp

namespace Sender

variable {s : Sender}

theorem acknowledge_acked (s : Sender) (ackno : SeqNo) (window : UInt16) :
    (s.acknowledge ackno window).acked =
      if ackno.positionNear s.isn s.acked ≤ s.next then max s.acked (ackno.positionNear s.isn s.acked)
      else s.acked := by
  rcases s.acknowledge_cases ackno window rfl with
    ⟨unsent, same⟩ | ⟨sent, stale, told⟩ | ⟨sent, news, retired⟩
  · rw [same, if_neg (Nat.not_le_of_lt unsent)]
  · rw [told, if_pos sent]
    exact (Nat.max_eq_left stale).symm
  · rw [retired, if_pos sent, (s.retire _ window).transmit_keeps.1]
    exact (Nat.max_eq_right (Nat.le_of_lt news)).symm

theorem Emits.failed {after : Sender} (emits : Emits s after) :
    after.stream.failed = s.stream.failed := by
  cases emits with
  | syn | fin => rfl
  | chunk => exact ByteStream.failed_pop _ _

theorem transmit_failed (s : Sender) : s.transmit.stream.failed = s.stream.failed :=
  transmit_induction (P := fun after => after.stream.failed = s.stream.failed) rfl
    fun _ _ emits soFar => emits.failed.trans soFar

theorem failed_step (op : Op) (failed : s.stream.failed = true) :
    (s.step op).2.stream.failed = true := by
  cases op with
  | transmit => exact s.transmit_failed.trans failed
  | acknowledge ackno window =>
    show (s.acknowledge ackno window).stream.failed = true
    rcases s.acknowledge_cases ackno window rfl with ⟨_, same⟩ | ⟨_, _, told⟩ | ⟨_, _, retired⟩
    · rw [same]
      exact failed
    · rw [told]
      exact failed
    · rw [retired, transmit_failed]
      exact failed
  | tick span =>
    rcases s.tick_eq span with ⟨again, timer, _, ticked⟩
    show (s.tick span).stream.failed = true
    rw [ticked]
    exact failed
  | sendEmpty | sendReset => exact failed
  | input op =>
    cases op with
    | write data => exact (s.stream.failed_write data).trans failed
    | read | readInto | pop | peek | peekInto | endInput => exact failed
    | fail => rfl

theorem failed_run (ops : List Op) (failed : s.stream.failed = true) :
    (s.run ops).stream.failed = true := by
  induction ops generalizing s with
  | nil => exact failed
  | cons op rest ih => exact ih (failed_step op failed)

/-- The order in which the states are passed. -/
def State.rank : State → Nat
  | closed => 0
  | synSent => 1
  | synAcked => 2
  | finSent => 3
  | finAcked => 4
  | failed => 5

theorem Faithful.rank_state {accepted : Bytes} (faithful : s.Faithful accepted)
    (accounted : s.Accounted) :
    s.state.rank = if s.stream.failed then 5 else if s.next = 0 then 0 else if s.acked = 0 then 1
      else if s.next < s.endPosition then 2 else if s.acked < s.endPosition then 3 else 4 := by
  rw [faithful.state_eq accounted]
  repeat' split
  all_goals rfl

end Sender

/-- The order in which the states are passed. -/
def Receiver.State.rank : Receiver.State → Nat
  | listen => 0
  | synReceived => 1
  | finReceived => 2
  | failed => 3

theorem Receiver.state_iff {r : Receiver} (unfailed : r.stream.failed = false) :
    (r.state = .listen ↔ ¬ r.isn.isSome = true) ∧
    (r.state = .finReceived ↔ r.isn.isSome = true ∧ r.stream.inputEnded = true) ∧
    (r.state = .synReceived ↔ r.isn.isSome = true ∧ ¬ r.stream.inputEnded = true) := by
  unfold state
  rw [unfailed]
  cases r.isn <;> cases r.stream.inputEnded <;> simp

theorem Receiver.rank_state (r : Receiver) :
    r.state.rank = if r.stream.failed then 3 else if r.isn.isNone then 0
      else if r.stream.inputEnded then 2 else 1 := by
  unfold state
  repeat' split
  all_goals rfl

theorem Receiver.Progresses.rank_le {before after : Receiver} (progresses : before.Progresses after) :
    before.state.rank ≤ after.state.rank := by
  have failed := progresses.failed
  have ended := progresses.inputEnded
  have synced : after.isn.isNone = true → before.isn.isNone = true := by
    intro unsynced
    cases known : before.isn with
    | none => rfl
    | some isn =>
      rw [progresses.isn (by rw [known]; rfl), known] at unsynced
      cases unsynced
  rw [before.rank_state, after.rank_state]
  grind

namespace Connection

variable {c : Connection} {op : Op} {reply : Reply} {asked : List Sender.Op}
  {fed : List Receiver.Op}

theorem Carries.announces (carries : c.Carries op reply asked fed) {accepted : Bytes}
    (faithful : c.sender.Faithful accepted) :
    (c.sender.next = 0 → (c.sender.run asked).next ≠ 0 →
      ∃ segment ∈ (c.sender.run asked).queue, segment.flags.syn = true) ∧
    (¬ c.sender.Finished → (c.sender.run asked).Finished →
      ∃ segment ∈ (c.sender.run asked).queue, segment.flags.fin = true) := by
  have warrants := carries.warrants
  have plain (noReset : .sendReset ∉ asked) : c.sender.Announces (c.sender.run asked) :=
    faithful.run_announces (fun request member => (warrants request member).leaves) noReset
  cases carries with
  | @giveUp span =>
    rcases c.sender.tick_eq span with ⟨again, timer, _, ticked⟩
    have kept : (c.sender.run [.tick span, .input .fail, .sendReset]).next = c.sender.next ∧
        (c.sender.run [.tick span, .input .fail, .sendReset]).endPosition = c.sender.endPosition := by
      show (c.sender.tick span).next = _ ∧ (c.sender.tick span).stream.totalWritten + 2 = _
      rw [ticked]
      exact ⟨rfl, rfl⟩
    unfold Sender.Finished
    rw [kept.1, kept.2]
    exact ⟨fun unopened opened => absurd unopened opened,
      fun unfinished finished => absurd finished unfinished⟩
  | abort =>
    exact ⟨fun unopened opened => absurd unopened opened,
      fun unfinished finished => absurd finished unfinished⟩
  | ignored | deaf | connect | reset | tick | read =>
    have announces := plain (by simp)
    exact ⟨announces.syn, announces.fin⟩
  | write | finish | receive =>
    have announces := plain fun member => by
      rcases warrants _ member with aborts | ⟨span, ticks⟩
      · cases aborts
      · cases ticks
    exact ⟨announces.syn, announces.fin⟩

/-- The acknowledgement that the operation brings, unless it is of something that was not sent. -/
def acknowledgedBy (c : Connection) : Op → List Nat
  | .receive segment =>
    let position := segment.ackno.positionNear c.sender.isn c.sender.acked
    if c.active && segment.acknowledges && decide (position ≤ (c.openFor segment).sender.next) then
      [position]
    else []
  | _ => []

theorem answerOps_acked (c : Connection) (segment : Segment) :
    (c.sender.run (c.answerOps segment)).acked =
      if segment.flags.ack ∧ segment.ackno.positionNear c.sender.isn c.sender.acked ≤
        (c.openFor segment).sender.next
      then max c.sender.acked (segment.ackno.positionNear c.sender.isn c.sender.acked)
      else c.sender.acked := by
  have opened : (c.openFor segment).sender.acked = c.sender.acked ∧
      (c.openFor segment).sender.isn = c.sender.isn := by
    unfold openFor
    split
    · exact ⟨c.sender.transmit_keeps.1, c.sender.transmit_advances.isn⟩
    · exact ⟨rfl, rfl⟩
  have opens : c.sender.run (c.openingOps segment) = (c.openFor segment).sender := by
    rw [openFor_eq]
  unfold answerOps
  rw [Sender.run_append, opens]
  cases segment.flags.ack with
  | false => simp [Sender.run, opened.1]
  | true =>
    have told := (c.openFor segment).sender.acknowledge_acked segment.ackno segment.window
    rw [opened.1, opened.2] at told
    simp only [if_true, true_and]
    rw [← told]
    split
    · rfl
    · exact (Sender.transmit_keeps _).1

theorem acknowledgedBy_of_deaf {segment : Segment}
    (waits : c.active = false ∨ c.isListening = true ∧ segment.flags.syn = false) :
    ∀ acknowledged ∈ c.acknowledgedBy (.receive segment), acknowledged = 0 := by
  intro acknowledged member
  unfold acknowledgedBy at member
  rw [List.mem_ite_nil_right, List.mem_singleton] at member
  rcases member with ⟨heard, rfl⟩
  simp only [Bool.and_eq_true, decide_eq_true_eq] at heard
  rcases waits with inactive | ⟨listens, noSyn⟩
  · simp [inactive] at heard
  · simp only [isListening, isUnopened, Bool.and_eq_true, beq_iff_eq] at listens
    have sent := heard.2
    simp only [openFor, noSyn, Bool.false_and, Bool.false_eq_true, if_false, listens.2] at sent
    omega

theorem acked_of_carries (carries : c.Carries op reply asked fed) (position : Nat) :
    position ≤ (c.sender.run asked).acked ↔
      position ≤ c.sender.acked ∨ ∃ acknowledged ∈ c.acknowledgedBy op, position ≤ acknowledged := by
  have silent (others : ∀ segment, op ≠ .receive segment) :
      position ≤ (c.sender.run asked).acked ↔ position ≤ c.sender.acked ∨
        ∃ acknowledged ∈ c.acknowledgedBy op, position ≤ acknowledged := by
    have quiet : Sender.Quiet asked := by
      intro ackno window member
      rcases carries.warrants _ member with ⟨segment, received, _⟩
      exact others segment received
    have nothing : c.acknowledgedBy op = [] := by
      cases op with
      | receive segment => exact absurd rfl (others segment)
      | connect | write | finish | tick | abort | read | dispatch | wait => rfl
    rw [(Sender.quiet_run quiet).1, nothing]
    simp
  cases carries with
  | ignored _ _ noSegment => exact silent noSegment
  | connect | write | finish | tick | giveUp | abort | read => exact silent (by simp)
  | deaf waits =>
    have stale := acknowledgedBy_of_deaf waits
    constructor
    · exact .inl
    · rintro (already | ⟨acknowledged, member, reached⟩)
      · exact already
      · rw [stale acknowledged member] at reached
        exact Nat.le_trans reached (Nat.zero_le _)
  | @reset segment _ rst =>
    show position ≤ c.sender.acked ↔ _
    simp [acknowledgedBy, Segment.acknowledges, rst]
  | @receive segment closing active plain bare =>
    have closes : Sender.Quiet closing := by
      intro ackno window member
      cases bare _ member
    rw [Sender.run_append, (Sender.quiet_run closes).1, answerOps_acked]
    cases ack : segment.flags.ack with
    | false => simp [acknowledgedBy, Segment.acknowledges, ack]
    | true =>
      by_cases sent : segment.ackno.positionNear c.sender.isn c.sender.acked ≤
          (c.openFor segment).sender.next
      · simp [acknowledgedBy, Segment.acknowledges, active, plain, ack, sent]
      · simp [acknowledgedBy, Segment.acknowledges, ack, sent]

theorem established_abort (c : Connection) : c.abort.established = c.established := by
  unfold Connection.abort
  split <;> rfl

theorem established_answer (c : Connection) (segment : Segment) :
    (c.answer segment).established = (c.established || segment.flags.ack) := by
  rcases c.answer_eq segment with ⟨_, _, answer⟩
  rw [answer]

theorem established_of_step (established : c.established = true) (op : Op) :
    (c.step op).2.established = true := by
  cases op with
  | connect =>
    rw [step_connect]
    split <;> exact established
  | write data =>
    rw [step_write]
    split
    · dsimp only
      split <;> exact established
    · exact established
  | finish =>
    show c.finish.established = true
    unfold Connection.finish
    dsimp only
    split <;> exact established
  | receive segment =>
    show (c.receive segment).established = true
    unfold Connection.receive
    split
    · exact established
    · split
      · exact established
      · show (answer _ segment).established = true
        rw [established_answer]
        exact Bool.or_eq_true_iff.mpr (.inl established)
  | tick span =>
    show (c.tick span).established = true
    unfold Connection.tick
    split
    · dsimp only
      split
      · rw [established_abort]
        exact established
      · exact established
    · exact established
  | abort => exact c.established_abort.trans established
  | read | dispatch | wait => exact established

theorem established_of_acknowledgedBy {acknowledged : Nat} (member : acknowledged ∈ c.acknowledgedBy op)
    (positive : acknowledged ≠ 0) : (c.step op).2.established = true := by
  cases op with
  | receive segment =>
    have heeded : ¬ (c.active = false ∨ c.isListening = true ∧ segment.flags.syn = false) :=
      fun waits => positive (acknowledgedBy_of_deaf waits acknowledged member)
    unfold acknowledgedBy at member
    rw [List.mem_ite_nil_right] at member
    have heard := member.1
    simp only [Bool.and_eq_true, Segment.acknowledges] at heard
    have plain : segment.flags.rst = false := by simpa using heard.1.2.2
    show (c.receive segment).established = true
    unfold Connection.receive
    rw [if_neg (by simpa using heeded), if_neg (by simp [plain])]
    show (answer _ segment).established = true
    rw [established_answer, heard.1.2.1, Bool.or_true]
  | connect | write | finish | tick | abort | read | dispatch | wait => cases member

structure Traced (c : Connection) : Prop where
  sound : c.Sound
  proper : c.sender.Proper
  concluded : c.Concluded
  established : c.sender.acked ≠ 0 → c.established = true

theorem ofStorage_traced (config : Config) (inbound outbound : Array UInt8) :
    (ofStorage config inbound outbound).Traced where
  sound := ofStorage_sound config inbound outbound
  proper := Sender.ofStream_proper _ _ _ _
  concluded := concluded_of_active rfl
  established := by simp [ofStorage, Sender.ofStream]

theorem acked_step (sound : c.Sound) (op : Op) (position : Nat) :
    position ≤ (c.step op).2.sender.acked ↔
      position ≤ c.sender.acked ∨ ∃ acknowledged ∈ c.acknowledgedBy op, position ≤ acknowledged := by
  rcases c.step_carries op sound.ready with ⟨asked, fed, carries, does⟩
  rw [does.sender]
  exact acked_of_carries carries position

theorem Traced.step (traced : c.Traced) (op : Op) : (c.step op).2.Traced := by
  rcases c.step_carries op traced.sound.ready with ⟨asked, fed, carries, does⟩
  refine ⟨traced.sound.step op, ?_, traced.concluded.step op, ?_⟩
  · rw [does.sender]
    have proper := traced.proper.run asked
    exact ⟨proper.plain, by simp, proper.answered⟩
  · intro answered
    rcases (acked_step traced.sound op 1).mp (Nat.one_le_iff_ne_zero.mpr answered) with
      already | ⟨acknowledged, member, positive⟩
    · exact established_of_step (traced.established (Nat.one_le_iff_ne_zero.mp already)) op
    · exact established_of_acknowledgedBy member (Nat.one_le_iff_ne_zero.mp positive)

theorem Traced.run (traced : c.Traced) (ops : List Op) : (c.run ops).Traced := by
  induction ops generalizing c with
  | nil => exact traced
  | cons op rest ih => exact ih (traced.step op)

theorem Traced.marks_step (traced : c.Traced) (op : Op) :
    ((c.step op).2.sender.next ≠ 0 ↔
      c.sender.next ≠ 0 ∨ ∃ segment ∈ c.queuedBy op, segment.flags.syn = true) ∧
    ((c.step op).2.sender.Finished ↔
      c.sender.Finished ∨ ∃ segment ∈ c.queuedBy op, segment.flags.fin = true) := by
  rcases c.step_carries op traced.sound.ready with ⟨asked, fed, carries, does⟩
  rcases traced.sound.faithful with ⟨accepted, faithful⟩
  have leave := fun request member => (carries.warrants request member).leaves
  have announces := carries.announces faithful
  have proper := traced.proper.run asked
  have later := (faithful.run leave).1
  have further := (c.sender.run_advances asked).next
  rw [does.queuedBy, does.sender]
  simp only [List.mem_map]
  constructor
  · constructor
    · intro opened
      by_cases before : c.sender.next = 0
      · rcases announces.1 before opened with ⟨segment, queued, syn⟩
        exact .inr ⟨_, ⟨segment, queued, rfl⟩, by simpa using syn⟩
      · exact .inl before
    · rintro (opened | ⟨_, ⟨segment, queued, rfl⟩, syn⟩)
      · omega
      · exact (proper.marks later queued).1 (by simpa using syn)
  · constructor
    · intro finished
      by_cases before : c.sender.Finished
      · exact .inl before
      · rcases announces.2 before finished with ⟨segment, queued, fin⟩
        exact .inr ⟨_, ⟨segment, queued, rfl⟩, by simpa using fin⟩
    · rintro (finished | ⟨_, ⟨segment, queued, rfl⟩, fin⟩)
      · exact (faithful.finished_run leave finished).1
      · exact (proper.marks later queued).2 (by simpa using fin)

def SynSent (c : Connection) (ops : List Op) : Prop :=
  ∃ entry ∈ c.journal ops, entry.segment.flags.syn = true

def FinSent (c : Connection) (ops : List Op) : Prop :=
  ∃ entry ∈ c.journal ops, entry.segment.flags.fin = true

def Acknowledged (c : Connection) (ops : List Op) (position : Nat) : Prop :=
  ∃ acknowledged ∈ gather acknowledgedBy c ops, position ≤ acknowledged

theorem Traced.synSent_iff (traced : c.Traced) (unopened : c.sender.next = 0) (ops : List Op) :
    (c.run ops).sender.next ≠ 0 ↔ c.SynSent ops := by
  have tracks := gather_tracks entriesBy c (I := Traced) (P := fun current => current.sender.next ≠ 0)
    (Q := fun entry => entry.segment.flags.syn = true) (fun _ op before => before.step op)
    (fun _ op before => by simp [(before.marks_step op).1, entriesBy]) traced ops
  rw [tracks]
  exact or_iff_right (not_not.mpr unopened)

theorem Traced.finSent_iff (traced : c.Traced) (unopened : c.sender.next = 0) (ops : List Op) :
    (c.run ops).sender.Finished ↔ c.FinSent ops := by
  have tracks := gather_tracks entriesBy c (I := Traced) (P := fun current => current.sender.Finished)
    (Q := fun entry => entry.segment.flags.fin = true) (fun _ op before => before.step op)
    (fun _ op before => by simp [(before.marks_step op).2, entriesBy]) traced ops
  have unfinished : ¬ c.sender.Finished := by
    unfold Sender.Finished Sender.endPosition
    omega
  rw [tracks]
  exact or_iff_right unfinished

theorem Traced.acknowledged_iff (traced : c.Traced) (unanswered : c.sender.acked = 0) {position : Nat}
    (positive : 0 < position) (ops : List Op) :
    position ≤ (c.run ops).sender.acked ↔ c.Acknowledged ops position := by
  have tracks := gather_tracks acknowledgedBy c (I := Traced)
    (P := fun current => position ≤ current.sender.acked) (Q := fun acknowledged => position ≤ acknowledged)
    (fun _ op before => before.step op) (fun _ op before => acked_step before.sound op position)
    traced ops
  rw [tracks]
  exact or_iff_right (by omega)

theorem Traced.sender_rank_le (traced : c.Traced) (op : Op) :
    c.sender.state.rank ≤ (c.step op).2.sender.state.rank := by
  have later := traced.step op
  rcases c.step_carries op traced.sound.ready with ⟨asked, fed, carries, does⟩
  rcases traced.sound.faithful with ⟨accepted, faithful⟩
  rcases later.sound.faithful with ⟨given, still⟩
  have leave := fun request member => (carries.warrants request member).leaves
  have failed : c.sender.stream.failed = true → (c.step op).2.sender.stream.failed = true := by
    rw [does.sender]
    exact Sender.failed_run asked
  have ended : c.sender.Finished → (c.step op).2.sender.endPosition = c.sender.endPosition := by
    rw [does.sender]
    exact fun finished => (faithful.finished_run leave finished).2
  have advances : c.sender.acked ≤ (c.step op).2.sender.acked ∧
      c.sender.next ≤ (c.step op).2.sender.next := by
    rw [does.sender]
    exact ⟨(c.sender.run_advances asked).acked, (c.sender.run_advances asked).next⟩
  have before := traced.sound.accounted.acked_le
  have after := later.sound.accounted.acked_le
  rw [faithful.rank_state traced.sound.accounted, still.rank_state later.sound.accounted]
  unfold Sender.Finished at ended
  grind

theorem Traced.rank_le_run (traced : c.Traced) (ops : List Op) :
    c.sender.state.rank ≤ (c.run ops).sender.state.rank ∧
      c.receiver.state.rank ≤ (c.run ops).receiver.state.rank := by
  refine ⟨?_, (run_progresses traced.sound ops).rank_le⟩
  induction ops generalizing c with
  | nil => exact Nat.le_refl _
  | cons op rest ih => exact Nat.le_trans (traced.sender_rank_le op) (ih (traced.step op))

theorem isn_iff (traced : c.Traced) (fresh : c.receiver.isn = none) {ops : List Op}
    (unfailed : (c.run ops).inbound.failed = false) :
    (c.run ops).receiver.isn.isSome = true ↔ BringSyn ops := by
  have last := traced.run ops
  constructor
  · intro synced
    rcases bringSyn_of_isn traced.sound synced with early | brings
    · simp [fresh] at early
    · exact brings
  · intro brings
    by_cases active : (c.run ops).active = true
    · exact isn_of_bringSyn traced.sound active brings
    · rcases last.concluded (eq_false_of_ne_true active) with ⟨failed, _⟩ | ⟨complete, _⟩
      · simp [unfailed] at failed
      · exact last.sound.synced (inputEnded_of_complete complete)

theorem Traced.established_of_state (traced : c.Traced)
    (state : c.state ∈ [State.established, .finWait1, .finWait2, .closeWait, .closing, .lastAck, .timeWait]) :
    c.established = true := by
  rcases traced.sound.faithful with ⟨accepted, faithful⟩
  apply traced.established
  intro unanswered
  have sending : c.sender.state = .failed ∨ c.sender.state = .closed ∨ c.sender.state = .synSent := by
    rw [faithful.state_eq traced.sound.accounted, unanswered]
    grind
  unfold Connection.state at state
  generalize c.receiver.state = receiving at state
  generalize c.active = active at state
  rcases sending with failed | closed | synSent
  · rw [failed] at state
    simp at state
  · rw [closed] at state
    cases receiving <;> cases active <;> simp at state
  · rw [synSent] at state
    cases receiving <;> cases active <;> simp at state

/-- As long as neither stream has failed, the states of the two halves say what has been sent, what
    has been acknowledged and what has arrived; they never go back; and where the connection counts
    as open in both directions, it has heard from its peer that it is. Whether the stream has ended
    is told from where it is assembled up to, if what arrives is of one mind about that. -/
theorem state_recounts (config : Config) (inbound outbound : Array UInt8) (ops : List Op) :
    let start := ofStorage config inbound outbound
    let last := start.run ops
    last.inbound.failed = false → last.outbound.failed = false →
    (last.sender.state = .closed ↔ ¬ start.SynSent ops) ∧
    (last.sender.state = .synSent ↔ start.SynSent ops ∧ ¬ start.Acknowledged ops 1) ∧
    (last.sender.state = .synAcked ↔ start.Acknowledged ops 1 ∧ ¬ start.FinSent ops) ∧
    (last.sender.state = .finSent ↔
      start.FinSent ops ∧ ¬ start.Acknowledged ops (last.outbound.totalWritten + 2)) ∧
    (last.sender.state = .finAcked ↔ start.Acknowledged ops (last.outbound.totalWritten + 2)) ∧
    (last.receiver.state = .listen ↔ ¬ BringSyn ops) ∧
    (last.receiver.state = .finReceived →
      BringSyn ops ∧ ⟨last.inbound.totalWritten, true⟩ ∈ start.arrivals ops) ∧
    (∀ stop, (∃ arrival ∈ start.arrivals ops, arrival.isLast = true) →
      (∀ arrival ∈ start.arrivals ops,
        arrival.stop ≤ stop ∧ (arrival.isLast = true → arrival.stop = stop)) →
      (last.receiver.state = .finReceived ↔ BringSyn ops ∧ last.inbound.totalWritten = stop)) ∧
    (last.receiver.state = .synReceived ↔ BringSyn ops ∧ last.receiver.state ≠ .finReceived) ∧
    (∀ passed, passed <+: ops →
      (start.run passed).sender.state.rank ≤ last.sender.state.rank ∧
      (start.run passed).receiver.state.rank ≤ last.receiver.state.rank) ∧
    (last.state ∈ [State.established, .finWait1, .finWait2, .closeWait, .closing, .lastAck,
      .timeWait] → last.established = true) := by
  intro start last heard unsent
  have begins : start.Traced := ofStorage_traced config inbound outbound
  have traced : last.Traced := begins.run ops
  rcases traced.sound.faithful with ⟨accepted, faithful⟩
  rcases traced.proper.state_iff faithful traced.sound.accounted unsent with
    ⟨closed, synSent, synAcked, finSent, finAcked⟩
  have opened := begins.synSent_iff rfl ops
  have finished := begins.finSent_iff rfl ops
  have answered := begins.acknowledged_iff rfl Nat.one_pos ops
  have through := begins.acknowledged_iff rfl (Nat.succ_pos (last.outbound.totalWritten + 1)) ops
  have synced := isn_iff begins rfl heard
  have recounts := arrivals_recount begins.sound (Reassembler.ofStorage_recounts inbound) ops
  rw [List.nil_append] at recounts
  have whole : last.receiver.reassembler.next = last.inbound.totalWritten := traced.sound.tidy.next_eq
  rcases Receiver.state_iff heard with ⟨listen, finReceived, synReceived⟩
  rw [synced] at listen finReceived synReceived
  refine ⟨?_, ?_, ?_, ?_, ?_, listen, ?_, ?_, ?_, ?_, traced.established_of_state⟩
  · rw [closed, opened]
  · rw [synSent, opened, answered]
  · rw [synAcked, answered, finished]
  · rw [finSent, finished]
    exact and_congr_right fun _ => not_congr through
  · rw [finAcked]
    exact through
  · intro received
    rcases finReceived.mp received with ⟨brings, ended⟩
    refine ⟨brings, ?_⟩
    rw [← whole]
    exact recounts.ended ended
  · intro stop marked agreed
    rw [finReceived, ← whole]
    exact and_congr_right fun _ => recounts.ended_iff traced.sound.tidy marked agreed
  · rw [synReceived, Ne, finReceived, not_and]
    exact ⟨fun open_end => ⟨open_end.1, fun _ => open_end.2⟩,
      fun open_end => ⟨open_end.1, open_end.2 open_end.1⟩⟩
  · rintro passed ⟨rest, rfl⟩
    have later := (begins.run passed).rank_le_run rest
    rw [← run_append] at later
    exact later

/-- The peer opens, this side closes, and the peer acknowledges that together with its own FIN. -/
def parting : List Op :=
  [.receive { seqno := ⟨0⟩, flags := { syn := true }, window := 4 }, .finish,
    .receive { seqno := ⟨1⟩, ackno := ⟨1⟩, flags := { ack := true }, window := 4 },
    .receive { seqno := ⟨1⟩, ackno := ⟨2⟩, flags := { ack := true, fin := true }, window := 4 }]

theorem state_recounts_parting :
    let last := small.run parting
    last.inbound.failed = false ∧ last.outbound.failed = false ∧ last.state = .timeWait ∧
      small.Acknowledged parting 2 ∧ BringSyn parting ∧ ⟨0, true⟩ ∈ small.arrivals parting ∧
      last.established = true := by
  intro last
  have heard : last.inbound.failed = false := by decide +kernel
  have unsent : last.outbound.failed = false := by decide +kernel
  have state : last.state = .timeWait := by decide +kernel
  rcases state_recounts { receiveCapacity := 4, sendCapacity := 4, isn := some ⟨0⟩ }
    (Array.replicate 4 0) (Array.replicate 4 0) parting heard unsent with
    ⟨_, _, _, _, finAcked, _, finReceived, _, _, _, established⟩
  have through : small.Acknowledged parting 2 := finAcked.mp (by decide +kernel)
  rcases finReceived (by decide +kernel) with ⟨brings, arrives⟩
  refine ⟨heard, unsent, state, through, brings, arrives, established ?_⟩
  show last.state ∈ _
  rw [state]
  decide

/-- The peer opens, sends a byte that lies behind its end, and closes: its FIN comes where the
    stream is assembled up to. -/
def straying : List Op :=
  [.receive { seqno := ⟨0⟩, flags := { syn := true }, window := 4 },
    .receive { seqno := ⟨2⟩, ackno := ⟨1⟩, flags := { ack := true }, window := 4, payload := [9] },
    .receive { seqno := ⟨1⟩, ackno := ⟨1⟩, flags := { ack := true, fin := true }, window := 4 }]

/-- The byte behind the end keeps the stream open, and the FIN is not acknowledged. -/
theorem straying_not_finReceived :
    let last := small.run straying
    last.inbound.failed = false ∧ last.outbound.failed = false ∧ BringSyn straying ∧
      ⟨last.inbound.totalWritten, true⟩ ∈ small.arrivals straying ∧
      last.receiver.state = .synReceived ∧ last.state = .established ∧
      last.receiver.ackPosition = 1 := by
  intro last
  refine ⟨?_, ?_, ⟨_, List.mem_cons_self, rfl⟩, ?_, ?_, ?_, ?_⟩
  all_goals decide +kernel

end Connection

end NetStack.Tcp
