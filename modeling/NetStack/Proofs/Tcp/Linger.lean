import NetStack.Proofs.Tcp.Flow
import NetStack.Proofs.Tcp.InboundEnd

namespace NetStack.Tcp.Connection

def Complete (c : Connection) : Prop := c.inboundComplete = true ∧ c.outboundComplete = true

instance (c : Connection) : Decidable c.Complete := inferInstanceAs (Decidable (_ ∧ _))

/-- The peer has ended its stream while this side still had something to send or to say. -/
def HearsEndFirst (c : Connection) : Prop :=
  c.inbound.inputEnded = true ∧ c.outbound.atEnd = false

instance (c : Connection) : Decidable c.HearsEndFirst := inferInstanceAs (Decidable (_ ∧ _))

inductive Turns (c : Connection) : Connection → Prop
  | settled {current : Connection} (active : current.active = true)
      (lingers : current.lingers = c.lingers) (timeout : current.timeout = c.timeout) :
      Turns c current.settle
  | torn {after : Connection} (inactive : after.active = false)
      (failed : after.inbound.failed = true) (timeout : after.timeout = c.timeout) : Turns c after
  | kept {after : Connection} (active : after.active = true) (lingers : after.lingers = c.lingers)
      (idle : after.idle = c.idle) (timeout : after.timeout = c.timeout)
      (ended : after.inbound.inputEnded = c.inbound.inputEnded)
      (complete : after.Complete → c.Complete) : Turns c after

variable {c : Connection}

theorem not_complete_of_unended {after : Connection} (open_end : after.outbound.inputEnded = false) :
    ¬ after.Complete := by
  rintro ⟨_, complete⟩
  simp [outboundComplete, ByteStream.atEnd, open_end] at complete

theorem not_complete_of_opening {after : Connection} (opening : after.sender.next ≤ 1) :
    ¬ after.Complete := by
  rintro ⟨_, complete⟩
  simp only [outboundComplete, Sender.endPosition, Bool.and_eq_true, beq_iff_eq] at complete
  omega

theorem connect_turns (sound : c.Sound) (active : c.active = true) :
    c.Turns (c.step .connect).2 := by
  rw [step_connect]
  split
  · rename_i allowed
    have unopened : c.sender.next = 0 := by
      simpa [isUnopened, active] using allowed
    have unanswered : c.sender.acked = 0 := by
      have bound := sound.accounted.acked_le
      omega
    have next : c.sender.transmit.next = 1 := by
      unfold Sender.transmit
      simp only [unopened, if_true, Sender.send_acked, unanswered]
      rw [Sender.send_next, unopened]
      rfl
    refine .kept active rfl rfl rfl rfl ?_
    intro complete
    exact absurd complete (not_complete_of_opening (Nat.le_of_eq next))
  · exact .kept active rfl rfl rfl rfl id

theorem write_turns (active : c.active = true) (data : Bytes) :
    c.Turns (c.step (.write data)).2 := by
  rw [step_write]
  split
  · rename_i allowed
    have open_end : c.outbound.inputEnded = false := by
      simp only [Bool.and_eq_true, Bool.not_eq_true'] at allowed
      exact allowed.1.2
    have written : (c.outbound.write data).2.inputEnded = false := by
      rw [ByteStream.inputEnded_write]
      exact open_end
    dsimp only
    split
    · refine .kept active rfl rfl rfl rfl ?_
      intro complete
      exact absurd complete (not_complete_of_unended written)
    · refine .kept active rfl rfl rfl rfl ?_
      intro complete
      refine absurd complete (not_complete_of_unended ?_)
      exact (Sender.transmit_keeps _).2.2.trans written
  · exact .kept active rfl rfl rfl rfl id

theorem finish_turns (active : c.active = true) : c.Turns c.finish := by
  unfold Connection.finish
  dsimp only
  split
  · exact .settled active rfl rfl
  · rename_i waits
    have unopened : c.sender.next = 0 := by
      simpa [isUnopened, active] using waits
    refine .kept active rfl rfl rfl rfl ?_
    intro complete
    refine absurd complete (not_complete_of_opening ?_)
    show c.sender.next ≤ 1
    omega

theorem receive_turns (active : c.active = true) (segment : Segment) :
    c.Turns (c.receive segment) := by
  unfold Connection.receive
  split
  · exact .kept active rfl rfl rfl rfl id
  · split
    · exact .torn rfl rfl rfl
    · obtain ⟨closing, _, answer⟩ := answer_eq
        { c with idle := .zero, receiver := c.receiver.receive segment } segment
      dsimp only
      rw [answer]
      exact .settled active rfl rfl

theorem abort_torn (active : c.active = true) :
    c.abort.active = false ∧ c.abort.inbound.failed = true ∧ c.abort.timeout = c.timeout := by
  unfold Connection.abort
  rw [if_pos active]
  exact ⟨rfl, rfl, rfl⟩

theorem tick_turns (active : c.active = true) (span : Duration) : c.Turns (c.tick span) := by
  unfold Connection.tick
  rw [if_pos active]
  dsimp only
  split
  · obtain ⟨inactive, failed, timeout⟩ := abort_torn (c := { c with
      idle := c.idle + span
      sender := c.sender.tick span }) active
    exact .torn inactive failed timeout
  · exact .settled active rfl rfl

theorem step_turns (sound : c.Sound) (active : c.active = true) (op : Op) :
    c.Turns (c.step op).2 := by
  cases op with
  | connect => exact connect_turns sound active
  | write data => exact write_turns active data
  | finish => exact finish_turns active
  | receive segment => exact receive_turns active segment
  | tick span => exact tick_turns active span
  | abort =>
    obtain ⟨inactive, failed, timeout⟩ := abort_torn active
    exact .torn inactive failed timeout
  | read | dispatch | wait => exact .kept active rfl rfl rfl rfl id

def Waits (c : Connection) : Prop :=
  c.Complete → c.lingers = true ∧ ¬ c.lingerPeriod ≤ c.idle

theorem lingers_settle (c : Connection) :
    c.settle.lingers = (c.lingers && !(c.inboundComplete && !c.outbound.atEnd)) := rfl

theorem active_settle (c : Connection) : c.settle.active =
    (c.active && !(c.inboundComplete && c.outboundComplete &&
      (!c.settle.lingers || decide (c.lingerPeriod ≤ c.idle)))) := rfl

theorem inputEnded_of_complete (complete : c.inboundComplete = true) :
    c.inbound.inputEnded = true := by
  unfold inboundComplete at complete
  exact (Bool.and_eq_true _ _ ▸ complete).2

theorem atEnd_of_complete (complete : c.outboundComplete = true) : c.outbound.atEnd = true := by
  simp only [outboundComplete, Bool.and_eq_true] at complete
  exact complete.1.1

theorem waits_settle (active : c.settle.active = true) : c.settle.Waits := by
  rintro ⟨inbound, outbound⟩
  have inbound : c.inboundComplete = true := inbound
  have outbound : c.outboundComplete = true := outbound
  rw [active_settle, inbound, outbound] at active
  simp only [Bool.and_self, Bool.true_and, Bool.and_eq_true, Bool.not_eq_true',
    Bool.or_eq_false_iff, Bool.not_eq_false', decide_eq_false_iff_not] at active
  exact active.2

theorem waits_step (sound : c.Sound) (waits : c.Waits) {op : Op}
    (active : (c.step op).2.active = true) : (c.step op).2.Waits := by
  have turns := step_turns sound (active_of_step active) op
  generalize (c.step op).2 = after at active turns
  cases turns with
  | settled => exact waits_settle active
  | torn inactive => simp [inactive] at active
  | kept _ lingers idle timeout _ complete =>
    intro done
    unfold lingerPeriod
    rw [lingers, idle, timeout]
    exact waits (complete done)

theorem lingers_step (sound : c.Sound) (before : c.HearsEndFirst → c.lingers = false) {op : Op}
    (active : (c.step op).2.active = true) :
    (c.step op).2.lingers = false ↔ c.lingers = false ∨ (c.step op).2.HearsEndFirst := by
  have turns := step_turns sound (active_of_step active) op
  have ending (open_end : c.inbound.inputEnded = false)
      (ended : (c.step op).2.inbound.inputEnded = true) : (c.step op).2.inboundComplete = true :=
    inboundComplete_of_ended (sound.step op) ended fun stranded =>
      stranded.2 (pending_of_ending sound op open_end ended)
  have drained := drained_step sound op
  generalize (c.step op).2 = after at active turns ending drained
  -- an end that is not new was heard first already, for a drained stream stays drained
  have earlier (hears : after.HearsEndFirst) (already : c.inbound.inputEnded = true) :
      c.lingers = false := by
    apply before
    refine ⟨already, ?_⟩
    by_contra through
    have still := drained (eq_true_of_ne_false through)
    rw [hears.2] at still
    cases still
  cases turns with
  | @settled current _ lingers _ =>
    rw [lingers_settle, lingers]
    constructor
    · intro stops
      cases lingered : c.lingers with
      | false => exact .inl rfl
      | true =>
        simp only [lingered, Bool.true_and, Bool.not_eq_false', Bool.and_eq_true,
          Bool.not_eq_true'] at stops
        exact .inr ⟨inputEnded_of_complete stops.1, stops.2⟩
    · rintro (stopped | hears)
      · rw [stopped]
        rfl
      · cases already : c.inbound.inputEnded with
        | true =>
          rw [earlier hears already]
          rfl
        | false =>
          have complete : current.inboundComplete = true := ending already hears.1
          have through : current.outbound.atEnd = false := hears.2
          rw [complete, through]
          simp
  | torn inactive => simp [inactive] at active
  | kept _ lingers _ _ ended =>
    rw [lingers]
    constructor
    · exact .inl
    · rintro (stopped | hears)
      · exact stopped
      · apply earlier hears
        rw [← ended]
        exact hears.1

/-- How a connection closes: with both streams complete, and not before it has waited, if it has
    to. -/
theorem closing_step (sound : c.Sound) (active : c.active = true) {op : Op}
    (closed : (c.step op).2.active = false) (unfailed : (c.step op).2.inbound.failed = false) :
    (c.step op).2.Complete ∧
      (c.lingers = false ∨ (c.step op).2.lingerPeriod ≤ (c.step op).2.idle) := by
  have turns := step_turns sound active op
  generalize (c.step op).2 = after at closed unfailed turns
  cases turns with
  | @settled current still lingers _ =>
    rw [active_settle, still] at closed
    simp only [Bool.true_and, Bool.not_eq_false', Bool.and_eq_true, Bool.or_eq_true,
      Bool.not_eq_true', decide_eq_true_eq] at closed
    obtain ⟨⟨inbound, outbound⟩, reason⟩ := closed
    refine ⟨⟨inbound, outbound⟩, reason.imp_left ?_⟩
    intro stopped
    rw [lingers_settle, atEnd_of_complete outbound, lingers] at stopped
    simpa using stopped
  | torn _ failed => simp [unfailed] at failed
  | kept still => simp [closed] at still

/-- The time since the last segment, according to the operations. -/
def Op.quietTime (op : Op) (before : Nat) : Nat :=
  match op with
  | .receive _ => 0
  | .tick span => before + span.millis
  | _ => before

def quietTime (ops : List Op) : Nat := ops.foldl (fun quiet op => op.quietTime quiet) 0

theorem idle_receive (active : c.active = true) (segment : Segment)
    (untorn : (c.receive segment).active = true ∨ (c.receive segment).inbound.failed = false)
    (synced : (c.receive segment).receiver.isn.isSome = true) :
    (c.receive segment).idle = .zero := by
  unfold Connection.receive at untorn synced ⊢
  by_cases ignored : (!c.active || (c.isListening && !segment.flags.syn)) = true
  · -- a connection that ignores segments has not heard a SYN
    rw [if_pos ignored] at synced
    have unsynced : c.receiver.ackno?.isNone = true := by
      simp only [active, isListening, Bool.not_true, Bool.false_or, Bool.and_eq_true] at ignored
      exact ignored.1.1
    rw [Receiver.ackno?, Option.isNone_map, Option.isNone_iff_eq_none] at unsynced
    rw [unsynced] at synced
    cases synced
  · rw [if_neg ignored] at untorn ⊢
    by_cases rst : segment.flags.rst = true
    · rw [if_pos rst] at untorn
      rcases untorn with still | unfailed
      · cases still
      · cases unfailed
    · rw [if_neg rst]
      obtain ⟨closing, _, answer⟩ := answer_eq
        { c with idle := .zero, receiver := c.receiver.receive segment } segment
      dsimp only
      rw [answer]
      rfl

theorem idle_tick (active : c.active = true) (span : Duration)
    (untorn : (c.tick span).active = true ∨ (c.tick span).inbound.failed = false) :
    (c.tick span).idle = c.idle + span := by
  unfold Connection.tick at untorn ⊢
  rw [if_pos active] at untorn ⊢
  dsimp only at untorn ⊢
  split
  · rename_i tooMany
    rw [if_pos tooMany] at untorn
    obtain ⟨inactive, failed, _⟩ := abort_torn (c := { c with
      idle := c.idle + span
      sender := c.sender.tick span }) active
    rw [inactive, failed] at untorn
    simp at untorn
  · rfl

theorem idle_step (sound : c.Sound) (active : c.active = true) {op : Op} {quiet : Nat}
    (before : c.receiver.isn.isSome = true → c.idle.millis = min quiet maxMillis)
    (untorn : (c.step op).2.active = true ∨ (c.step op).2.inbound.failed = false)
    (synced : (c.step op).2.receiver.isn.isSome = true) :
    (c.step op).2.idle.millis = min (op.quietTime quiet) maxMillis := by
  have earlier (other : ∀ segment, op ≠ .receive segment) :
      c.idle.millis = min quiet maxMillis := by
    apply before
    rcases receiver_step sound op with same | ⟨segment, heard, _⟩ | failed | ⟨count, read⟩
    · rw [← same]
      exact synced
    · exact absurd heard (other segment)
    · rw [failed] at synced
      exact synced
    · rw [read] at synced
      exact synced
  cases op with
  | receive segment =>
    show (c.receive segment).idle.millis = min 0 maxMillis
    rw [idle_receive active segment untorn synced]
    rfl
  | tick span =>
    show (c.tick span).idle.millis = min (quiet + span.millis) maxMillis
    rw [idle_tick active span untorn, Duration.millis_add, earlier (by simp)]
    omega
  | connect =>
    rw [step_connect]
    split <;> exact earlier (by simp)
  | write data =>
    rw [step_write]
    dsimp only
    split
    · split <;> exact earlier (by simp)
    · exact earlier (by simp)
  | finish =>
    show c.finish.idle.millis = _
    unfold Connection.finish
    dsimp only
    split <;> exact earlier (by simp)
  | abort =>
    obtain ⟨inactive, failed, _⟩ := abort_torn active
    rw [show (c.step .abort).2 = c.abort from rfl, inactive, failed] at untorn
    simp at untorn
  | read | dispatch | wait => exact earlier (by simp)

theorem Turns.timeout {after : Connection} (turns : c.Turns after) : after.timeout = c.timeout := by
  cases turns with
  | settled _ _ timeout => exact timeout
  | torn _ _ timeout => exact timeout
  | kept _ _ _ timeout => exact timeout

theorem halves_of_state (state : c.state = .closing ∨ c.state = .timeWait) :
    c.receiver.state = .finReceived ∧
      (c.sender.state = .finSent ∧ c.lingers = true ∨ c.sender.state = .finAcked) := by
  have lingered (ended : (if c.lingers = true then State.closing else State.lastAck) = .closing ∨
      (if c.lingers = true then State.closing else State.lastAck) = .timeWait) :
      c.lingers = true := by
    by_contra stopped
    simp [stopped] at ended
  unfold Connection.state at state
  cases sending : c.sender.state <;> cases receiving : c.receiver.state <;>
    cases active : c.active <;> simp_all

theorem inputEnded_of_state (receiving : c.receiver.state = .finReceived) :
    c.inbound.inputEnded = true := by
  unfold Receiver.state at receiving
  split at receiving
  · cases receiving
  · split at receiving
    · cases receiving
    · split at receiving
      · rename_i ended
        exact ended
      · cases receiving

theorem drained_of_sent (sound : c.Sound) (sent : c.sender.endPosition ≤ c.sender.next) :
    c.outbound.atEnd = true ∧ c.sender.next = c.sender.endPosition := by
  obtain ⟨accepted, faithful⟩ := sound.faithful
  have buffered := c.outbound.totalRead_add_length
  unfold Connection.outbound at buffered ⊢
  unfold Sender.endPosition at sent ⊢
  rcases faithful.placed with ⟨next, read⟩ | next | ⟨next, drained⟩
  · omega
  · omega
  · refine ⟨drained, ?_⟩
    rw [(c.sender.stream.atEnd_iff.mp drained).2, List.length_nil] at buffered
    omega

theorem sent_of_state (sending : c.sender.state = .finSent ∨ c.sender.state = .finAcked) :
    c.sender.endPosition ≤ c.sender.next := by
  by_contra unsent
  unfold Sender.state at sending
  split at sending
  · simp at sending
  · split at sending
    · simp at sending
    · rw [if_pos (show c.sender.next < c.sender.endPosition by omega)] at sending
      split at sending
      · simp at sending
      · simp at sending

theorem outboundComplete_of_state (sound : c.Sound) (sending : c.sender.state = .finAcked) :
    c.outboundComplete = true := by
  obtain ⟨drained, next⟩ := drained_of_sent sound (sent_of_state (.inr sending))
  have landed : c.sender.inFlight = 0 := by
    by_contra flying
    unfold Sender.state at sending
    rw [if_pos (show 0 < c.sender.inFlight by omega)] at sending
    repeat' split at sending
    all_goals cases sending
  unfold outboundComplete
  rw [drained, next, landed]
  simp

section Run

variable {ops : List Op} (sound : c.Sound) (lingers : c.lingers = true)
  (unended : c.inbound.inputEnded = false)

theorem active_of_isPrefix {passed : List Op} (front : passed <+: ops)
    (active : (c.run ops).active = true) : (c.run passed).active = true := by
  obtain ⟨rest, rfl⟩ := front
  rw [run_append] at active
  exact active_of_run active

include sound lingers unended in
theorem lingers_run (active : (c.run ops).active = true) :
    (c.run ops).lingers = false ↔ ∃ passed, passed <+: ops ∧ (c.run passed).HearsEndFirst := by
  induction ops using List.reverseRecOn with
  | nil =>
    have silent : ¬ c.HearsEndFirst := by
      rintro ⟨ended, _⟩
      simp [unended] at ended
    simp [run, lingers, silent]
  | append_singleton ops op ih =>
    rw [step_last] at active ⊢
    have ih := ih (active_of_step active)
    rw [lingers_step (sound.run ops) (fun hears => ih.mpr ⟨ops, List.prefix_rfl, hears⟩) active, ih]
    constructor
    · rintro (⟨passed, front, hears⟩ | hears)
      · exact ⟨passed, front.trans (List.prefix_append _ _), hears⟩
      · refine ⟨ops ++ [op], List.prefix_rfl, ?_⟩
        rw [step_last]
        exact hears
    · rintro ⟨passed, front, hears⟩
      rcases List.prefix_concat_iff.mp front with rfl | earlier
      · rw [step_last] at hears
        exact .inr hears
      · exact .inl ⟨passed, earlier, hears⟩

include sound unended in
theorem waits_run (active : (c.run ops).active = true) : (c.run ops).Waits := by
  induction ops using List.reverseRecOn with
  | nil =>
    rintro ⟨complete, _⟩
    have ended := inputEnded_of_complete complete
    rw [show (c.run []).inbound.inputEnded = c.inbound.inputEnded from rfl, unended] at ended
    cases ended
  | append_singleton ops op ih =>
    rw [step_last] at active ⊢
    exact waits_step (sound.run ops) (ih (active_of_step active)) active

theorem timeout_run (sound : c.Sound) (active : (c.run ops).active = true) :
    (c.run ops).timeout = c.timeout := by
  induction ops using List.reverseRecOn with
  | nil => rfl
  | append_singleton ops op ih =>
    rw [step_last] at active ⊢
    have still := active_of_step active
    exact (step_turns (sound.run ops) still op).timeout.trans (ih still)

theorem quietTime_append (ops : List Op) (op : Op) :
    quietTime (ops ++ [op]) = op.quietTime (quietTime ops) := by
  unfold quietTime
  rw [List.foldl_append]
  rfl

include sound in
theorem idle_run (unsynced : c.receiver.isn = none) (active : (c.run ops).active = true)
    (synced : (c.run ops).receiver.isn.isSome = true) :
    (c.run ops).idle.millis = min (quietTime ops) maxMillis := by
  induction ops using List.reverseRecOn with
  | nil =>
    rw [show (c.run []).receiver.isn = c.receiver.isn from rfl, unsynced] at synced
    cases synced
  | append_singleton ops op ih =>
    rw [step_last] at active synced ⊢
    rw [quietTime_append]
    have still := active_of_step active
    exact idle_step (sound.run ops) still (ih still) (.inl active) synced

include sound in
theorem drained_of_isPrefix {passed : List Op} (front : passed <+: ops)
    (drained : (c.run passed).outbound.atEnd = true) : (c.run ops).outbound.atEnd = true :=
  run_keeps (P := fun current => current.outbound.atEnd = true) sound
    (fun _ reached op still => drained_step reached op still) front drained

include sound in
theorem inputEnded_of_isPrefix {passed : List Op} (front : passed <+: ops)
    (ended : (c.run passed).inbound.inputEnded = true) : (c.run ops).inbound.inputEnded = true :=
  run_keeps (P := fun current => current.inbound.inputEnded = true) sound
    (fun _ reached op still => inputEnded_step reached op still) front ended

include sound lingers unended in
theorem not_lingers_of_hears (active : (c.run ops).active = true) {heard passed : List Op}
    (within : heard <+: ops) (hears : (c.run heard).HearsEndFirst) (front : passed <+: ops)
    (drained : (c.run passed).outbound.atEnd = true) : (c.run passed).lingers = false := by
  -- this side was not through when it heard the end, so it heard it before
  rcases List.prefix_or_prefix_of_prefix within front with earlier | later
  · exact (lingers_run sound lingers unended (active_of_isPrefix front active)).mpr
      ⟨heard, earlier, hears⟩
  · have through := drained_of_isPrefix sound later drained
    rw [hears.2] at through
    cases through

include sound in
theorem not_stranded_of_isPrefix {passed : List Op} (front : passed <+: ops)
    (clear : ¬ (c.run ops).Stranded) : ¬ (c.run passed).Stranded := by
  intro stranded
  apply clear
  exact run_keeps (P := Stranded) sound (fun _ reached op waits => waits.step reached op) front
    stranded

include sound lingers unended in
/-- Where the end of the peer is heard first, both streams are not complete before the connection
    closes, and none of the states in which it would wait is passed. -/
theorem never_waits_of_hears (active : (c.run ops).active = true) (clear : ¬ (c.run ops).Stranded)
    {heard passed : List Op} (within : heard <+: ops) (hears : (c.run heard).HearsEndFirst)
    (front : passed <+: ops) : ¬ (c.run passed).Complete ∧
      ¬ ((c.run passed).state = .closing ∨ (c.run passed).state = .timeWait) := by
  have stops := not_lingers_of_hears sound lingers unended active within hears front
  have incomplete : ¬ (c.run passed).Complete := by
    intro done
    have waits := (waits_run sound unended (active_of_isPrefix front active) done).1
    rw [stops (atEnd_of_complete done.2)] at waits
    cases waits
  refine ⟨incomplete, ?_⟩
  intro state
  have reached := sound.run passed
  obtain ⟨receiving, ⟨sending, waits⟩ | sending⟩ := halves_of_state state
  · have drained := (drained_of_sent reached (sent_of_state (.inl sending))).1
    rw [stops drained] at waits
    cases waits
  · apply incomplete
    constructor
    · exact inboundComplete_of_ended reached (inputEnded_of_state receiving)
        (not_stranded_of_isPrefix sound front clear)
    · exact outboundComplete_of_state reached sending

include sound in
theorem quiet_of_lingers (unsynced : c.receiver.isn = none) (active : (c.run ops).active = true)
    {op : Op} (closed : ((c.run ops).step op).2.active = false)
    (unfailed : ((c.run ops).step op).2.inbound.failed = false)
    (lingered : (c.run ops).lingers ≠ false) :
    min (10 * c.timeout.millis) maxMillis ≤ quietTime (ops ++ [op]) := by
  have reached := sound.run ops
  obtain ⟨complete, reason⟩ := closing_step reached active closed unfailed
  have long := reason.resolve_left lingered
  have synced := (reached.step op).synced (inputEnded_of_complete complete.1)
  have idle := idle_step reached active (idle_run sound unsynced active) (.inr unfailed) synced
  have timeout := (step_turns reached active op).timeout.trans (timeout_run sound active)
  rw [Duration.le_iff, idle, ← quietTime_append, lingerPeriod, timeout, Duration.millis_scale]
    at long
  omega

end Run

/-- When a connection closes cleanly, both streams are complete. If the end of the peer was heard
    while this side was not through, they never were so before, and this side never waits; if it was
    through whenever the peer had ended, in particular if its FIN was out before that, it has waited
    for ten timeouts since the last segment. -/
theorem closes_in_turn (config : Config) (inbound outbound : Array UInt8) (ops : List Op) (op : Op)
    (active : ((ofStorage config inbound outbound).run ops).active = true)
    (closed : (((ofStorage config inbound outbound).run ops).step op).2.active = false)
    (unfailed : (((ofStorage config inbound outbound).run ops).step op).2.inbound.failed = false) :
    let start := ofStorage config inbound outbound
    let waited := min (10 * config.timeout.millis) maxMillis ≤ quietTime (ops ++ [op])
    ((start.run ops).step op).2.Complete ∧
    ((∃ heard, heard <+: ops ∧ (start.run heard).HearsEndFirst) →
      ∀ passed, passed <+: ops → ¬ (start.run passed).Complete ∧
        (start.run passed).state ≠ .closing ∧ (start.run passed).state ≠ .timeWait) ∧
    ((∀ passed, passed <+: ops → ¬ (start.run passed).HearsEndFirst) → waited) ∧
    ((∃ sent, sent <+: ops ∧ (start.run sent).sender.next = (start.run sent).sender.endPosition ∧
      (start.run sent).inbound.inputEnded = false) → waited) := by
  intro start waited
  have begins : start.Sound := ofStorage_sound config inbound outbound
  have lingers : start.lingers = true := rfl
  have unended : start.inbound.inputEnded = false := rfl
  have reached : (start.run ops).Sound := begins.run ops
  obtain ⟨complete, _⟩ := closing_step reached active closed unfailed
  have patient (through : ∀ passed, passed <+: ops → ¬ (start.run passed).HearsEndFirst) :
      waited := by
    apply quiet_of_lingers begins rfl active closed unfailed
    intro stopped
    obtain ⟨heard, within, hears⟩ := (lingers_run begins lingers unended active).mp stopped
    exact through heard within hears
  refine ⟨complete, ?_, patient, ?_⟩
  · rintro ⟨heard, within, hears⟩ passed front
    have clear : ¬ (start.run ops).Stranded := by
      intro stranded
      have never := (stranded.step reached op).not_complete (reached.step op)
      rw [complete.1] at never
      cases never
    obtain ⟨incomplete, never⟩ :=
      never_waits_of_hears begins lingers unended active clear within hears front
    exact ⟨incomplete, fun closing => never (.inl closing), fun waiting => never (.inr waiting)⟩
  · rintro ⟨sent, within, next, early⟩
    apply patient
    rintro passed front ⟨ended, through⟩
    rcases List.prefix_or_prefix_of_prefix within front with earlier | later
    · have drained := (drained_of_sent (begins.run sent) (Nat.le_of_eq next.symm)).1
      rw [drained_of_isPrefix begins earlier drained] at through
      cases through
    · rw [inputEnded_of_isPrefix begins later ended] at early
      cases early

def passive : List Op :=
  [.receive { seqno := ⟨0⟩, flags := { syn := true }, window := 4 },
    .receive { seqno := ⟨1⟩, ackno := ⟨1⟩, flags := { ack := true, fin := true }, window := 4 },
    .finish]

theorem closes_in_turn_passive :
    let last : Op := .receive { seqno := ⟨2⟩, ackno := ⟨2⟩, flags := { ack := true }, window := 4 }
    (small.run passive).active = true ∧ ((small.run passive).step last).2.active = false ∧
      ((small.run passive).step last).2.inbound.failed = false ∧
      (small.run (passive.take 2)).HearsEndFirst ∧ ¬ (small.run passive).Complete := by
  intro last
  have active : (small.run passive).active = true := by decide +kernel
  have closed : ((small.run passive).step last).2.active = false := by decide +kernel
  have unfailed : ((small.run passive).step last).2.inbound.failed = false := by decide +kernel
  have hears : (small.run (passive.take 2)).HearsEndFirst := by decide +kernel
  obtain ⟨_, prompt, _⟩ :=
    closes_in_turn { receiveCapacity := 4, sendCapacity := 4, isn := some ⟨0⟩ }
      (Array.replicate 4 0) (Array.replicate 4 0) passive last active closed unfailed
  have incomplete := (prompt ⟨_, List.take_prefix 2 passive, hears⟩ passive List.prefix_rfl).1
  exact ⟨active, closed, unfailed, hears, incomplete⟩

/-- The two bytes that this side sends fill the window of the peer, so that its FIN has to wait, and
    the FIN of the peer comes in the meantime. -/
def heldBack : List Op :=
  [.connect,
    .receive { seqno := ⟨0⟩, ackno := ⟨1⟩, flags := { syn := true, ack := true }, window := 2 },
    .write [7, 8], .finish,
    .receive { seqno := ⟨1⟩, ackno := ⟨1⟩, flags := { ack := true, fin := true }, window := 2 },
    .receive { seqno := ⟨2⟩, ackno := ⟨3⟩, flags := { ack := true }, window := 2 },
    .receive { seqno := ⟨2⟩, ackno := ⟨4⟩, flags := { ack := true }, window := 2 },
    .tick (.ofMillis 10000)]

/-- Then this side waits although it closes second, because its stream was drained already. -/
theorem heldBack_lingers :
    ((small.run (heldBack.take 5)).inbound.inputEnded = true ∧
      (small.run (heldBack.take 5)).sender.next < (small.run (heldBack.take 5)).sender.endPosition ∧
      (small.run (heldBack.take 5)).state = .closeWait) ∧
    (small.run (heldBack.take 6)).state = .closing ∧
    ((small.run (heldBack.take 7)).Complete ∧ (small.run (heldBack.take 7)).state = .timeWait ∧
      (small.run (heldBack.take 7)).active = true) ∧
    (small.run heldBack).active = false ∧ (small.run heldBack).inbound.failed = false ∧
      (small.run heldBack).outbound.failed = false := by
  decide +kernel

end NetStack.Tcp.Connection
