import NetStack.Proofs.Tcp.Finality
import NetStack.Proofs.Tcp.Timekeeping

namespace NetStack.Tcp

theorem Timer.tick_frame (timer : Timer) (span : Duration) :
    (timer.tick span).2.isRunning = timer.isRunning ∧
      (timer.tick span).2.timeout = timer.timeout ∧ (timer.tick span).2.retries = timer.retries := by
  cases counting : timer.elapsed <;>
    simp [Timer.tick, Timer.isRunning, Timer.retries, counting]

theorem Timer.retries_backOff {timer : Timer} (few : timer.retries + 1 < Machine.retryLimit)
    (windowOpen : Bool) : (timer.backOff windowOpen).retries = timer.retries + 1 := by
  show (timer.count + 1).toNat = timer.count.toNat + 1
  rw [UInt32.toNat_add]
  exact Nat.mod_eq_of_lt few

namespace Sender

variable {s : Sender}

theorem Accounted.inFlight_ne_zero (accounted : s.Accounted) (something : s.outstanding ≠ []) :
    s.inFlight ≠ 0 := by
  intro landed
  exact something (accounted.outstanding_eq_nil_iff.mpr (accounted.acked_eq_next landed))

theorem retries_step {op : Op} (untimed : ∀ span, op ≠ .tick span) :
    (s.step op).2.timer.retries ≤ s.timer.retries := by
  have transmitted (before : Sender) : before.transmit.timer.retries ≤ before.timer.retries := by
    apply transmit_induction (P := fun after => after.timer.retries ≤ before.timer.retries)
    · exact Nat.le_refl _
    · intro during after emits soFar
      have sent (flags : Flags) (payload : Bytes) (stream : ByteStream) :
          (send { during with stream } flags payload).timer.retries ≤ during.timer.retries := by
        unfold send
        dsimp only
        split
        · exact Nat.le_refl _
        · exact Nat.zero_le _
      cases emits with
      | syn | fin => exact Nat.le_trans (sent _ _ during.stream) soFar
      | chunk => exact Nat.le_trans (sent _ _ _) soFar
  cases op with
  | transmit => exact transmitted s
  | acknowledge ackno window =>
    show (s.acknowledge ackno window).timer.retries ≤ _
    obtain ⟨_, same⟩ | ⟨_, _, told⟩ | ⟨_, _, retired⟩ := s.acknowledge_cases ackno window rfl
    · rw [same]
    · rw [told]
    · rw [retired]
      refine Nat.le_trans (transmitted _) ?_
      unfold retire Timer.reset
      dsimp only
      split <;> exact Nat.zero_le _
  | tick span => exact absurd rfl (untimed span)
  | sendReset => exact Nat.zero_le _
  | sendEmpty | input => exact Nat.le_refl _

theorem retries_run {ops : List Op} (untimed : ∀ op ∈ ops, ∀ span, op ≠ .tick span) :
    (s.run ops).timer.retries ≤ s.timer.retries := by
  induction ops generalizing s with
  | nil => exact Nat.le_refl _
  | cons op rest ih =>
    obtain ⟨first, others⟩ := List.forall_mem_cons.mp untimed
    exact Nat.le_trans (ih others) (retries_step first)

end Sender

namespace Connection

variable {c d : Connection} {op : Op}

theorem answerOps_untimed (segment : Segment) :
    ∀ request ∈ c.answerOps segment, ∀ span, request ≠ .tick span := by
  intro request member
  rcases mem_answerOps member with rfl | ⟨_, rfl⟩ <;> simp

theorem Carries.untimed {reply : Reply} {asked : List Sender.Op} {fed : List Receiver.Op}
    (carries : c.Carries op reply asked fed) (untimed : ∀ span, op ≠ .tick span) :
    ∀ request ∈ asked, ∀ span, request ≠ .tick span := by
  intro request member
  cases carries with
  | ignored | deaf | read => cases member
  | tick | giveUp => exact absurd rfl (untimed _)
  | connect | abort | reset =>
    simp only [List.mem_cons, List.not_mem_nil, or_false] at member
    rcases member with rfl | rfl <;> simp
  | write | finish =>
    rcases List.mem_cons.mp member with rfl | sends
    · simp
    · split at sends <;> simp_all
  | receive _ plain bare =>
    rcases List.mem_append.mp member with answers | closes
    · exact answerOps_untimed _ request answers
    · rw [bare _ closes]
      simp

theorem maxRetransmissions_abort (c : Connection) :
    c.abort.maxRetransmissions = c.maxRetransmissions := by
  unfold abort
  split <;> rfl

theorem maxRetransmissions_step (c : Connection) (op : Op) :
    (c.step op).2.maxRetransmissions = c.maxRetransmissions := by
  cases op with
  | connect =>
    rw [step_connect]
    split <;> rfl
  | write data =>
    rw [step_write]
    split
    · dsimp only
      split <;> rfl
    · rfl
  | finish =>
    show c.finish.maxRetransmissions = _
    unfold finish
    split <;> rfl
  | receive segment =>
    show (c.receive segment).maxRetransmissions = _
    unfold receive
    split
    · rfl
    · split
      · rfl
      · obtain ⟨closing, _, answers⟩ := answer_eq
          { c with idle := .zero, receiver := c.receiver.receive segment } segment
        dsimp only
        rw [answers]
        rfl
  | tick span =>
    show (c.tick span).maxRetransmissions = _
    unfold tick
    split
    · dsimp only
      split
      · exact maxRetransmissions_abort _
      · rfl
    · rfl
  | abort => exact c.maxRetransmissions_abort
  | read | dispatch | wait => rfl

/-- More retransmissions in a row than are tolerated end the connection. -/
theorem retries_le (sound : c.Sound)
    (patient : c.active = true → c.sender.timer.retries ≤ c.maxRetransmissions) (op : Op)
    (active : (c.step op).2.active = true) :
    (c.step op).2.sender.timer.retries ≤ c.maxRetransmissions := by
  have alive := active_of_step active
  by_cases timed : ∃ span, op = .tick span
  · obtain ⟨span, rfl⟩ := timed
    change (c.tick span).active = true at active
    show (c.tick span).sender.timer.retries ≤ _
    have tolerated : ¬ c.GivesUp span := fun exhausted => by
      rw [(tick_of_givesUp alive exhausted).1] at active
      cases active
    rw [tick_of_tolerated alive tolerated]
    exact Nat.not_lt.mp tolerated
  · obtain ⟨asked, fed, carries, does⟩ := c.step_carries op sound.ready
    have untimed := carries.untimed fun span same => timed ⟨span, same⟩
    rw [does.sender]
    exact Nat.le_trans (Sender.retries_run untimed) (patient alive)

theorem Carries.noReset {reply : Reply} {asked : List Sender.Op} {fed : List Receiver.Op}
    (carries : c.Carries op reply asked fed) (unfailed : (c.receiver.run fed).stream.failed = false) :
    Sender.Op.sendReset ∉ asked := by
  intro member
  have warrants := carries.warrants _ member
  cases carries with
  | giveUp | abort => cases unfailed
  | ignored | deaf | read => cases member
  | connect | tick | reset => simp at member
  | write | finish | receive => simp [Warrants] at warrants

/-- While a connection is active its timer keeps time, and no more retransmissions in a row were
    made than are tolerated. -/
structure Patient (c : Connection) : Prop where
  sound : c.Sound
  asOne : c.FailsAsOne
  timed : c.active = true → ∃ initial history, c.sender.Timed initial history
  retries : c.active = true → c.sender.timer.retries ≤ c.maxRetransmissions

theorem Patient.step (patient : c.Patient) (op : Op) : (c.step op).2.Patient := by
  have asOne := patient.asOne.step patient.sound op
  refine ⟨patient.sound.step op, asOne, ?_, ?_⟩
  · intro active
    obtain ⟨initial, history, timed⟩ := patient.timed (active_of_step active)
    obtain ⟨asked, fed, carries, does⟩ := c.step_carries op patient.sound.ready
    have unfailed := (asOne.intact active).1
    unfold inbound at unfailed
    rw [does.receiver] at unfailed
    have later := timed.run (carries.noReset unfailed)
    rw [does.sender]
    exact ⟨initial, _, later.requeue []⟩
  · rw [maxRetransmissions_step]
    exact retries_le patient.sound patient.retries op

theorem Patient.run (patient : c.Patient) (ops : List Op) : (c.run ops).Patient := by
  induction ops generalizing c with
  | nil => exact patient
  | cons op rest ih => exact ih (patient.step op)

def expires (c : Connection) (span : Duration) : Bool := c.active && (c.sender.timer.tick span).1

/-- How often the timer runs out while these spans pass and nothing else happens. -/
def expirations (c : Connection) : List Duration → Nat
  | [] => 0
  | span :: rest => (c.expires span).toNat + (c.tick span).expirations rest

/-- All that a silence changes: the oldest outstanding segment was sent again so many times. -/
structure Insists (c : Connection) (oldest : Sent) (count : Nat) (d : Connection) : Prop where
  active : d.active = true
  receiver : d.receiver = c.receiver
  limit : d.maxRetransmissions = c.maxRetransmissions
  sender : d.sender = { c.sender with timer := d.sender.timer }
  running : d.sender.timer.isRunning = true
  retries : d.sender.timer.retries = c.sender.timer.retries + count
  timeout : d.sender.timer.timeout =
    c.sender.timer.timeout.doubled (if c.sender.window = 0 then 0 else count)
  queue : d.queue = c.queue ++ List.replicate count (c.stamp oldest.segment)

/-- The silence was too long: a reset follows the retransmissions that were tolerated. -/
structure GivenUp (c : Connection) (oldest : Sent) (d : Connection) : Prop where
  inactive : d.active = false
  torn : d.TornDown
  queue : d.queue = c.queue ++ List.replicate (c.maxRetransmissions - c.sender.timer.retries)
    (c.stamp oldest.segment) ++ [c.farewell]

/-- How a connection stands after so many expirations. No count in 32 bits exceeds the highest one:
    where that many are tolerated, nothing is said of what comes after them. -/
inductive Outlasts (c : Connection) (oldest : Sent) (count : Nat) (d : Connection) : Prop
  | insists (tolerated : c.sender.timer.retries + count ≤ c.maxRetransmissions)
      (insists : c.Insists oldest count d)
  | givenUp (exceeded : c.sender.timer.retries + count = c.maxRetransmissions + 1)
      (givenUp : c.GivenUp oldest d)
  | uncounted (exceeded : c.maxRetransmissions < c.sender.timer.retries + count)
      (full : Machine.retryLimit ≤ c.maxRetransmissions + 1)

theorem stamp_congr (same : d.receiver = c.receiver) : d.stamp = c.stamp := by
  funext segment
  unfold stamp
  rw [same]

theorem active_settle_of_inFlight (sending : c.sender.inFlight ≠ 0) :
    c.settle.active = c.active := by
  simp [active_settle, outboundComplete, sending]

theorem tick_passes_on {span : Duration} {again : List Segment} {timer : Timer}
    (ticked : c.sender.tick span = { c.sender with queue := again, timer })
    (active : c.active = true) (tolerated : timer.retries ≤ c.maxRetransmissions)
    (sending : c.sender.inFlight ≠ 0) :
    (c.tick span).active = true ∧ (c.tick span).receiver = c.receiver ∧
      (c.tick span).maxRetransmissions = c.maxRetransmissions ∧
      (c.tick span).sender = { c.sender with queue := [], timer } ∧
      (c.tick span).queue = c.queue ++ again.map c.stamp := by
  have spared : ¬ c.GivesUp span := by
    unfold GivesUp
    rw [ticked]
    exact Nat.not_lt.mpr tolerated
  rw [tick_of_tolerated active spared, ticked, active_settle_of_inFlight (by exact sending)]
  exact ⟨active, rfl, rfl, rfl, rfl⟩

section Silence

variable {oldest : Sent} {rest : List Sent} {count : Nat}

theorem Patient.insists (patient : c.Patient) (active : c.active = true)
    (outstanding : c.sender.outstanding = oldest :: rest) : c.Insists oldest 0 c where
  active := active
  receiver := rfl
  limit := rfl
  sender := rfl
  running := by
    obtain ⟨_, _, timed⟩ := patient.timed active
    exact timed.isRunning_iff.mpr (by simp [outstanding])
  retries := rfl
  timeout := by rw [ite_self, Duration.doubled_zero]
  queue := by simp

theorem Insists.tick_of_again (insists : c.Insists oldest count d) (patient : c.Patient)
    (sending : c.sender.inFlight ≠ 0) {span : Duration} (again : Nat) {timer : Timer}
    (ticked : d.sender.tick span =
      { d.sender with queue := List.replicate again oldest.segment, timer })
    (tolerated : c.sender.timer.retries + (count + again) ≤ c.maxRetransmissions)
    (running : timer.isRunning = true) (retries : timer.retries = d.sender.timer.retries + again)
    (timeout : timer.timeout =
      c.sender.timer.timeout.doubled (if c.sender.window = 0 then 0 else count + again)) :
    c.Insists oldest (count + again) (d.tick span) := by
  rw [insists.retries, Nat.add_assoc] at retries
  have bound : timer.retries ≤ d.maxRetransmissions := by
    rw [retries, insists.limit]
    exact tolerated
  have flying : d.sender.inFlight ≠ 0 := by
    rw [insists.sender]
    exact sending
  obtain ⟨active, receiver, limit, sender, queue⟩ := tick_passes_on ticked insists.active bound flying
  have kept : (d.tick span).sender = { c.sender with timer } := by
    rw [sender, insists.sender, ← patient.sound.ready]
  refine ⟨active, receiver.trans insists.receiver, limit.trans insists.limit, ?_, ?_, ?_, ?_, ?_⟩
  · rw [kept]
  · rw [kept]
    exact running
  · rw [kept]
    exact retries
  · rw [kept]
    exact timeout
  · rw [queue, insists.queue, stamp_congr insists.receiver, List.map_replicate, List.append_assoc,
      List.replicate_append_replicate]

theorem Insists.tick_of_waits (insists : c.Insists oldest count d) (patient : c.Patient)
    (sending : c.sender.inFlight ≠ 0)
    (tolerated : c.sender.timer.retries + count ≤ c.maxRetransmissions) {span : Duration}
    (waits : (d.sender.timer.tick span).1 = false) : c.Insists oldest count (d.tick span) := by
  obtain ⟨running, timeout, retries⟩ := d.sender.timer.tick_frame span
  have ready : d.sender.queue = [] := by
    rw [insists.sender]
    exact patient.sound.ready
  have ticked : d.sender.tick span =
      { d.sender with queue := [], timer := (d.sender.timer.tick span).2 } := by
    rw [Sender.tick_of_not_expires waits, ← ready]
  exact insists.tick_of_again patient sending 0 ticked tolerated
    (running.trans insists.running) retries (timeout.trans insists.timeout)

theorem Insists.retries_backOff (insists : c.Insists oldest count d)
    (few : c.sender.timer.retries + count + 1 < Machine.retryLimit) (span : Duration)
    (windowOpen : Bool) : ((d.sender.timer.tick span).2.backOff windowOpen).retries =
      c.sender.timer.retries + count + 1 := by
  obtain ⟨_, _, retries⟩ := d.sender.timer.tick_frame span
  have same := retries.trans insists.retries
  rw [Timer.retries_backOff (by rw [same]; exact few), same]

theorem Insists.tick_of_expires (insists : c.Insists oldest count d) (patient : c.Patient)
    (sending : c.sender.inFlight ≠ 0) (outstanding : c.sender.outstanding = oldest :: rest)
    (tolerated : c.sender.timer.retries + (count + 1) ≤ c.maxRetransmissions)
    (counted : c.maxRetransmissions < Machine.retryLimit) {span : Duration}
    (expires : (d.sender.timer.tick span).1 = true) :
    c.Insists oldest (count + 1) (d.tick span) := by
  obtain ⟨_, timeout, _⟩ := d.sender.timer.tick_frame span
  have same := insists.sender
  have ready : d.sender.queue = [] := by
    rw [same]
    exact patient.sound.ready
  have unanswered : d.sender.outstanding = oldest :: rest := by
    rw [same]
    exact outstanding
  have window : d.sender.window = c.sender.window := by rw [same]
  have ticked : d.sender.tick span = { d.sender with
      queue := List.replicate 1 oldest.segment
      timer := (d.sender.timer.tick span).2.backOff (d.sender.window != 0) } := by
    rw [Sender.tick_of_expires unanswered expires, ready]
    rfl
  apply insists.tick_of_again patient sending 1 ticked tolerated
  · rfl
  · rw [insists.retries]
    exact insists.retries_backOff (by omega) span _
  · show (if d.sender.window != 0 then (d.sender.timer.tick span).2.timeout.scale 2
      else (d.sender.timer.tick span).2.timeout) = _
    rw [timeout, insists.timeout, window]
    by_cases closed : c.sender.window = 0
    · simp [closed]
    · simp [closed, Duration.scale_doubled]

theorem Insists.givenUp (insists : c.Insists oldest count d)
    (outstanding : c.sender.outstanding = oldest :: rest)
    (exceeded : c.sender.timer.retries + count = c.maxRetransmissions)
    (counted : c.maxRetransmissions + 1 < Machine.retryLimit) {span : Duration}
    (expires : (d.sender.timer.tick span).1 = true) : c.GivenUp oldest (d.tick span) := by
  have unanswered : d.sender.outstanding = oldest :: rest := by
    rw [insists.sender]
    exact outstanding
  have exhausted : d.GivesUp span := by
    unfold GivesUp
    rw [Sender.tick_of_expires unanswered expires]
    show d.maxRetransmissions < Timer.retries (Timer.backOff _ _)
    rw [insists.retries_backOff (by omega) span, insists.limit]
    omega
  obtain ⟨inactive, torn, queue⟩ := tick_of_givesUp insists.active exhausted
  have farewell : d.farewell = c.farewell := by
    unfold farewell
    rw [stamp_congr insists.receiver, insists.sender]
    rfl
  have spent : c.maxRetransmissions - c.sender.timer.retries = count := by omega
  refine ⟨inactive, torn, ?_⟩
  rw [queue, insists.queue, farewell, spent]

theorem Outlasts.tick (outlasts : c.Outlasts oldest count d) (patient : c.Patient)
    (outstanding : c.sender.outstanding = oldest :: rest)
    (counted : c.maxRetransmissions < Machine.retryLimit) (span : Duration) :
    c.Outlasts oldest (count + (d.expires span).toNat) (d.tick span) := by
  have sending : c.sender.inFlight ≠ 0 :=
    patient.sound.accounted.inFlight_ne_zero (by simp [outstanding])
  cases outlasts with
  | insists tolerated insists =>
    unfold expires
    rw [insists.active, Bool.true_and]
    cases expires : (d.sender.timer.tick span).1 with
    | false => exact .insists tolerated (insists.tick_of_waits patient sending tolerated expires)
    | true =>
      -- one retransmission more is tolerated, or it is withdrawn for the reset
      by_cases last : c.sender.timer.retries + count = c.maxRetransmissions
      · by_cases full : Machine.retryLimit ≤ c.maxRetransmissions + 1
        · exact .uncounted (by rw [Bool.toNat_true]; omega) full
        · refine .givenUp ?_ (insists.givenUp outstanding last (Nat.not_le.mp full) expires)
          rw [← last]
          rfl
      · have another : c.sender.timer.retries + (count + 1) ≤ c.maxRetransmissions := by omega
        exact .insists another
          (insists.tick_of_expires patient sending outstanding another counted expires)
  | givenUp exceeded givenUp =>
    have same : d.tick span = d := if_neg (by simp [givenUp.inactive])
    have silent : d.expires span = false := by simp [expires, givenUp.inactive]
    rw [same, silent]
    exact .givenUp exceeded givenUp
  | uncounted exceeded full => exact .uncounted (by omega) full

theorem Outlasts.run (outlasts : c.Outlasts oldest count d) (patient : c.Patient)
    (outstanding : c.sender.outstanding = oldest :: rest)
    (counted : c.maxRetransmissions < Machine.retryLimit) (spans : List Duration) :
    c.Outlasts oldest (count + d.expirations spans) (d.run (spans.map .tick)) := by
  induction spans generalizing count d with
  | nil => exact outlasts
  | cons span rest ih =>
    have later := ih (outlasts.tick patient outstanding counted span)
    rw [Nat.add_assoc] at later
    exact later

end Silence

end Connection

end NetStack.Tcp
