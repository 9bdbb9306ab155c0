import Mathlib.Algebra.GroupWithZero.Nat
import Mathlib.Data.List.DropRight
import NetStack.Proofs.Machine.Sender

namespace NetStack

namespace Duration

def doubled (span : Duration) (count : Nat) : Duration := ofMillis (span.millis * 2 ^ count)

theorem doubled_zero (span : Duration) : span.doubled 0 = span := by
  have bound := span.bounded
  unfold doubled ofMillis
  congr
  omega

theorem scale_doubled (span : Duration) (count : Nat) :
    (span.doubled count).scale 2 = span.doubled (count + 1) := by
  unfold doubled scale ofMillis
  congr 1
  dsimp only
  rw [Nat.pow_succ, ← Nat.mul_assoc]
  omega

theorem ofMillis_add (count : Nat) (span : Duration) :
    ofMillis count + span = ofMillis (count + span.millis) := by
  show ofMillis (min count maxMillis + span.millis) = _
  unfold ofMillis
  congr 1
  omega

end Duration

namespace Tcp

theorem Timer.start_eq (timer : Timer) :
    timer.start = ⟨timer.initial, timer.initial.doubled 0, some (.ofMillis 0), 0⟩ := by
  rw [Duration.doubled_zero]
  rfl

namespace Sender

variable {s : Sender}

theorem Accounted.outstanding_eq_nil_iff (accounted : s.Accounted) :
    s.outstanding = [] ↔ s.acked = s.next := by
  constructor
  · intro nothing
    apply accounted.acked_eq_next
    rw [accounted.inFlight, nothing]
    rfl
  · intro landed
    cases outstanding : s.outstanding with
    | nil => rfl
    | cons oldest rest =>
      have unfinished := accounted.unfinished oldest (by simp [outstanding])
      obtain ⟨first, _, contiguous⟩ := accounted.contiguous
      rw [outstanding] at contiguous
      have stop := contiguous.2.stop_eq
      omega

/-- A sender that transmits either has nothing to send or uses up sequence numbers, and then its
    timer is running. -/
theorem transmit_cases (s : Sender) : s.transmit = s ∨ (s.next < s.transmit.next ∧
    s.transmit.timer = if s.timer.isRunning then s.timer else s.timer.start) := by
  apply transmit_induction (P := fun after => after = s ∨ (s.next < after.next ∧
    after.timer = if s.timer.isRunning then s.timer else s.timer.start))
  · exact .inl rfl
  · intro before after emits soFar
    have later := emits.next_lt
    have kicked : after.timer = if before.timer.isRunning then before.timer
        else before.timer.start := by
      cases emits with
      | syn | fin => rfl
      | chunk => rfl
    rcases soFar with rfl | ⟨sent, timer⟩
    · exact .inr ⟨later, kicked⟩
    · refine .inr ⟨Nat.lt_trans sent later, ?_⟩
      have running : before.timer.isRunning = true := by
        rw [timer]
        split
        · assumption
        · rfl
      rw [kicked, if_pos running, timer]

structure Moment where
  before : Sender
  op : Op
  deriving DecidableEq

namespace Moment

def after (moment : Moment) : Sender := (moment.before.step moment.op).2

/-- An epoch begins when the highest acknowledgement rises, or when a segment is sent while nothing
    is outstanding. -/
def begins (moment : Moment) : Bool :=
  decide (moment.before.acked < moment.after.acked) ||
    (moment.before.outstanding.isEmpty && decide (moment.before.next < moment.after.next))

def expires (moment : Moment) : Bool :=
  match moment.op with
  | .tick span => (moment.before.timer.tick span).1
  | _ => false

def windowOpen (moment : Moment) : Bool := moment.before.window != 0

def millis (moment : Moment) : Nat :=
  match moment.op with
  | .tick span => span.millis
  | _ => 0

end Moment

def moments (s : Sender) : List Op → List Moment
  | [] => []
  | op :: rest => ⟨s, op⟩ :: (s.step op).2.moments rest

theorem moments_last (s : Sender) (ops : List Op) (op : Op) :
    s.moments (ops ++ [op]) = s.moments ops ++ [⟨s.run ops, op⟩] := by
  induction ops generalizing s with
  | nil => rfl
  | cons first rest ih =>
    rw [List.cons_append, moments, ih, moments, List.cons_append]
    rfl

section History

variable (history : List Moment)

def epoch : List Moment := history.rtakeWhile fun moment => !moment.begins

def expirations : Nat := (epoch history).countP Moment.expires

def openExpirations : Nat :=
  (epoch history).countP fun moment => moment.expires && moment.windowOpen

/-- The time since the epoch began or, if that is later, since the last expiration. -/
def waited : Nat :=
  (((epoch history).rtakeWhile fun moment => !moment.expires).map Moment.millis).sum

variable {history} {moment : Moment}

theorem epoch_of_begins (begins : moment.begins = true) : epoch (history ++ [moment]) = [] := by
  rw [epoch, List.rtakeWhile_concat, begins]
  rfl

theorem epoch_of_not_begins (goes_on : moment.begins = false) :
    epoch (history ++ [moment]) = epoch history ++ [moment] := by
  rw [epoch, List.rtakeWhile_concat, goes_on]
  rfl

theorem waited_of_expires (goes_on : moment.begins = false) (expires : moment.expires = true) :
    waited (history ++ [moment]) = 0 := by
  rw [waited, epoch_of_not_begins goes_on, List.rtakeWhile_concat, expires]
  rfl

theorem waited_of_not_expires (goes_on : moment.begins = false) (waits : moment.expires = false) :
    waited (history ++ [moment]) = waited history + moment.millis := by
  rw [waited, epoch_of_not_begins goes_on, List.rtakeWhile_concat, waits]
  simp [waited]

theorem expirations_append (goes_on : moment.begins = false) :
    expirations (history ++ [moment]) = expirations history + moment.expires.toNat := by
  rw [expirations, epoch_of_not_begins goes_on, List.countP_append]
  cases expires : moment.expires <;> simp [expirations, expires]

theorem openExpirations_append (goes_on : moment.begins = false) :
    openExpirations (history ++ [moment]) =
      openExpirations history + (moment.expires && moment.windowOpen).toNat := by
  rw [openExpirations, epoch_of_not_begins goes_on, List.countP_append]
  cases both : (moment.expires && moment.windowOpen) <;> simp [openExpirations, both]

def timerOf (initial : Duration) (history : List Moment) : Timer where
  initial := initial
  timeout := initial.doubled (openExpirations history)
  elapsed := some (.ofMillis (waited history))
  count := .ofNat (expirations history)

theorem timerOf_of_begins (initial : Duration) (begins : moment.begins = true) :
    timerOf initial (history ++ [moment]) = ⟨initial, initial.doubled 0, some (.ofMillis 0), 0⟩ := by
  simp [timerOf, openExpirations, expirations, waited, epoch_of_begins begins, List.rtakeWhile_nil]

theorem timerOf_of_idle (initial : Duration) (goes_on : moment.begins = false)
    (waits : moment.expires = false) (still : moment.millis = 0) :
    timerOf initial (history ++ [moment]) = timerOf initial history := by
  unfold timerOf
  rw [openExpirations_append goes_on, expirations_append goes_on, waited_of_not_expires goes_on waits,
    waits, still]
  rfl

/-- The timer shows what the history says, and is idle while nothing is outstanding. -/
structure Timed (s : Sender) (initial : Duration) (history : List Moment) : Prop where
  accounted : s.Accounted
  idle : s.outstanding = [] → s.timer = .ofTimeout initial
  running : s.outstanding ≠ [] → s.timer = timerOf initial history

theorem ofStream_timed (stream : ByteStream) (isn : SeqNo) (timeout : Duration) (maxPayload : Nat) :
    (ofStream stream isn timeout maxPayload).Timed timeout [] where
  accounted := ofStream_accounted _ _ _ _
  idle := fun _ => rfl
  running := fun something => absurd rfl something

variable {initial : Duration}

theorem Timed.initial_eq (timed : s.Timed initial history) : s.timer.initial = initial := by
  by_cases nothing : s.outstanding = []
  · rw [timed.idle nothing]
    rfl
  · rw [timed.running nothing]
    rfl

theorem Timed.isRunning_iff (timed : s.Timed initial history) :
    s.timer.isRunning = true ↔ s.outstanding ≠ [] := by
  by_cases nothing : s.outstanding = []
  · rw [timed.idle nothing]
    simp [nothing, Timer.isRunning, Timer.ofTimeout]
  · rw [timed.running nothing]
    simp [nothing, Timer.isRunning, timerOf]

theorem Timed.requeue (timed : s.Timed initial history) (queue : List Segment) :
    ({ s with queue } : Sender).Timed initial history :=
  ⟨timed.accounted.congr rfl rfl rfl rfl, timed.idle, timed.running⟩

theorem Timed.keep (timed : s.Timed initial history) {after : Sender} {op : Op}
    (stepped : (s.step op).2 = after) (noTick : ∀ span, op ≠ .tick span)
    (acked : after.acked = s.acked) (next : after.next = s.next)
    (outstanding : after.outstanding = s.outstanding) (timer : after.timer = s.timer) :
    after.Timed initial (history ++ [⟨s, op⟩]) := by
  have reached : (⟨s, op⟩ : Moment).after = after := stepped
  have goes_on : (⟨s, op⟩ : Moment).begins = false := by
    simp [Moment.begins, reached, acked, next]
  have still : (⟨s, op⟩ : Moment).expires = false ∧ (⟨s, op⟩ : Moment).millis = 0 := by
    cases op with
    | tick span => exact absurd rfl (noTick span)
    | transmit | acknowledge | sendEmpty | sendReset | input => exact ⟨rfl, rfl⟩
  refine ⟨stepped ▸ timed.accounted.step op, ?_, ?_⟩
  · rw [outstanding, timer]
    exact timed.idle
  · rw [outstanding, timer, timerOf_of_idle initial goes_on still.1 still.2]
    exact timed.running

theorem Timed.transmit (timed : s.Timed initial history) :
    s.transmit.Timed initial (history ++ [⟨s, .transmit⟩]) := by
  rcases s.transmit_cases with nothing | ⟨sent, timer⟩
  · exact timed.keep rfl (by simp) (by rw [nothing]) (by rw [nothing]) (by rw [nothing])
      (by rw [nothing])
  · have acked : s.transmit.acked = s.acked := s.transmit_keeps.1
    have reached : (⟨s, .transmit⟩ : Moment).after = s.transmit := rfl
    have accounted := timed.accounted.transmit
    have something : s.transmit.outstanding ≠ [] := by
      rw [Ne, accounted.outstanding_eq_nil_iff, acked]
      have bound := timed.accounted.acked_le
      omega
    refine ⟨accounted, fun nothing => absurd nothing something, fun _ => ?_⟩
    rw [timer]
    by_cases silent : s.outstanding = []
    · have begins : (⟨s, .transmit⟩ : Moment).begins = true := by
        simp [Moment.begins, reached, silent, sent]
      have idle : ¬ s.timer.isRunning = true := fun running =>
        timed.isRunning_iff.mp running silent
      rw [if_neg idle, Timer.start_eq, timed.initial_eq, timerOf_of_begins initial begins]
    · have goes_on : (⟨s, .transmit⟩ : Moment).begins = false := by
        simp [Moment.begins, reached, acked, silent]
      rw [if_pos (timed.isRunning_iff.mpr silent), timerOf_of_idle initial goes_on rfl rfl]
      exact timed.running silent

theorem Timed.acknowledge (timed : s.Timed initial history) (ackno : SeqNo) (window : UInt16) :
    (s.acknowledge ackno window).Timed initial (history ++ [⟨s, .acknowledge ackno window⟩]) := by
  rcases s.acknowledge_cases ackno window rfl with ⟨_, same⟩ | ⟨_, _, told⟩ | ⟨sent, news, retired⟩
  · exact timed.keep rfl (by simp) (by rw [same]) (by rw [same]) (by rw [same]) (by rw [same])
  · exact timed.keep rfl (by simp) (by rw [told]) (by rw [told]) (by rw [told]) (by rw [told])
  · have retiring := timed.accounted.retire window news sent
    generalize place : ackno.positionNear s.isn s.acked = position at *
    have reached : (⟨s, .acknowledge ackno window⟩ : Moment).after =
        (s.retire position window).transmit := retired
    have begins : (⟨s, .acknowledge ackno window⟩ : Moment).begins = true := by
      simp [Moment.begins, reached, (s.retire position window).transmit_keeps.1, news]
    have retire_timer : (s.retire position window).timer =
        s.timer.reset (!(s.retire position window).outstanding.isEmpty) := by
      simp [retire, List.span_eq_takeWhile_dropWhile]
    have accounted := retiring.transmit
    rw [retired]
    generalize s.retire position window = retire at *
    have reset : retire.timer = if retire.outstanding = [] then .ofTimeout initial
        else ⟨initial, initial.doubled 0, some (.ofMillis 0), 0⟩ := by
      rw [retire_timer, Timer.reset, Timer.start_eq, Timer.close, timed.initial_eq]
      by_cases silent : retire.outstanding = [] <;> simp [silent, Timer.ofTimeout]
    refine ⟨accounted, fun nothing => ?_, fun something => ?_⟩
    · have landed := accounted.outstanding_eq_nil_iff.mp nothing
      have bound := retiring.acked_le
      rcases retire.transmit_cases with same | ⟨sent, _⟩
      · rw [same] at nothing ⊢
        rw [reset, if_pos nothing]
      · have acked := retire.transmit_keeps.1
        omega
    · rw [timerOf_of_begins initial begins]
      by_cases silent : retire.outstanding = []
      · rcases retire.transmit_cases with same | ⟨_, timer⟩
        · rw [same] at something
          exact absurd silent something
        · rw [timer, reset, if_pos silent]
          exact Timer.start_eq _
      · have started := reset
        rw [if_neg silent] at started
        rcases retire.transmit_cases with same | ⟨_, timer⟩
        · rw [same, started]
        · rw [timer, started]
          rfl

theorem Timed.tick_of_idle (timed : s.Timed initial history) (nothing : s.outstanding = [])
    (span : Duration) : s.tick span = s := by
  have idle : s.timer.tick span = (false, s.timer) := by
    rw [timed.idle nothing]
    rfl
  unfold Sender.tick
  rw [idle]
  rfl

theorem tick_of_expires {oldest : Sent} {rest : List Sent}
    (outstanding : s.outstanding = oldest :: rest) {span : Duration}
    (expires : (s.timer.tick span).1 = true) :
    s.tick span = { s with
      queue := s.queue ++ [oldest.segment]
      timer := (s.timer.tick span).2.backOff (s.window != 0) } := by
  unfold Sender.tick
  dsimp only
  rw [if_pos expires, outstanding]

theorem tick_of_not_expires {span : Duration} (waits : (s.timer.tick span).1 = false) :
    s.tick span = { s with timer := (s.timer.tick span).2 } := by
  unfold Sender.tick
  dsimp only
  rw [if_neg (by simp [waits])]

theorem Timed.tick (timed : s.Timed initial history) (span : Duration) :
    (s.tick span).Timed initial (history ++ [⟨s, .tick span⟩]) := by
  have accounted := timed.accounted.tick span
  have kept : (s.tick span).acked = s.acked ∧ (s.tick span).next = s.next ∧
      (s.tick span).outstanding = s.outstanding := by
    obtain ⟨again, timer, _, ticked⟩ := s.tick_eq span
    rw [ticked]
    exact ⟨rfl, rfl, rfl⟩
  have goes_on : (⟨s, .tick span⟩ : Moment).begins = false := by
    have reached : (⟨s, .tick span⟩ : Moment).after = s.tick span := rfl
    simp [Moment.begins, reached, kept.1, kept.2.1]
  refine ⟨accounted, fun nothing => ?_, fun something => ?_⟩
  · rw [kept.2.2] at nothing
    rw [timed.tick_of_idle nothing]
    exact timed.idle nothing
  · rw [kept.2.2] at something
    obtain ⟨oldest, rest, outstanding⟩ := List.exists_cons_of_ne_nil something
    have running := timed.running something
    cases expires : (s.timer.tick span).1 with
    | true =>
      have counted : (⟨s, .tick span⟩ : Moment).expires = true := expires
      rw [tick_of_expires outstanding expires]
      unfold timerOf
      rw [waited_of_expires goes_on counted, expirations_append goes_on,
        openExpirations_append goes_on, counted, Bool.toNat_true, UInt32.ofNat_add]
      show ((s.timer.tick span).2.backOff (s.window != 0)) = _
      rw [running]
      cases opened : s.window != 0 with
      | true =>
        have told : (⟨s, .tick span⟩ : Moment).windowOpen = true := opened
        rw [told, Bool.and_true, Bool.toNat_true, ← Duration.scale_doubled]
        rfl
      | false =>
        have told : (⟨s, .tick span⟩ : Moment).windowOpen = false := opened
        rw [told]
        rfl
    | false =>
      have counted : (⟨s, .tick span⟩ : Moment).expires = false := expires
      rw [tick_of_not_expires expires]
      unfold timerOf
      rw [waited_of_not_expires goes_on counted, expirations_append goes_on,
        openExpirations_append goes_on, counted]
      show (s.timer.tick span).2 = ⟨_, _, some (.ofMillis (waited history + span.millis)), _⟩
      rw [running, ← Duration.ofMillis_add]
      rfl

theorem Timed.step (timed : s.Timed initial history) {op : Op} (noReset : op ≠ .sendReset) :
    (s.step op).2.Timed initial (history ++ [⟨s, op⟩]) := by
  cases op with
  | transmit => exact timed.transmit
  | acknowledge ackno window => exact timed.acknowledge ackno window
  | tick span => exact timed.tick span
  | sendEmpty | input => exact timed.keep rfl (by simp) rfl rfl rfl rfl
  | sendReset => exact absurd rfl noReset

theorem Timed.run (timed : s.Timed initial history) {ops : List Op} (noReset : .sendReset ∉ ops) :
    (s.run ops).Timed initial (history ++ s.moments ops) := by
  induction ops using List.reverseRecOn with
  | nil =>
    rw [moments, List.append_nil]
    exact timed
  | append_singleton front op ih =>
    rw [List.mem_append, not_or, List.mem_singleton] at noReset
    have last := (ih noReset.1).step (Ne.symm noReset.2)
    rw [moments_last, ← List.append_assoc, Sender.run, List.foldl_append]
    exact last

end History

end Sender

end Tcp

end NetStack
