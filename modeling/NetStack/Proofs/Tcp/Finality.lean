import NetStack.Proofs.Tcp.Succession

namespace NetStack.Tcp

theorem Sender.state_eq_failed_iff (s : Sender) : s.state = .failed ↔ s.stream.failed = true := by
  unfold Sender.state
  split_ifs <;> simp_all

theorem Receiver.state_eq_failed_iff (r : Receiver) :
    r.state = .failed ↔ r.stream.failed = true := by
  unfold Receiver.state
  split_ifs <;> simp_all

namespace Connection

def Intact (c : Connection) : Prop := c.inbound.failed = false ∧ c.outbound.failed = false

def TornDown (c : Connection) : Prop := c.inbound.failed = true ∧ c.outbound.failed = true

instance (c : Connection) : Decidable c.TornDown := inferInstanceAs (Decidable (_ ∧ _))

/-- The segment that tells the peer of a reset: it stands at the next position and occupies
    nothing. -/
def farewell (c : Connection) : Segment :=
  c.stamp { seqno := c.sender.nextSeqno, flags := { rst := true } }

def GivesUp (c : Connection) (span : Duration) : Prop :=
  c.maxRetransmissions < (c.sender.tick span).timer.retries

instance (c : Connection) (span : Duration) : Decidable (c.GivesUp span) :=
  inferInstanceAs (Decidable (_ < _))

/-- How an operation tears a connection down, and what that leaves in the outbound queue. -/
inductive TearsDown (c : Connection) : Op → List Segment → Prop
  | heard {segment : Segment} (rst : segment.flags.rst = true) : TearsDown c (.receive segment) []
  | aborted : TearsDown c .abort (c.queue ++ [c.farewell])
  | gaveUp {span : Duration} (exhausted : c.GivesUp span) :
      TearsDown c (.tick span) (c.queue ++ [c.farewell])

variable {c : Connection}

theorem state_eq_of_inactive (inactive : c.active = false) :
    c.state = if c.outbound.failed || c.inbound.failed then .reset else .closed := by
  have sending := c.sender.state_eq_failed_iff
  have receiving := c.receiver.state_eq_failed_iff
  unfold state outbound inbound
  rw [inactive]
  cases broken : c.sender.stream.failed with
  | true =>
    rw [sending.mpr broken]
    rfl
  | false =>
    cases deaf : c.receiver.stream.failed with
    | true =>
      rw [receiving.mpr deaf]
      split <;> simp_all
    | false =>
      split <;> simp_all

theorem TornDown.state_eq (torn : c.TornDown) (inactive : c.active = false) : c.state = .reset := by
  rw [state_eq_of_inactive inactive, torn.1, torn.2]
  rfl

theorem Intact.state_eq (intact : c.Intact) (inactive : c.active = false) : c.state = .closed := by
  rw [state_eq_of_inactive inactive, intact.1, intact.2]
  rfl

theorem abort_queue (active : c.active = true) : c.abort.queue = c.queue ++ [c.farewell] := by
  unfold abort
  rw [if_pos active]
  rfl

inductive Ends (c : Connection) (op : Op) : Connection → Prop
  | spared {after : Connection} (inbound : after.inbound.failed = c.inbound.failed)
      (outbound : after.outbound.failed = c.outbound.failed) : Ends c op after
  | torn {after : Connection} (active : c.active = true) (inactive : after.active = false)
      (torn : after.TornDown) (tears : c.TearsDown op after.queue) : Ends c op after

theorem calm_ends (sound : c.Sound) {op : Op} (calm : op.Calm) : c.Ends op (c.step op).2 := by
  obtain ⟨asked, fed, carries, does⟩ := c.step_carries op sound.ready
  apply Ends.spared
  · unfold inbound
    rw [does.receiver]
    obtain nothing | ⟨segment, _, heard⟩ := carries.fed_calm calm
    · rw [nothing]
      rfl
    · rw [heard]
      exact c.receiver.failed_receive segment
  · unfold outbound
    rw [does.sender]
    exact Sender.failed_run_calm (carries.calm calm)

theorem receive_ends {segment : Segment} (rst : segment.flags.rst = true) :
    c.Ends (.receive segment) (c.receive segment) := by
  unfold Connection.receive
  split
  · exact .spared rfl rfl
  · rename_i heeded
    have active : c.active = true := by simp_all
    exact .torn active rfl ⟨rfl, rfl⟩ (.heard rst)

theorem tick_of_tolerated (active : c.active = true) {span : Duration} (tolerated : ¬ c.GivesUp span) :
    c.tick span = ({ c with idle := c.idle + span, sender := c.sender.tick span } :
      Connection).flush.settle := by
  unfold Connection.tick
  rw [if_pos active]
  exact if_neg tolerated

/-- Giving up queues the reset only: the retransmission that exceeded the limit is withdrawn, and
    where the reset stands does not depend on it. -/
theorem tick_of_givesUp (active : c.active = true) {span : Duration} (exhausted : c.GivesUp span) :
    (c.tick span).active = false ∧ (c.tick span).TornDown ∧
      (c.tick span).queue = c.queue ++ [c.farewell] := by
  have ticked : c.tick span =
      ({ c with idle := c.idle + span, sender := c.sender.tick span } : Connection).abort := by
    unfold Connection.tick
    rw [if_pos active]
    exact if_pos exhausted
  obtain ⟨again, timer, _, advanced⟩ := c.sender.tick_eq span
  rw [ticked]
  refine ⟨(abort_torn (by exact active)).1, ?_, ?_⟩
  · unfold abort
    rw [if_pos (by exact active)]
    exact ⟨rfl, rfl⟩
  · rw [abort_queue (by exact active), advanced]
    rfl

theorem tick_ends (span : Duration) : c.Ends (.tick span) (c.tick span) := by
  by_cases active : c.active = true
  · by_cases exhausted : c.GivesUp span
    · obtain ⟨inactive, torn, queue⟩ := tick_of_givesUp active exhausted
      refine .torn active inactive torn ?_
      rw [queue]
      exact .gaveUp exhausted
    · obtain ⟨again, timer, _, ticked⟩ := c.sender.tick_eq span
      rw [tick_of_tolerated active exhausted, ticked]
      exact .spared rfl rfl
  · unfold Connection.tick
    rw [if_neg active]
    exact .spared rfl rfl

theorem abort_ends : c.Ends .abort c.abort := by
  by_cases active : c.active = true
  · have queue := abort_queue active
    refine .torn active (abort_torn active).1 ?_ ?_
    · unfold abort
      rw [if_pos active]
      exact ⟨rfl, rfl⟩
    · rw [queue]
      exact .aborted
  · unfold abort
    rw [if_neg active]
    exact .spared rfl rfl

theorem step_ends (sound : c.Sound) (op : Op) : c.Ends op (c.step op).2 := by
  cases op with
  | connect | write | finish => exact calm_ends sound trivial
  | receive segment =>
    cases rst : segment.flags.rst with
    | false => exact calm_ends sound rst
    | true => exact receive_ends rst
  | tick span => exact tick_ends span
  | abort => exact abort_ends
  | read | dispatch | wait => exact .spared rfl rfl

structure FailsAsOne (c : Connection) : Prop where
  together : c.inbound.failed = c.outbound.failed
  intact : c.active = true → c.Intact

theorem ofStorage_failsAsOne (config : Config) (inbound outbound : Array UInt8) :
    (ofStorage config inbound outbound).FailsAsOne where
  together := rfl
  intact := fun _ => ⟨rfl, rfl⟩

theorem FailsAsOne.step (asOne : c.FailsAsOne) (sound : c.Sound) (op : Op) :
    (c.step op).2.FailsAsOne := by
  have earlier : (c.step op).2.active = true → c.active = true := active_of_step
  have ends := step_ends sound op
  generalize (c.step op).2 = after at earlier ends
  cases ends with
  | spared inbound outbound =>
    constructor
    · rw [inbound, outbound]
      exact asOne.together
    · intro active
      have before := asOne.intact (earlier active)
      exact ⟨inbound.trans before.1, outbound.trans before.2⟩
  | torn _ inactive torn =>
    constructor
    · rw [torn.1, torn.2]
    · intro active
      rw [inactive] at active
      cases active

theorem FailsAsOne.run (asOne : c.FailsAsOne) (sound : c.Sound) (ops : List Op) :
    (c.run ops).FailsAsOne := by
  induction ops generalizing c with
  | nil => exact asOne
  | cons op rest ih => exact ih (asOne.step sound op) (sound.step op)

theorem FailsAsOne.intact_or_tornDown (asOne : c.FailsAsOne) : c.Intact ∨ c.TornDown := by
  unfold Intact TornDown
  rw [asOne.together]
  cases c.outbound.failed <;> simp

/-- What no operation on a connection that is over changes or adds to. -/
structure Rests (before after : Connection) : Prop where
  active : after.active = false
  inbound : after.inbound.failed = before.inbound.failed
  outbound : after.outbound.failed = before.outbound.failed
  queue : after.queue <:+ before.queue

theorem Rests.state_eq {after : Connection} (rests : c.Rests after) (inactive : c.active = false) :
    after.state = c.state := by
  rw [state_eq_of_inactive rests.active, state_eq_of_inactive inactive, rests.inbound, rests.outbound]

theorem rests_step (sound : c.Sound) (inactive : c.active = false) (op : Op) :
    c.Rests (c.step op).2 := by
  have still : (c.step op).2.active = false := by
    by_contra active
    rw [active_of_step (eq_true_of_ne_false active)] at inactive
    cases inactive
  obtain ⟨asked, fed, carries, does⟩ := c.step_carries op sound.ready
  have silent := (carries.silent_of_inactive inactive).trans sound.ready
  have queue : (c.step op).2.queue <:+ c.queue := by
    obtain appended | ⟨_, left⟩ := does.queue
    · rw [appended, silent, List.map_nil, List.append_nil]
    · exact left
  have ends := step_ends sound op
  generalize (c.step op).2 = after at still queue ends
  cases ends with
  | spared inbound outbound => exact ⟨still, inbound, outbound, queue⟩
  | torn active =>
    rw [inactive] at active
    cases active

theorem rests_run (sound : c.Sound) (inactive : c.active = false) (ops : List Op) :
    c.Rests (c.run ops) := by
  induction ops generalizing c with
  | nil => exact ⟨inactive, rfl, rfl, List.suffix_rfl⟩
  | cons op rest ih =>
    have first := rests_step sound inactive op
    have later := ih (sound.step op) first.active
    exact ⟨later.active, later.inbound.trans first.inbound, later.outbound.trans first.outbound,
      later.queue.trans first.queue⟩

theorem journal_of_inactive (sound : c.Sound) (inactive : c.active = false) (ops : List Op) :
    c.journal ops = [] := by
  apply List.eq_nil_iff_forall_not_mem.mpr
  intro entry member
  obtain ⟨front, op, back, _, queued⟩ := (mem_gather entriesBy c).mp member
  obtain ⟨segment, added, _⟩ := List.mem_map.mp queued
  have active := active_of_queuedBy (sound.run front) added
  rw [(rests_run sound inactive front).active] at active
  cases active

/-- Both directions are through: the inbound stream has come to its end and nothing of it waits for
    reassembly, and the outbound one is drained, its FIN was sent, and nothing is in flight. -/
structure Parted (c : Connection) : Prop where
  inputEnded : c.inbound.inputEnded = true
  unassembled : c.receiver.unassembled = 0
  drained : c.outbound.atEnd = true
  next : c.sender.next = c.sender.endPosition
  inFlight : c.sender.inFlight = 0

theorem Complete.parted (complete : c.Complete) : c.Parted := by
  obtain ⟨inbound, outbound⟩ := complete
  simp only [inboundComplete, outboundComplete, Bool.and_eq_true, beq_iff_eq] at inbound outbound
  exact ⟨inbound.2, inbound.1, outbound.1.1, outbound.1.2, outbound.2⟩

/-- There are two ways for a connection to be over, and both are final. While it is active neither
    stream has failed. Then it was torn down, with both streams failed, or it closed, with both
    directions through; it stays that way, and nothing more is queued. A reset that arrives leaves
    nothing to be sent, and one that is sent is all that is added. -/
theorem over_for_good (config : Config) (inbound outbound : Array UInt8) (ops : List Op) :
    let start := ofStorage config inbound outbound
    let last := start.run ops
    (last.active = true → last.Intact) ∧
    (last.active = false →
      (last.TornDown ∧ last.state = .reset ∨
        last.Intact ∧ last.state = .closed ∧ last.Parted ∧ start.FinSent ops) ∧
      ∀ more, (last.run more).active = false ∧ (last.run more).state = last.state ∧
        last.journal more = [] ∧ (last.run more).queue <:+ last.queue) ∧
    (∀ op, last.active = true → (last.step op).2.active = false →
      ((last.step op).2.TornDown ∧ last.TearsDown op (last.step op).2.queue ∨
        (last.step op).2.Intact)) := by
  intro start last
  have begins : start.Traced := ofStorage_traced config inbound outbound
  have traced : last.Traced := begins.run ops
  have asOne : last.FailsAsOne := (ofStorage_failsAsOne config inbound outbound).run begins.sound ops
  refine ⟨asOne.intact, ?_, ?_⟩
  · intro inactive
    constructor
    · obtain intact | torn := asOne.intact_or_tornDown
      · right
        have complete : last.Complete := (traced.concluded inactive).resolve_left fun failed => by
          rw [intact.1] at failed
          cases failed.1
        have parted := complete.parted
        have finished := (begins.finSent_iff rfl ops).mp (Nat.le_of_eq parted.next.symm)
        exact ⟨intact, intact.state_eq inactive, parted, finished⟩
      · exact .inl ⟨torn, torn.state_eq inactive⟩
    · intro more
      have rests := rests_run traced.sound inactive more
      exact ⟨rests.active, rests.state_eq inactive, journal_of_inactive traced.sound inactive more,
        rests.queue⟩
  · intro op active _
    have ends := step_ends traced.sound op
    generalize (last.step op).2 = after at ends
    cases ends with
    | spared heard sent =>
      have before := asOne.intact active
      exact .inr ⟨heard.trans before.1, sent.trans before.2⟩
    | torn _ _ torn tears => exact .inl ⟨torn, tears⟩

def impatient : Config :=
  { receiveCapacity := 4, sendCapacity := 4, isn := some ⟨0⟩, maxRetransmissions := 0 }

/-- Nobody answers the SYN: what it is told after it has given up is not looked at. The other
    connection is closed by its peer first and then by its own side. -/
theorem over_for_good_impatient :
    let opened := (ofConfig impatient).run [.connect]
    let expires : Op := .tick (.ofMillis 1000)
    let late : List Op := [.receive { flags := { syn := true } }, .write [7], .dispatch (some 1)]
    let last : Op := .receive { seqno := ⟨2⟩, ackno := ⟨2⟩, flags := { ack := true }, window := 4 }
    (opened.active = true ∧ opened.Intact ∧ (opened.step expires).2.TornDown ∧
      opened.TearsDown expires (opened.step expires).2.queue) ∧
    (((opened.step expires).2.run late).state = .reset ∧
      (opened.step expires).2.journal late = []) ∧
    (small.run (passive ++ [last])).active = false ∧ (small.run (passive ++ [last])).Parted ∧
      small.FinSent (passive ++ [last]) := by
  intro opened expires late last
  have active : opened.active = true := by decide +kernel
  have inactive : (opened.step expires).2.active = false := by decide +kernel
  have torn : (opened.step expires).2.TornDown := by decide +kernel
  have closed : (small.run (passive ++ [last])).active = false := by decide +kernel
  obtain ⟨intact, _, ends⟩ := over_for_good impatient (Array.replicate 4 0) (Array.replicate 4 0)
    [.connect]
  obtain ⟨_, final, _⟩ := over_for_good impatient (Array.replicate 4 0) (Array.replicate 4 0)
    [.connect, expires]
  obtain ⟨_, parted, _⟩ := over_for_good
    { receiveCapacity := 4, sendCapacity := 4, isn := some ⟨0⟩ } (Array.replicate 4 0)
    (Array.replicate 4 0) (passive ++ [last])
  refine ⟨⟨active, intact active, torn, ?_⟩, ?_, closed, ?_⟩
  · obtain ⟨_, tears⟩ | spared := ends expires active inactive
    · exact tears
    · exact absurd (torn.1.symm.trans spared.1) (by decide)
  · obtain ⟨⟨_, state⟩ | ⟨spared, _⟩, rest⟩ := final inactive
    · obtain ⟨_, still, journal, _⟩ := rest late
      exact ⟨still.trans state, journal⟩
    · exact absurd (torn.1.symm.trans spared.1) (by decide)
  · obtain ⟨⟨broken, _⟩ | ⟨_, _, through, finished⟩, _⟩ := parted closed
    · have spared : (small.run (passive ++ [last])).inbound.failed = false := by decide +kernel
      exact absurd (broken.1.symm.trans spared) (by decide)
    · exact ⟨through, finished⟩

end Connection

end NetStack.Tcp
