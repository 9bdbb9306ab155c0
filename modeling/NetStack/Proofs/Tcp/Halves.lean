import NetStack.Proofs.Tcp.Accounting
import NetStack.Proofs.Tcp.Fidelity
import NetStack.Tcp.Connection

namespace NetStack.Tcp

theorem Sender.run_append (s : Sender) (first second : List Sender.Op) :
    s.run (first ++ second) = (s.run first).run second := List.foldl_append

namespace Connection

def openingOps (c : Connection) (segment : Segment) : List Sender.Op :=
  if segment.flags.syn && c.isUnopened then [.transmit] else []

/-- What the sending half is asked about an accepted segment, up to a bare acknowledgement. -/
def answerOps (c : Connection) (segment : Segment) : List Sender.Op :=
  c.openingOps segment ++
    if segment.flags.ack then
      .acknowledge segment.ackno segment.window ::
        if c.isUnopened && !segment.flags.syn then [] else [.transmit]
    else []

theorem mem_answerOps {c : Connection} {segment : Segment} {request : Sender.Op}
    (member : request ∈ c.answerOps segment) : request = .transmit ∨
      segment.flags.ack = true ∧ request = .acknowledge segment.ackno segment.window := by
  rcases List.mem_append.mp member with opens | answers
  · rw [openingOps, List.mem_ite_nil_right, List.mem_singleton] at opens
    exact .inl opens.2
  · rw [List.mem_ite_nil_right] at answers
    obtain ⟨ack, answers⟩ := answers
    rcases List.mem_cons.mp answers with tells | sends
    · exact .inr ⟨ack, tells⟩
    · rw [List.mem_ite_nil_left, List.mem_singleton] at sends
      exact .inl sends.2

/-- The operation, with its reply, asks these operations of the sending half and feeds these to the
    receiving half. -/
inductive Carries (c : Connection) : Op → Reply → List Sender.Op → List Receiver.Op → Prop
  | ignored {op : Op} {reply : Reply} (noCount : ∀ n, reply ≠ .count n)
      (noBytes : ∀ data, reply ≠ .bytes data) (noSegment : ∀ segment, op ≠ .receive segment) :
      Carries c op reply [] []
  | deaf {segment : Segment}
      (waits : c.active = false ∨ c.isListening = true ∧ segment.flags.syn = false) :
      Carries c (.receive segment) .done [] []
  | connect (active : c.active = true) (unopened : c.isUnopened = true) :
      Carries c .connect .done [.transmit] []
  | write {data : Bytes} (active : c.active = true) (unended : c.outbound.inputEnded = false)
      (sound : c.outbound.failed = false) :
      Carries c (.write data) (.count (c.outbound.write data).1)
        (.input (.write data) :: if c.isUnopened then [] else [.transmit]) []
  | finish : Carries c .finish .done
      (.input .endInput :: if c.active && !c.isUnopened then [.transmit] else []) []
  | receive {segment : Segment} {closing : List Sender.Op} (active : c.active = true)
      (plain : segment.flags.rst = false) (bare : ∀ op ∈ closing, op = .sendEmpty) :
      Carries c (.receive segment) .done (c.answerOps segment ++ closing) [.receive segment]
  | reset {segment : Segment} (active : c.active = true) (rst : segment.flags.rst = true) :
      Carries c (.receive segment) .done [.input .fail] [.output .fail]
  | tick {span : Duration} (active : c.active = true) :
      Carries c (.tick span) .done [.tick span] []
  | giveUp {span : Duration} (active : c.active = true) :
      Carries c (.tick span) .done [.tick span, .input .fail, .sendReset] [.output .fail]
  | abort (active : c.active = true) :
      Carries c .abort .done [.input .fail, .sendReset] [.output .fail]
  | read {count : Nat} :
      Carries c (.read count) (.bytes (c.inbound.peek count)) [] [.output (.read count)]

/-- The two halves have done what was asked of them, and what the sending half queued was stamped
    and queued behind all that was in the queue. Only where it queued nothing, something may have
    left the queue. -/
structure Does (before after : Connection) (asked : List Sender.Op) (fed : List Receiver.Op) :
    Prop where
  sender : after.sender = { before.sender.run asked with queue := [] }
  receiver : after.receiver = before.receiver.run fed
  queue : after.queue = before.queue ++ (before.sender.run asked).queue.map after.stamp ∨
    ((before.sender.run asked).queue = [] ∧ after.queue <:+ before.queue)

variable {c : Connection}

theorem Does.ofFlush {current : Connection} {asked : List Sender.Op} {fed : List Receiver.Op}
    (sender : current.sender = c.sender.run asked)
    (receiver : current.receiver = c.receiver.run fed) (queue : current.queue = c.queue) :
    c.Does current.flush asked fed where
  sender := by
    rw [← sender]
    rfl
  receiver := receiver
  queue := by
    left
    rw [← sender, ← queue]
    rfl

theorem Does.settle {after : Connection} {asked : List Sender.Op} {fed : List Receiver.Op}
    (does : c.Does after asked fed) : c.Does after.settle asked fed :=
  ⟨does.sender, does.receiver, does.queue⟩

/-- Where the queues of the connection do not matter to its halves. -/
theorem Does.quiet {after : Connection} {asked : List Sender.Op} {fed : List Receiver.Op}
    (sender : after.sender = c.sender.run asked) (receiver : after.receiver = c.receiver.run fed)
    (queue : after.queue <:+ c.queue) (ready : (c.sender.run asked).queue = []) :
    c.Does after asked fed where
  sender := by
    rw [sender, ← ready]
  receiver := receiver
  queue := .inr ⟨ready, queue⟩

theorem openingOps_next (c : Connection) (segment : Segment) :
    (c.sender.run (c.openingOps segment)).next = 0 ↔
      (c.isUnopened && !segment.flags.syn) = true := by
  unfold openingOps
  by_cases unopened : c.sender.next = 0
  · cases syn : segment.flags.syn with
    | true =>
      have opened := c.sender.transmit_next_pos
      simp [isUnopened, unopened, Sender.run, Sender.step]
      omega
    | false => simp [isUnopened, unopened, Sender.run]
  · simp [isUnopened, unopened, Sender.run]

def openFor (c : Connection) (segment : Segment) : Connection :=
  if segment.flags.syn && c.isUnopened then { c with sender := c.sender.transmit } else c

def note (c : Connection) (segment : Segment) : Connection :=
  if segment.flags.ack then
    let acknowledged := c.sender.acknowledge segment.ackno segment.window
    { c with
      established := true
      sender := if acknowledged.next = 0 then acknowledged else acknowledged.transmit }
  else c

def confirm (c : Connection) (segment : Segment) : Connection :=
  if (decide (0 < segment.space) || c.asksForAnswer segment) && c.sender.queue.isEmpty &&
      c.receiver.ackno?.isSome then
    { c with sender := c.sender.sendEmpty }
  else c

theorem answer_stages (c : Connection) (segment : Segment) :
    c.answer segment = ((c.openFor segment).note segment).confirm segment := rfl

theorem openFor_eq (c : Connection) (segment : Segment) :
    c.openFor segment = { c with sender := c.sender.run (c.openingOps segment) } := by
  unfold openFor openingOps
  split <;> rfl

theorem note_openFor_eq (c : Connection) (segment : Segment) :
    (c.openFor segment).note segment = { c with
      established := c.established || segment.flags.ack
      sender := c.sender.run (c.answerOps segment) } := by
  have waits := ((c.sender.run (c.openingOps segment)).acknowledge_next_eq_zero segment.ackno
    segment.window).trans (c.openingOps_next segment)
  rw [openFor_eq]
  unfold note answerOps
  rw [Sender.run_append]
  cases segment.flags.ack with
  | true =>
    simp only [if_true, Bool.or_true, waits]
    split <;> rfl
  | false => simp [Sender.run]

theorem confirm_eq (c : Connection) (segment : Segment) :
    ∃ closing, (∀ op ∈ closing, op = Sender.Op.sendEmpty) ∧
      c.confirm segment = { c with sender := c.sender.run closing } := by
  unfold confirm
  split
  · exact ⟨[.sendEmpty], fun op member => List.mem_singleton.mp member, rfl⟩
  · exact ⟨[], by simp, rfl⟩

theorem answer_eq (c : Connection) (segment : Segment) :
    ∃ closing, (∀ op ∈ closing, op = Sender.Op.sendEmpty) ∧
      c.answer segment = { c with
        established := c.established || segment.flags.ack
        sender := c.sender.run (c.answerOps segment ++ closing) } := by
  rw [answer_stages, note_openFor_eq]
  obtain ⟨closing, bare, confirms⟩ := confirm_eq _ segment
  refine ⟨closing, bare, confirms.trans ?_⟩
  rw [Sender.run_append]

theorem active_answer (c : Connection) (segment : Segment) :
    (c.answer segment).active = c.active := by
  obtain ⟨closing, _, answer⟩ := c.answer_eq segment
  rw [answer]

theorem unchanged_carries {op : Op} {reply : Reply} (ready : c.sender.queue = [])
    (noCount : ∀ n, reply ≠ .count n) (noBytes : ∀ data, reply ≠ .bytes data)
    (noSegment : ∀ segment, op ≠ .receive segment) :
    ∃ asked fed, c.Carries op reply asked fed ∧ c.Does c asked fed :=
  ⟨[], [], .ignored noCount noBytes noSegment, .quiet rfl rfl List.suffix_rfl ready⟩

theorem step_connect (c : Connection) : c.step .connect =
    if c.active && c.isUnopened then (.done, { c with sender := c.sender.transmit }.flush)
    else (.refused .cannotConnect, c) := by
  unfold step connect
  cases c.active && c.isUnopened <;> rfl

theorem step_write (c : Connection) (data : Bytes) : c.step (.write data) =
    if c.active && !c.outbound.inputEnded && !c.outbound.failed then
      let filled := { c.sender with stream := (c.outbound.write data).2 }
      (.count (c.outbound.write data).1,
        if c.isUnopened then { c with sender := filled }
        else { c with sender := filled.transmit }.flush)
    else (.refused .cannotWrite, c) := by
  unfold step write
  cases c.active && !c.outbound.inputEnded && !c.outbound.failed with
  | false => rfl
  | true => cases c.isUnopened <;> simp

theorem connect_carries (c : Connection) (ready : c.sender.queue = []) :
    ∃ asked fed, c.Carries .connect (c.step .connect).1 asked fed ∧
      c.Does (c.step .connect).2 asked fed := by
  rw [step_connect]
  by_cases allowed : (c.active && c.isUnopened) = true
  · rw [if_pos allowed]
    rw [Bool.and_eq_true] at allowed
    exact ⟨_, _, .connect allowed.1 allowed.2, .ofFlush rfl rfl rfl⟩
  · rw [if_neg allowed]
    exact unchanged_carries ready (by simp) (by simp) (by simp)

theorem write_carries (c : Connection) (data : Bytes) (ready : c.sender.queue = []) :
    ∃ asked fed, c.Carries (.write data) (c.step (.write data)).1 asked fed ∧
      c.Does (c.step (.write data)).2 asked fed := by
  rw [step_write]
  by_cases allowed : (c.active && !c.outbound.inputEnded && !c.outbound.failed) = true
  · rw [if_pos allowed]
    simp only [Bool.and_eq_true, Bool.not_eq_true'] at allowed
    refine ⟨_, _, .write allowed.1.1 allowed.1.2 allowed.2, ?_⟩
    dsimp only
    by_cases unopened : c.isUnopened = true
    · rw [if_pos unopened, if_pos unopened]
      exact .quiet rfl rfl List.suffix_rfl ready
    · rw [if_neg unopened, if_neg unopened]
      exact .ofFlush rfl rfl rfl
  · rw [if_neg allowed]
    exact unchanged_carries ready (by simp) (by simp) (by simp)

theorem finish_does (c : Connection) (ready : c.sender.queue = []) :
    c.Does c.finish
      (.input .endInput :: if c.active && !c.isUnopened then [.transmit] else []) [] := by
  unfold Connection.finish
  dsimp only
  by_cases sends : (c.active && !c.isUnopened) = true
  · rw [if_pos sends, if_pos sends]
    apply Does.settle
    exact .ofFlush rfl rfl rfl
  · rw [if_neg sends, if_neg sends]
    exact .quiet rfl rfl List.suffix_rfl ready

theorem receive_carries (c : Connection) (segment : Segment) (ready : c.sender.queue = []) :
    ∃ asked fed, c.Carries (.receive segment) .done asked fed ∧
      c.Does (c.receive segment) asked fed := by
  unfold receive
  by_cases ignored : (!c.active || (c.isListening && !segment.flags.syn)) = true
  · rw [if_pos ignored]
    refine ⟨[], [], .deaf ?_, .quiet rfl rfl List.suffix_rfl ready⟩
    simpa using ignored
  · rw [if_neg ignored]
    have active : c.active = true := by simp_all
    by_cases rst : segment.flags.rst = true
    · rw [if_pos rst]
      exact ⟨_, _, .reset active rst, rfl, rfl, .inr ⟨ready, List.nil_suffix⟩⟩
    · rw [if_neg rst]
      obtain ⟨closing, bare, answer⟩ := answer_eq
        { c with idle := .zero, receiver := c.receiver.receive segment } segment
      refine ⟨_, _, .receive active (by simpa using rst) bare, Does.settle ?_⟩
      rw [answer]
      exact .ofFlush rfl rfl rfl

theorem tick_carries (c : Connection) (span : Duration) (ready : c.sender.queue = []) :
    ∃ asked fed, c.Carries (.tick span) .done asked fed ∧ c.Does (c.tick span) asked fed := by
  unfold tick
  by_cases active : c.active = true
  · rw [if_pos active]
    dsimp only
    split
    · refine ⟨_, _, .giveUp active, ?_⟩
      unfold abort
      rw [if_pos active]
      exact ⟨rfl, rfl, .inl rfl⟩
    · refine ⟨_, _, .tick active, ?_⟩
      apply Does.settle
      exact .ofFlush rfl rfl rfl
  · rw [if_neg active]
    exact unchanged_carries ready (by simp) (by simp) (by simp)

theorem abort_carries (c : Connection) (ready : c.sender.queue = []) :
    ∃ asked fed, c.Carries .abort .done asked fed ∧ c.Does c.abort asked fed := by
  unfold abort
  by_cases active : c.active = true
  · rw [if_pos active]
    exact ⟨_, _, .abort active, rfl, rfl, .inl rfl⟩
  · rw [if_neg active]
    exact unchanged_carries ready (by simp) (by simp) (by simp)

/-- Every operation on a connection, in terms of its two halves. -/
theorem step_carries (c : Connection) (op : Op) (ready : c.sender.queue = []) :
    ∃ asked fed, c.Carries op (c.step op).1 asked fed ∧ c.Does (c.step op).2 asked fed := by
  cases op with
  | connect => exact c.connect_carries ready
  | write data => exact c.write_carries data ready
  | finish => exact ⟨_, _, .finish, c.finish_does ready⟩
  | receive segment => exact c.receive_carries segment ready
  | tick span => exact c.tick_carries span ready
  | abort => exact c.abort_carries ready
  | read count => exact ⟨_, _, .read, .quiet rfl rfl List.suffix_rfl ready⟩
  | dispatch limit =>
    refine ⟨[], [], .ignored (by simp [step]) (by simp [step]) (by simp), ?_⟩
    exact .quiet rfl rfl (List.drop_suffix _ _) ready
  | wait => exact unchanged_carries ready (by simp [step]) (by simp [step]) (by simp)

/-- The reason that an operation on the connection has to ask something of the sending half. -/
def Warrants (op : Op) : Sender.Op → Prop
  | .acknowledge ackno window => ∃ segment, op = .receive segment ∧ segment.flags.rst = false ∧
      segment.flags.ack = true ∧ segment.ackno = ackno ∧ segment.window = window
  | .input (.write data) => op = .write data
  | .input .endInput => op = .finish
  | .sendReset => op = .abort ∨ ∃ span, op = .tick span
  | .input .fail | .transmit | .tick _ | .sendEmpty => True
  | .input _ => False

theorem warrants_answer {segment : Segment} (plain : segment.flags.rst = false) :
    ∀ request ∈ c.answerOps segment, Warrants (.receive segment) request := by
  intro request member
  rcases mem_answerOps member with rfl | ⟨ack, rfl⟩
  · trivial
  · exact ⟨segment, rfl, plain, ack, rfl, rfl⟩

theorem Carries.warrants {op : Op} {reply : Reply} {asked : List Sender.Op} {fed : List Receiver.Op}
    (carries : c.Carries op reply asked fed) : ∀ request ∈ asked, Warrants op request := by
  intro request member
  cases carries with
  | ignored | deaf | read => cases member
  | connect | tick | giveUp | abort | reset =>
    simp only [List.mem_cons, List.not_mem_nil, or_false] at member
    rcases member with rfl | rfl | rfl <;> simp [Warrants]
  | write =>
    rcases List.mem_cons.mp member with rfl | sends
    · rfl
    · rw [List.mem_ite_nil_left, List.mem_singleton] at sends
      rw [sends.2]
      trivial
  | finish =>
    rcases List.mem_cons.mp member with rfl | sends
    · rfl
    · rw [List.mem_ite_nil_right, List.mem_singleton] at sends
      rw [sends.2]
      trivial
  | receive _ plain bare =>
    rcases List.mem_append.mp member with answers | closes
    · exact warrants_answer plain request answers
    · cases bare _ closes
      trivial

theorem Warrants.leaves {op : Op} {request : Sender.Op} (warrants : Warrants op request) :
    request.LeavesBytes := by
  cases request with
  | input input =>
    cases input with
    | read | readInto | pop => exact warrants.elim
    | write | peek | peekInto | endInput | fail => trivial
  | transmit | acknowledge | tick | sendEmpty | sendReset => trivial

section Stamp

variable (c : Connection) (segment : Segment)

@[simp] theorem stamp_seqno : (c.stamp segment).seqno = segment.seqno := by
  unfold stamp
  split <;> rfl

@[simp] theorem stamp_payload : (c.stamp segment).payload = segment.payload := by
  unfold stamp
  split <;> rfl

@[simp] theorem stamp_syn : (c.stamp segment).flags.syn = segment.flags.syn := by
  unfold stamp
  split <;> rfl

@[simp] theorem stamp_fin : (c.stamp segment).flags.fin = segment.flags.fin := by
  unfold stamp
  split <;> rfl

@[simp] theorem stamp_rst : (c.stamp segment).flags.rst = segment.flags.rst := by
  unfold stamp
  split <;> rfl

@[simp] theorem stamp_space : (c.stamp segment).space = segment.space := by
  simp [Segment.space]

end Stamp

end Connection

end NetStack.Tcp
