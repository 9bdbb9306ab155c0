import NetStack.Proofs.Tcp.Soundness

namespace NetStack.Tcp.Connection

variable {c : Connection}

theorem inputEnded_step (sound : c.Sound) (op : Op) (ended : c.inbound.inputEnded = true) :
    (c.step op).2.inbound.inputEnded = true := by
  unfold Connection.inbound Receiver.stream
  rcases reassembler_step sound op with ⟨output, still, kept⟩ | ⟨segment, _, inserted⟩
  · rw [kept]
    exact still.trans ended
  · rw [inserted]
    exact (Reassembler.insert_grows _ _ _ _).2 ended

theorem pending_of_ending (sound : c.Sound) (op : Op) (unended : c.inbound.inputEnded = false)
    (ended : (c.step op).2.inbound.inputEnded = true) :
    (c.step op).2.receiver.reassembler.pending = [] := by
  unfold Connection.inbound Receiver.stream at ended
  rcases reassembler_step sound op with ⟨output, still, kept⟩ | ⟨segment, _, inserted⟩
  · have ended : output.inputEnded = true := by
      rw [kept] at ended
      exact ended
    rw [still, unended] at ended
    cases ended
  · rw [inserted, Reassembler.inputEnded_insert] at ended
    rw [inserted]
    rcases ended with already | ⟨_, nothing⟩
    · exact absurd (unended.symm.trans already) (by simp)
    · exact nothing

def Stranded (c : Connection) : Prop :=
  c.inbound.inputEnded = true ∧ c.receiver.reassembler.pending ≠ []

theorem Stranded.step (stranded : c.Stranded) (sound : c.Sound) (op : Op) :
    (c.step op).2.Stranded := by
  refine ⟨inputEnded_step sound op stranded.1, ?_⟩
  rcases reassembler_step sound op with ⟨output, _, kept⟩ | ⟨segment, _, inserted⟩
  · rw [kept]
    exact stranded.2
  · rw [inserted]
    exact sound.tidy.insert_stranded stranded.1 stranded.2 _ _ _

theorem Stranded.not_complete (stranded : c.Stranded) (sound : c.Sound) :
    c.inboundComplete = false := by
  have waits : c.receiver.unassembled ≠ 0 := fun nothing =>
    stranded.2 (sound.tidy.unassembled_eq_zero.mp nothing)
  unfold inboundComplete
  simp [waits]

theorem inboundComplete_of_ended (sound : c.Sound) (ended : c.inbound.inputEnded = true)
    (clear : ¬ c.Stranded) : c.inboundComplete = true := by
  have nothing : c.receiver.reassembler.unassembled = 0 := by
    apply sound.tidy.unassembled_eq_zero.mpr
    by_contra waits
    exact clear ⟨ended, waits⟩
  unfold inboundComplete Receiver.unassembled
  rw [nothing, ended]
  rfl

/-- If the operation brings a segment after the end, it does not reach beyond the end. -/
def StaysWithin (c : Connection) : Op → Prop
  | .receive segment =>
    c.inbound.inputEnded = true → c.receiver.reach segment ≤ c.inbound.totalWritten
  | _ => True

instance (c : Connection) : DecidablePred c.StaysWithin
  | .receive segment => inferInstanceAs (Decidable
      (c.inbound.inputEnded = true → c.receiver.reach segment ≤ c.inbound.totalWritten))
  | .connect | .write _ | .finish | .tick _ | .abort | .read _ | .dispatch _ | .wait =>
    inferInstanceAs (Decidable True)

def StayWithin (c : Connection) : List Op → Prop
  | [] => True
  | op :: rest => c.StaysWithin op ∧ (c.step op).2.StayWithin rest

instance decidableStayWithin (c : Connection) : DecidablePred c.StayWithin
  | [] => inferInstanceAs (Decidable True)
  | op :: rest =>
    have := decidableStayWithin (c.step op).2 rest
    inferInstanceAs (Decidable (c.StaysWithin op ∧ (c.step op).2.StayWithin rest))

theorem not_stranded_step (sound : c.Sound) {op : Op} (before : ¬ c.Stranded)
    (within : c.StaysWithin op) : ¬ (c.step op).2.Stranded := by
  rintro ⟨ended, waits⟩
  cases already : c.inbound.inputEnded with
  | false => exact waits (pending_of_ending sound op already ended)
  | true =>
    have nothing : c.receiver.reassembler.pending = [] := by
      by_contra waiting
      exact before ⟨already, waiting⟩
    apply waits
    rcases reassembler_step sound op with ⟨output, _, kept⟩ | ⟨segment, rfl, inserted⟩
    · rw [kept]
      exact nothing
    · have behind : c.receiver.reach segment ≤ c.receiver.reassembler.next := by
        rw [sound.tidy.next_eq]
        exact within already
      have unchanged := Reassembler.insert_assembled _ segment.flags.fin behind
      rw [inserted, unchanged.2]
      exact nothing

theorem not_stranded_run (sound : c.Sound) {ops : List Op} (before : ¬ c.Stranded)
    (within : c.StayWithin ops) : ¬ (c.run ops).Stranded := by
  induction ops generalizing c with
  | nil => exact before
  | cons op rest ih =>
    obtain ⟨first, others⟩ := within
    exact ih (sound.step op) (not_stranded_step sound before first) others

/-- Once the inbound stream has ended, nothing waits for reassembly, as long as no segment reaches
    beyond the end; and what is stored behind the end keeps the inbound half incomplete for good. -/
theorem unassembled_of_ended (config : Config) (inbound outbound : Array UInt8) (ops : List Op) :
    let start := ofStorage config inbound outbound
    let last := start.run ops
    last.inbound.inputEnded = true →
      (start.StayWithin ops → last.receiver.unassembled = 0) ∧
      (last.receiver.unassembled ≠ 0 → ∀ more, (last.run more).inboundComplete = false) := by
  intro start last ended
  have begins : start.Sound := ofStorage_sound config inbound outbound
  have sound : last.Sound := begins.run ops
  constructor
  · intro within
    have clear : ¬ last.Stranded := by
      apply not_stranded_run begins ?_ within
      intro stranded
      exact stranded.2 rfl
    apply sound.tidy.unassembled_eq_zero.mpr
    by_contra waits
    exact clear ⟨ended, waits⟩
  · intro waits more
    have stranded : last.Stranded :=
      ⟨ended, fun nothing => waits (sound.tidy.unassembled_eq_zero.mpr nothing)⟩
    have still : (last.run more).Stranded :=
      run_keeps (P := Stranded) sound (fun _ reached op waiting => waiting.step reached op)
        (List.nil_prefix) stranded
    exact still.not_complete (sound.run more)

def small : Connection := ofConfig { receiveCapacity := 4, sendCapacity := 4, isn := some ⟨0⟩ }

def repeated : List Op :=
  [.receive { seqno := ⟨0⟩, flags := { syn := true }, window := 4 },
    .receive { seqno := ⟨1⟩, ackno := ⟨1⟩, flags := { ack := true, fin := true }, window := 4,
               payload := [7] },
    .receive { seqno := ⟨1⟩, ackno := ⟨1⟩, flags := { ack := true, fin := true }, window := 4,
               payload := [7] }]

theorem unassembled_of_ended_repeated :
    (small.run repeated).inbound.inputEnded = true ∧ small.StayWithin repeated ∧
      (small.run repeated).receiver.unassembled = 0 := by
  have ended : (small.run repeated).inbound.inputEnded = true := by decide +kernel
  have within : small.StayWithin repeated := by decide +kernel
  have clear := (unassembled_of_ended { receiveCapacity := 4, sendCapacity := 4, isn := some ⟨0⟩ }
    (Array.replicate 4 0) (Array.replicate 4 0) repeated ended).1 within
  exact ⟨ended, within, clear⟩

/-- The peer opens and closes, and a byte behind its FIN follows; then this side closes, and the
    peer acknowledges all of it. -/
def trailing : List Op :=
  [.receive { seqno := ⟨0⟩, flags := { syn := true }, window := 4 },
    .receive { seqno := ⟨1⟩, ackno := ⟨1⟩, flags := { ack := true, fin := true }, window := 4 },
    .receive { seqno := ⟨2⟩, ackno := ⟨1⟩, flags := { ack := true }, window := 4, payload := [9] },
    .finish,
    .receive { seqno := ⟨2⟩, ackno := ⟨2⟩, flags := { ack := true }, window := 4 },
    .tick (.ofMillis 10000)]

/-- The byte is stored behind the end, where it waits for good: the connection does not close,
    although both streams have ended and everything is acknowledged. -/
theorem trailing_unassembled :
    (small.run trailing).inbound.inputEnded = true ∧
      (small.run trailing).receiver.unassembled = 1 ∧
      (small.run trailing).outboundComplete = true ∧
      (small.run trailing).lingerPeriod ≤ (small.run trailing).idle ∧
      (small.run trailing).active = true := by
  decide +kernel

end NetStack.Tcp.Connection
