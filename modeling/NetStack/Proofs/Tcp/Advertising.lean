import Mathlib.Data.List.Pairwise
import NetStack.Proofs.Stream.Acceptance
import NetStack.Proofs.Tcp.InboundEnd
import NetStack.Proofs.Tcp.Journal

namespace NetStack

structure ByteStream.Alike (before after : ByteStream) : Prop where
  totalRead : after.totalRead = before.totalRead
  capacity : after.capacity = before.capacity
  failed : after.failed = before.failed

theorem Reassembler.insert_alike (r : Reassembler) (data : Bytes) (index : Nat) (isLast : Bool) :
    r.output.Alike (r.insert data index isLast).output := by
  have assembled (stored : Reassembler) : stored.output.Alike stored.assemble.output := by
    unfold assemble
    split
    · exact ⟨rfl, rfl, rfl⟩
    · split
      · exact ⟨ByteStream.totalRead_write _ _, ByteStream.capacity_write _ _,
          ByteStream.failed_write _ _⟩
      · exact ⟨rfl, rfl, rfl⟩
  have absorbed (noted : Reassembler) : noted.output.Alike (noted.absorb data index).output := by
    unfold absorb
    split
    · rename_i piece _
      exact assembled { noted with pending := piece.insertInto noted.pending }
    · exact ⟨rfl, rfl, rfl⟩
  have finished (stored : Reassembler) : stored.output.Alike stored.finish.output := by
    unfold finish
    split <;> exact ⟨rfl, rfl, rfl⟩
  have last := finished ((r.note (index + data.length) isLast).absorb data index)
  have first := absorbed (r.note (index + data.length) isLast)
  rw [note_output] at first
  rw [insert_stages]
  exact ⟨last.totalRead.trans first.totalRead, last.capacity.trans first.capacity,
    last.failed.trans first.failed⟩

namespace Tcp

namespace Receiver

def rightEdge (r : Receiver) : Nat := r.ackPosition + r.advertisedWindow.toNat

theorem rightEdge_eq (r : Receiver) : r.rightEdge =
    min (r.stream.totalRead + r.stream.capacity + 1 + r.stream.inputEnded.toNat)
      (r.ackPosition + 0xffff) := by
  have bound : r.stream.size ≤ r.stream.capacity := r.stream.size_le
  have window : r.advertisedWindow.toNat = min r.window 0xffff := by
    unfold advertisedWindow
    rw [UInt16.toNat_ofNat']
    omega
  unfold rightEdge
  rw [window]
  unfold ackPosition Receiver.window ByteStream.room ByteStream.totalWritten
  omega

structure Progresses (before after : Receiver) : Prop where
  isn : before.isn.isSome = true → after.isn = before.isn
  ackPosition : before.ackPosition ≤ after.ackPosition
  totalRead : before.stream.totalRead ≤ after.stream.totalRead
  inputEnded : before.stream.inputEnded = true → after.stream.inputEnded = true
  failed : before.stream.failed = true → after.stream.failed = true
  capacity : after.stream.capacity = before.stream.capacity

theorem Progresses.refl (r : Receiver) : r.Progresses r :=
  ⟨fun _ => rfl, Nat.le_refl _, Nat.le_refl _, id, id, rfl⟩

theorem Progresses.trans {before between after : Receiver} (first : before.Progresses between)
    (second : between.Progresses after) : before.Progresses after where
  isn := by
    intro synced
    have kept := first.isn synced
    rw [← kept] at synced ⊢
    exact second.isn synced
  ackPosition := Nat.le_trans first.ackPosition second.ackPosition
  totalRead := Nat.le_trans first.totalRead second.totalRead
  inputEnded := second.inputEnded ∘ first.inputEnded
  failed := second.failed ∘ first.failed
  capacity := second.capacity.trans first.capacity

theorem Progresses.rightEdge_le {before after : Receiver} (progresses : before.Progresses after) :
    before.rightEdge ≤ after.rightEdge := by
  have ended := Bool.toNat_le_toNat (Bool.le_iff_imp.mpr progresses.inputEnded)
  have acked := progresses.ackPosition
  have read := progresses.totalRead
  rw [rightEdge_eq, rightEdge_eq, progresses.capacity]
  omega

theorem receive_progresses (r : Receiver) (segment : Segment) :
    r.Progresses (r.receive segment) := by
  have grows := r.receive_grows segment
  rcases r.receive_cases segment with same | ⟨_, inserted⟩
  · have same : (r.receive segment).stream = r.stream := congrArg Reassembler.output same
    refine ⟨grows.2, grows.1, ?_, ?_, ?_, ?_⟩ <;> rw [same]
    · exact id
    · exact id
  · have alike := r.reassembler.insert_alike segment.payload (r.place segment) segment.flags.fin
    have ended := (r.reassembler.insert_grows segment.payload (r.place segment)
      segment.flags.fin).2
    rw [← inserted] at alike ended
    refine ⟨grows.2, grows.1, Nat.le_of_eq alike.totalRead.symm, ended, ?_, alike.capacity⟩
    exact fun failed => alike.failed.trans failed

end Receiver

namespace Connection

variable {c : Connection} {op : Op}

theorem step_progresses (sound : c.Sound) (op : Op) :
    c.receiver.Progresses (c.step op).2.receiver := by
  rcases receiver_step sound op with same | ⟨segment, _, _, taken⟩ | failed | ⟨count, read⟩
  · rw [same]
    exact .refl _
  · rw [taken]
    exact c.receiver.receive_progresses segment
  · rw [failed]
    exact ⟨fun _ => rfl, Nat.le_refl _, Nat.le_refl _, id, fun _ => rfl, rfl⟩
  · rw [read]
    refine ⟨fun _ => rfl, ?_, Nat.le_add_right _ _, id, id, rfl⟩
    show c.inbound.totalWritten + 1 + c.inbound.inputEnded.toNat ≤
      (c.inbound.pop count).totalWritten + 1 + (c.inbound.pop count).inputEnded.toNat
    rw [ByteStream.totalWritten_pop, ByteStream.inputEnded_pop]

theorem run_progresses (sound : c.Sound) (ops : List Op) :
    c.receiver.Progresses (c.run ops).receiver := by
  induction ops generalizing c with
  | nil => exact .refl _
  | cons op rest ih => exact (step_progresses sound op).trans (ih (sound.step op))

theorem stamp_window (c : Connection) (segment : Segment) :
    (c.stamp segment).window = c.receiver.advertisedWindow := by
  unfold stamp
  split <;> rfl

theorem stamp_ack (c : Connection) {segment : Segment} (bare : segment.flags.ack = false) :
    (c.stamp segment).flags.ack = c.receiver.isn.isSome := by
  unfold stamp
  cases synced : c.receiver.isn <;> simp [Receiver.ackno?, synced, bare]

theorem stamp_ackno (c : Connection) (segment : Segment) {isn : SeqNo}
    (synced : c.receiver.isn = some isn) :
    (c.stamp segment).ackno = .ofPosition c.receiver.ackPosition isn := by
  unfold stamp
  simp [Receiver.ackno?, synced]

/-- The receiving half stands on the segment as the peer is to read it. -/
def Entry.Tells (entry : Entry) : Prop :=
  entry.segment.window = entry.receiver.advertisedWindow ∧
    entry.segment.flags.ack = entry.receiver.isn.isSome ∧
    ∀ isn, entry.receiver.isn = some isn →
      entry.segment.ackno = .ofPosition entry.receiver.ackPosition isn

theorem entriesBy_tell (sound : c.Sound) {entry : Entry} (queued : entry ∈ c.entriesBy op) :
    entry.receiver = (c.step op).2.receiver ∧ entry.Tells := by
  rcases List.mem_map.mp queued with ⟨segment, leaves, rfl⟩
  rcases exists_bare_of_queuedBy sound leaves with ⟨bare, plain, rfl⟩
  exact ⟨rfl, stamp_window _ _, stamp_ack _ plain, fun isn synced => stamp_ackno _ _ synced⟩

theorem journal_progresses (sound : c.Sound) {ops : List Op} {entry : Entry}
    (queued : entry ∈ c.journal ops) : entry.Tells ∧ c.receiver.Progresses entry.receiver ∧
      entry.receiver.Progresses (c.run ops).receiver := by
  rcases (mem_gather _ _).mp queued with ⟨front, op, back, rfl, leaves⟩
  have reached := sound.run front
  rcases entriesBy_tell reached leaves with ⟨same, tells⟩
  refine ⟨tells, ?_, ?_⟩
  · rw [same, ← step_last]
    exact run_progresses sound _
  · rw [same, run_append]
    exact run_progresses (reached.step op) back

theorem journal_pairwise (sound : c.Sound) (ops : List Op) :
    (c.journal ops).Pairwise fun earlier later =>
      earlier.receiver.Progresses later.receiver := by
  induction ops generalizing c with
  | nil => exact .nil
  | cons op rest ih =>
    have stepped := sound.step op
    rw [journal, gather, List.pairwise_append]
    refine ⟨?_, ih stepped, ?_⟩
    · rw [entriesBy, List.pairwise_map]
      exact List.pairwise_of_forall fun _ _ => .refl _
    · intro earlier now later afterwards
      rw [(entriesBy_tell sound now).1]
      exact (journal_progresses stepped afterwards).2.1

/-- Whatever arrives and whatever is read: a segment acknowledges if and only if a SYN has come in
    before it is queued, and from the first one that does, neither the position that it acknowledges
    nor the one that its window reaches to ever goes back. The window reaches no further than there
    is room for. -/
theorem advertised_kept (config : Config) (inbound outbound : Array UInt8) (ops : List Op) :
    let start := ofStorage config inbound outbound
    let journal := start.journal ops
    (∀ front op back, ops = front ++ op :: back → ∀ segment ∈ (start.run front).queuedBy op,
      (segment.flags.ack = true ↔ BringSyn (front ++ [op]))) ∧
    (∀ entry ∈ journal, entry.segment.flags.ack = true →
      ∃ isn, (start.run ops).receiver.isn = some isn ∧
        entry.segment.ackno = .ofPosition entry.receiver.ackPosition isn) ∧
    (journal.Pairwise fun earlier later => earlier.segment.flags.ack = true →
      later.segment.flags.ack = true ∧
      earlier.receiver.ackPosition ≤ later.receiver.ackPosition ∧
      earlier.receiver.ackPosition + earlier.segment.window.toNat ≤
        later.receiver.ackPosition + later.segment.window.toNat) ∧
    ∀ entry ∈ journal, entry.receiver.ackPosition + entry.segment.window.toNat ≤
      entry.receiver.stream.totalRead + inbound.size + 1 +
        entry.receiver.stream.inputEnded.toNat := by
  intro start journal
  have sound : start.Sound := ofStorage_sound config inbound outbound
  refine ⟨?_, ?_, ?_, ?_⟩
  · intro front op back _ segment queued
    rcases exists_bare_of_queuedBy (sound.run front) queued with ⟨bare, plain, rfl⟩
    rw [stamp_ack _ plain, ← isn_iff_of_queuedBy sound rfl queued, step_last]
  · intro entry member ack
    rcases journal_progresses sound member with ⟨⟨_, marked, numbered⟩, _, later⟩
    rw [marked] at ack
    rcases Option.isSome_iff_exists.mp ack with ⟨isn, synced⟩
    exact ⟨isn, (later.isn ack).trans synced, numbered isn synced⟩
  · apply (journal_pairwise sound ops).imp_of_mem
    intro earlier later first second progresses ack
    have before := (journal_progresses sound first).1
    have after := (journal_progresses sound second).1
    rw [before.2.1] at ack
    rw [before.1, after.1, after.2.1, progresses.isn ack]
    exact ⟨ack, progresses.ackPosition, progresses.rightEdge_le⟩
  · intro entry member
    rcases journal_progresses sound member with ⟨tells, progresses, _⟩
    have edge := entry.receiver.rightEdge_eq
    have capacity : entry.receiver.stream.capacity = inbound.size := progresses.capacity
    rw [tells.1, ← capacity]
    unfold Receiver.rightEdge at edge
    omega

/-- Three bytes fill most of the stream, two of them are read, and the FIN follows. -/
def reading : List Op :=
  [.connect,
    .receive { seqno := ⟨0xffffffff⟩, ackno := ⟨1⟩, flags := { syn := true, ack := true }, window := 4 },
    .receive { seqno := ⟨0⟩, ackno := ⟨1⟩, flags := { ack := true }, window := 4, payload := [7, 8, 9] },
    .read 2, .receive { seqno := ⟨3⟩, ackno := ⟨1⟩, flags := { ack := true, fin := true }, window := 4 }]

theorem advertised_kept_reading :
    let journal := (ofStorage { isn := some ⟨0⟩ } (Array.replicate 4 0) (Array.replicate 4 0)).journal
      reading
    (journal.map fun entry =>
      (entry.segment.flags.ack, entry.receiver.ackPosition, entry.segment.window)) =
      [(false, 1, 4), (true, 1, 4), (true, 4, 1), (true, 5, 3)] ∧
    (∀ entry ∈ journal, entry.receiver.ackPosition + entry.segment.window.toNat ≤
      entry.receiver.stream.totalRead + 4 + 1 + entry.receiver.stream.inputEnded.toNat) := by
  intro journal
  have entries := advertised_kept { isn := some ⟨0⟩ } (Array.replicate 4 0) (Array.replicate 4 0)
    reading
  exact ⟨by decide +kernel, entries.2.2.2⟩

end Connection

end Tcp

end NetStack
