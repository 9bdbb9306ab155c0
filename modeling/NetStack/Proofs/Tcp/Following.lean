import NetStack.Proofs.Stream.Excerpt
import NetStack.Proofs.Tcp.Transcript
import NetStack.Tcp.Receiver

namespace NetStack

namespace Tcp.Receiver

theorem receive_grows (r : Receiver) (segment : Segment) :
    r.ackPosition ≤ (r.receive segment).ackPosition ∧
      (r.isn.isSome = true → (r.receive segment).isn = r.isn) := by
  have accepted (isn : SeqNo) : r.ackPosition ≤ (r.accept isn segment).ackPosition ∧
      (r.accept isn segment).isn = some isn := by
    unfold accept
    dsimp only
    split
    · exact ⟨Nat.le_refl _, rfl⟩
    · refine ⟨?_, rfl⟩
      have grown := r.reassembler.insert_grows segment.payload
        (segment.seqno.positionNear isn (r.stream.totalWritten + 1) + segment.flags.syn.toNat - 1)
        segment.flags.fin
      have ended := Bool.toNat_le_toNat (Bool.le_iff_imp.mpr grown.2)
      exact Nat.add_le_add (Nat.add_le_add_right grown.1 1) ended
  unfold receive
  split
  · rename_i isn synced
    exact ⟨(accepted isn).1, fun _ => by rw [(accepted isn).2, synced]⟩
  · rename_i unsynced
    split
    · exact ⟨(accepted _).1, fun synced => by simp [unsynced] at synced⟩
    · exact ⟨Nat.le_refl _, fun _ => rfl⟩

/-- The receiver has heard only what the transcript says, and its reader has taken some bytes
    already. -/
structure Follows (r : Receiver) (t : Transcript) (taken : Bytes) : Prop where
  reads : r.reassembler.Reads t.text t.closed taken
  synced : ∀ isn, r.isn = some isn → isn = t.isn ∧ t.opened = true

theorem ofStorage_follows (storage : Array UInt8) (t : Transcript) :
    (ofStream (.ofStorage storage)).Follows t [] where
  reads := Reassembler.ofStream_reads storage t.text t.closed
  synced := by simp [ofStream]

variable {r : Receiver} {t : Transcript} {taken : Bytes}

theorem Follows.extend (follows : r.Follows t taken) {later : Transcript}
    (extension : later.Extends t) : r.Follows later taken where
  reads := follows.reads.extend extension.text extension.closed
  synced := by
    intro isn synced
    obtain ⟨same, opened⟩ := follows.synced isn synced
    exact ⟨by rw [same, extension.isn], extension.opened opened⟩

theorem Follows.written_le (follows : r.Follows t taken) : r.stream.totalWritten ≤ t.text.length := by
  have received := follows.reads.received.length_le
  rw [follows.reads.received_length, follows.reads.next_eq] at received
  exact received

theorem Follows.ackPosition_le (follows : r.Follows t taken) :
    r.ackPosition ≤ 1 + t.text.length + t.closed.toNat := by
  have written := follows.written_le
  have closed := Bool.toNat_le_toNat
    (Bool.le_iff_imp.mpr fun mark => (follows.reads.ended mark).1)
  show r.stream.totalWritten + 1 + r.stream.inputEnded.toNat ≤ _
  unfold stream at written ⊢
  omega

theorem Follows.place_eq (follows : r.Follows t taken) {segment : Segment} {position : Nat}
    (covers : t.Covers position segment) (short : t.text.length + 2 < 0x80000000) :
    segment.seqno.positionNear t.isn (r.stream.totalWritten + 1) = position := by
  have written := follows.written_le
  have opening := t.opened.toNat_le
  have closing := t.closed.toNat_le
  have stop := covers.stop_le
  unfold Transcript.length at stop
  rw [covers.seqno]
  exact SeqNo.positionNear_of_small t.isn (by omega) (by omega)

theorem Follows.accept_placed (follows : r.Follows t taken) {segment : Segment} {position : Nat}
    (covers : t.Covers position segment)
    (place : segment.seqno.positionNear t.isn (r.stream.totalWritten + 1) = position)
    (opened : t.opened = true) : (r.accept t.isn segment).Follows t taken := by
  have synced : ∀ isn, some t.isn = some isn → isn = t.isn ∧ t.opened = true :=
    fun isn same => ⟨(Option.some.inj same).symm, opened⟩
  unfold Receiver.accept
  simp only [place]
  split
  · exact ⟨follows.reads, synced⟩
  · rename_i proper
    refine ⟨follows.reads.insert ?_ ?_, synced⟩
    · cases syn : segment.flags.syn with
      | true =>
        rw [(covers.alone_of_syn syn).1]
        exact List.nil_prefix
      | false => exact covers.payload
    · intro fin
      obtain ⟨closed, stop⟩ := covers.fin fin
      refine ⟨closed, ?_⟩
      have noSyn : segment.flags.syn = false := by
        by_contra syn
        have noFin := (covers.alone_of_syn (eq_true_of_ne_false syn)).2
        simp [fin] at noFin
      have inside : position ≠ 0 := fun start => proper ⟨start, noSyn⟩
      rw [noSyn]
      show position + 0 - 1 + _ = _
      omega

theorem Follows.receive_placed (follows : r.Follows t taken) {segment : Segment} {position : Nat}
    (covers : t.Covers position segment)
    (place : segment.seqno.positionNear t.isn (r.stream.totalWritten + 1) = position) :
    (r.receive segment).Follows t taken := by
  unfold Receiver.receive
  split
  · rename_i isn synced
    obtain ⟨rfl, opened⟩ := follows.synced isn synced
    exact follows.accept_placed covers place opened
  · split
    · rename_i syn
      obtain ⟨opened, rfl, _⟩ := covers.syn syn
      have isn : segment.seqno = t.isn := by
        rw [covers.seqno]
        simp [SeqNo.ofPosition, SeqNo.advance]
      rw [isn]
      exact follows.accept_placed covers place opened
    · exact follows

theorem Follows.receive (follows : r.Follows t taken) {segment : Segment} {position : Nat}
    (covers : t.Covers position segment) (short : t.text.length + 2 < 0x80000000) :
    (r.receive segment).Follows t taken :=
  follows.receive_placed covers (follows.place_eq covers short)

/-- If the segment acknowledges anything, it is something that was said and that the receiver has
    assembled. -/
def Backs (r : Receiver) (t : Transcript) (segment : Segment) : Prop :=
  segment.flags.ack = true → ∃ position, segment.ackno = .ofPosition position t.isn ∧
    0 < position ∧ position ≤ r.ackPosition ∧ position ≤ t.length

theorem Backs.later {segment : Segment} (backs : r.Backs t segment) {after : Receiver}
    {later : Transcript} (grown : r.ackPosition ≤ after.ackPosition) (extension : later.Extends t) :
    after.Backs later segment := by
  intro ack
  obtain ⟨position, ackno, positive, assembled, said⟩ := backs ack
  exact ⟨position, by rw [ackno, extension.isn], positive, Nat.le_trans assembled grown,
    Nat.le_trans said extension.length_le⟩

theorem Follows.fail (follows : r.Follows t taken) :
    (r.withStream r.stream.fail).Follows t taken :=
  ⟨follows.reads.fail, follows.synced⟩

theorem Follows.pop (follows : r.Follows t taken) (count : Nat) :
    (r.withStream (r.stream.pop count)).Follows t (taken ++ r.stream.peek count) :=
  ⟨follows.reads.pop count, follows.synced⟩

end Tcp.Receiver

end NetStack
