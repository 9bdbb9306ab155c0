import NetStack.Proofs.Tcp.Journal
import NetStack.Proofs.Tcp.InboundEnd

namespace NetStack

/-- Where a piece of a stream stops, and whether it is marked as the last one. -/
structure Arrival where
  stop : Nat
  isLast : Bool
  deriving DecidableEq

namespace Reassembler

variable {r : Reassembler} {arrived : List Arrival}

theorem insert_next_of_ended (tidy : r.Tidy) (ended : r.output.inputEnded = true) (data : Bytes)
    (index : Nat) (isLast : Bool) : (r.insert data index isLast).next = r.next := by
  rw [insert_stages, finish_next]
  have still : (r.note (index + data.length) isLast).output.inputEnded = true := by
    rw [note_output]
    exact ended
  rcases absorb_of_ended (tidy.note _ isLast) still data index with same | ⟨piece, _, stored⟩
  · rw [same, note_next]
  · rw [stored]
    exact note_next r _ isLast

/-- What the reassembler knows of the end, and what it holds, is what has arrived. -/
structure Recounts (r : Reassembler) (arrived : List Arrival) : Prop where
  final : ∀ stop, r.finalIndex = some stop → ⟨stop, true⟩ ∈ arrived
  marked : (∃ arrival ∈ arrived, arrival.isLast = true) → r.finalIndex.isSome = true
  ended : r.output.inputEnded = true → ⟨r.next, true⟩ ∈ arrived
  due : r.finalIndex = some r.next → r.pending = [] → r.output.inputEnded = true
  held : r.output.inputEnded = false → ∀ index ∈ r.held, ∃ arrival ∈ arrived, index < arrival.stop

theorem ofStorage_recounts (storage : Array UInt8) :
    (ofStream (.ofStorage storage)).Recounts [] where
  final := by simp [ofStream]
  marked := by simp
  ended := by simp [ofStream]
  due := by simp [ofStream]
  held := by simp [ofStream, held, Piece.covered]

theorem Recounts.output (recounts : r.Recounts arrived) {output : ByteStream}
    (ended : output.inputEnded = r.output.inputEnded) :
    ({ r with output } : Reassembler).Recounts arrived where
  final := recounts.final
  marked := recounts.marked
  ended := fun now => recounts.ended (ended.symm.trans now)
  due := fun final nothing => ended.trans (recounts.due final nothing)
  held := fun unended => recounts.held (ended.symm.trans unended)

theorem Recounts.insert (recounts : r.Recounts arrived) (tidy : r.Tidy) (data : Bytes) (index : Nat)
    (isLast : Bool) :
    (r.insert data index isLast).Recounts (arrived ++ [⟨index + data.length, isLast⟩]) := by
  have known := r.finalIndex_insert data index isLast
  have ends := r.inputEnded_insert data index isLast
  have final : ∀ stop, (r.insert data index isLast).finalIndex = some stop →
      ⟨stop, true⟩ ∈ arrived ++ [⟨index + data.length, isLast⟩] := by
    intro stop told
    rw [known] at told
    cases isLast with
    | true =>
      cases told
      exact List.mem_append_right _ List.mem_cons_self
    | false => exact List.mem_append_left _ (recounts.final stop told)
  constructor
  · exact final
  · rintro ⟨arrival, member, last⟩
    rw [known]
    rcases List.mem_append.mp member with earlier | new
    · split
      · rfl
      · exact recounts.marked ⟨arrival, earlier, last⟩
    · rw [List.mem_singleton.mp new] at last
      rw [if_pos last]
      rfl
  · intro ended
    rcases ends.mp ended with already | ⟨reached, _⟩
    · rw [insert_next_of_ended tidy already]
      exact List.mem_append_left _ (recounts.ended already)
    · exact final _ reached
  · exact fun reached nothing => ends.mpr (.inr ⟨reached, nothing⟩)
  · intro unended position held
    have before : r.output.inputEnded = false := by
      by_contra already
      have still := ends.mpr (.inl (eq_true_of_ne_false already))
      simp [unended] at still
    rw [tidy.held_insert before, Finset.mem_union, mem_offered] at held
    rcases held with earlier | new
    · rcases recounts.held before position earlier with ⟨arrival, member, inside⟩
      exact ⟨arrival, List.mem_append_left _ member, inside⟩
    · exact ⟨_, List.mem_append_right _ List.mem_cons_self, new.1.2⟩

/-- With a peer that says once where its stream stops, and sends nothing beyond, the end of the
    stream is the end of what is assembled. -/
theorem Recounts.ended_iff (recounts : r.Recounts arrived) (tidy : r.Tidy) {stop : Nat}
    (marked : ∃ arrival ∈ arrived, arrival.isLast = true)
    (agreed : ∀ arrival ∈ arrived, arrival.stop ≤ stop ∧ (arrival.isLast = true → arrival.stop = stop)) :
    r.output.inputEnded = true ↔ r.next = stop := by
  constructor
  · intro ended
    exact (agreed _ (recounts.ended ended)).2 rfl
  · intro whole
    by_contra open_end
    have unended := eq_false_of_ne_true open_end
    have nothing : r.pending = [] := by
      apply tidy.pending_eq_nil unended
      intro position held
      rcases recounts.held unended position held with ⟨arrival, member, inside⟩
      have bound := (agreed arrival member).1
      omega
    rcases Option.isSome_iff_exists.mp (recounts.marked marked) with ⟨final, told⟩
    have last := (agreed _ (recounts.final final told)).2 rfl
    have reached : r.finalIndex = some r.next := by
      rw [told, whole, ← last]
    exact open_end (recounts.due reached nothing)

end Reassembler

namespace Tcp

/-- A segment is taken in if it is a SYN, or if it does not claim the position of the SYN that came
    before. -/
def Receiver.admits (r : Receiver) (segment : Segment) : Bool :=
  segment.flags.syn || (r.isn.isSome && segment.seqno.positionNear (r.isn.getD segment.seqno)
    (r.stream.totalWritten + 1) != 0)

theorem Receiver.receive_reassembler (r : Receiver) (segment : Segment) :
    (r.receive segment).reassembler = if r.admits segment then
      r.reassembler.insert segment.payload (r.place segment) segment.flags.fin else r.reassembler := by
  have accepts (isn : SeqNo) (known : r.isn.getD segment.seqno = isn) :
      (r.accept isn segment).reassembler =
        if segment.flags.syn || segment.seqno.positionNear isn (r.stream.totalWritten + 1) != 0 then
          r.reassembler.insert segment.payload (r.place segment) segment.flags.fin
        else r.reassembler := by
    unfold accept place
    rw [known]
    dsimp only
    by_cases start : segment.seqno.positionNear isn (r.stream.totalWritten + 1) = 0
    · cases syn : segment.flags.syn <;> simp [start]
    · simp [start]
  unfold receive admits
  cases synced : r.isn with
  | some isn =>
    have known : r.isn.getD segment.seqno = isn := by rw [synced, Option.getD_some]
    simpa using accepts isn known
  | none =>
    have known : r.isn.getD segment.seqno = segment.seqno := by rw [synced, Option.getD_none]
    cases syn : segment.flags.syn with
    | true => simpa [syn] using accepts segment.seqno known
    | false => simp

namespace Connection

def arrivalsBy (c : Connection) : Op → List Arrival
  | .receive segment =>
    if c.active && !segment.flags.rst && c.receiver.admits segment then
      [⟨c.receiver.reach segment, segment.flags.fin⟩]
    else []
  | _ => []

def arrivals (c : Connection) (ops : List Op) : List Arrival := gather arrivalsBy c ops

variable {c : Connection} {op : Op}

theorem arrivalsBy_step (sound : c.Sound) (op : Op) :
    (c.arrivalsBy op = [] ∧ ∃ output : ByteStream, output.inputEnded = c.inbound.inputEnded ∧
      (c.step op).2.receiver.reassembler = { c.receiver.reassembler with output }) ∨
    ∃ segment, c.arrivalsBy op = [⟨c.receiver.reach segment, segment.flags.fin⟩] ∧
      (c.step op).2.receiver.reassembler =
        c.receiver.reassembler.insert segment.payload (c.receiver.place segment)
          segment.flags.fin := by
  rcases c.step_carries op sound.ready with ⟨asked, fed, carries, does⟩
  rw [does.receiver]
  generalize (c.step op).1 = reply at carries
  cases carries with
  | @ignored op _ _ _ noSegment =>
    left
    refine ⟨?_, _, rfl, rfl⟩
    cases op with
    | receive segment => exact absurd rfl (noSegment segment)
    | connect | write | finish | tick | abort | read | dispatch | wait => rfl
  | @deaf segment waits =>
    left
    refine ⟨?_, _, rfl, rfl⟩
    rcases waits with inactive | ⟨listens, noSyn⟩
    · simp [arrivalsBy, inactive]
    · have unsynced : c.receiver.isn = none := by
        simp only [isListening, Receiver.ackno?, Bool.and_eq_true] at listens
        simpa using listens.1
      simp [arrivalsBy, Receiver.admits, noSyn, unsynced]
  | @receive segment _ active plain =>
    have taken := c.receiver.receive_reassembler segment
    change (c.receiver.run [.receive segment]).reassembler = _ at taken
    rw [taken]
    by_cases admits : c.receiver.admits segment = true
    · right
      refine ⟨segment, by simp [arrivalsBy, active, plain, admits], ?_⟩
      rw [if_pos admits]
    · left
      refine ⟨by simp [arrivalsBy, active, plain, admits], _, rfl, ?_⟩
      rw [if_neg admits]
      rfl
  | @reset segment _ rst => exact .inl ⟨by simp [arrivalsBy, rst], c.inbound.fail, rfl, rfl⟩
  | connect | write | finish | tick => exact .inl ⟨rfl, c.inbound, rfl, rfl⟩
  | giveUp | abort => exact .inl ⟨rfl, c.inbound.fail, rfl, rfl⟩
  | @read count => exact .inl ⟨rfl, c.inbound.pop count, rfl, rfl⟩

theorem arrivals_recount (sound : c.Sound) {arrived : List Arrival}
    (recounts : c.receiver.reassembler.Recounts arrived) (ops : List Op) :
    (c.run ops).receiver.reassembler.Recounts (arrived ++ c.arrivals ops) := by
  induction ops using List.reverseRecOn with
  | nil =>
    rw [arrivals, gather, List.append_nil]
    exact recounts
  | append_singleton front op ih =>
    have reached := sound.run front
    rw [step_last, arrivals, gather_last, ← List.append_assoc]
    rcases arrivalsBy_step reached op with ⟨nothing, output, still, kept⟩ | ⟨segment, new, inserted⟩
    · rw [nothing, List.append_nil, kept]
      exact ih.output still
    · rw [new, inserted]
      exact ih.insert reached.tidy _ _ _

end Connection

end Tcp

end NetStack
