import Mathlib.Data.List.Infix
import NetStack.Proofs.Stream.Contents
import NetStack.Stream.Reassembler

namespace NetStack

theorem prefix_append_of_drop {front back text : Bytes} (start : front <+: text)
    (follows : back <+: text.drop front.length) : front ++ back <+: text := by
  obtain ⟨rest, rfl⟩ := start
  rw [List.drop_left] at follows
  exact (List.prefix_append_right_inj front).mpr follows

namespace Piece

/-- The bytes of the piece are those that stand in the text from its index on. -/
def IsExcerpt (piece : Piece) (text : Bytes) : Prop := piece.bytes <+: text.drop piece.start

variable {text : Bytes}

theorem IsExcerpt.extend {piece : Piece} {longer : Bytes} (excerpt : piece.IsExcerpt text)
    (growth : text <+: longer) : piece.IsExcerpt longer :=
  List.IsPrefix.trans excerpt (growth.drop piece.start)

theorem IsExcerpt.dropFront {start : Nat} {bytes : Bytes}
    (excerpt : (⟨start, bytes⟩ : Piece).IsExcerpt text) (count : Nat) :
    (⟨start + count, bytes.drop count⟩ : Piece).IsExcerpt text := by
  have dropped : bytes.drop count <+: (text.drop start).drop count := List.IsPrefix.drop excerpt count
  rw [List.drop_drop] at dropped
  exact dropped

theorem IsExcerpt.takeFront {start : Nat} {bytes : Bytes}
    (excerpt : (⟨start, bytes⟩ : Piece).IsExcerpt text) (count : Nat) :
    (⟨start, bytes.take count⟩ : Piece).IsExcerpt text :=
  (List.take_prefix count bytes).trans excerpt

theorem IsExcerpt.join {first second : Piece} (left : first.IsExcerpt text)
    (right : second.IsExcerpt text) (touching : second.start ≤ first.stop) :
    (first.join second).IsExcerpt text := by
  have beyond := right.dropFront (first.stop - second.start)
  have meets : second.start + (first.stop - second.start) = first.start + first.bytes.length := by
    unfold stop at touching ⊢
    omega
  rw [meets] at beyond
  have follows : second.bytes.drop (first.stop - second.start) <+:
      (text.drop first.start).drop first.bytes.length := by
    rw [List.drop_drop]
    exact beyond
  exact prefix_append_of_drop left follows

/-- Joining excerpts gives excerpts, however many of them one piece swallows. -/
theorem insertInto_excerpts (piece : Piece) (pieces : List Piece) (own : piece.IsExcerpt text)
    (others : ∀ other ∈ pieces, other.IsExcerpt text) :
    ∀ other ∈ piece.insertInto pieces, other.IsExcerpt text := by
  induction pieces generalizing piece with
  | nil => simpa [insertInto] using own
  | cons next rest ih =>
    obtain ⟨head, tail⟩ := List.forall_mem_cons.mp others
    unfold insertInto
    split
    · exact List.forall_mem_cons.mpr ⟨head, ih piece own tail⟩
    · rename_i reaches
      split
      · exact List.forall_mem_cons.mpr ⟨own, others⟩
      · split
        · exact ih _ (head.join own (by omega)) tail
        · exact ih _ (own.join head (by omega)) tail

end Piece

namespace Reassembler

/-- What the reassembler was given are excerpts of the text, and its reader has taken some bytes
    already. The text is `complete` once nothing can follow it. -/
structure Reads (r : Reassembler) (text : Bytes) (complete : Bool) (taken : Bytes) : Prop where
  taken_length : taken.length = r.output.totalRead
  next_eq : r.next = r.output.totalWritten
  received : taken ++ r.output.toList <+: text
  pending : ∀ piece ∈ r.pending, piece.IsExcerpt text
  final : ∀ index, r.finalIndex = some index → complete = true ∧ index = text.length
  ended : r.output.inputEnded = true → complete = true ∧ taken ++ r.output.toList = text

variable {r : Reassembler} {text taken : Bytes} {complete : Bool}

theorem ofStream_reads (storage : Array UInt8) (text : Bytes) (complete : Bool) :
    (ofStream (.ofStorage storage)).Reads text complete [] where
  taken_length := rfl
  next_eq := rfl
  received := List.nil_prefix
  pending := by simp [ofStream]
  final := by simp [ofStream]
  ended := by simp [ofStream]

theorem Reads.received_length (reads : r.Reads text complete taken) :
    (taken ++ r.output.toList).length = r.next := by
  rw [List.length_append, reads.taken_length, r.output.totalRead_add_length, reads.next_eq]

theorem Reads.extend (reads : r.Reads text complete taken) {longer : Bytes} {final : Bool}
    (growth : text <+: longer) (kept : complete = true → final = true ∧ longer = text) :
    r.Reads longer final taken where
  taken_length := reads.taken_length
  next_eq := reads.next_eq
  received := reads.received.trans growth
  pending := fun piece member => (reads.pending piece member).extend growth
  final := by
    intro index known
    obtain ⟨done, atEnd⟩ := reads.final index known
    obtain ⟨still, same⟩ := kept done
    exact ⟨still, by rw [same, atEnd]⟩
  ended := by
    intro mark
    obtain ⟨done, all⟩ := reads.ended mark
    obtain ⟨still, same⟩ := kept done
    exact ⟨still, by rw [same, all]⟩

theorem Reads.pop (reads : r.Reads text complete taken) (count : Nat) :
    ({ r with output := r.output.pop count } : Reassembler).Reads text complete
      (taken ++ r.output.peek count) := by
  have whole : taken ++ r.output.peek count ++ (r.output.pop count).toList =
      taken ++ r.output.toList := by
    rw [ByteStream.peek_eq, ByteStream.toList_pop, List.append_assoc, List.take_append_drop]
  constructor
  · rw [List.length_append, reads.taken_length, ByteStream.peek_eq, ByteStream.totalRead_pop]
  · rw [ByteStream.totalWritten_pop]
    exact reads.next_eq
  · rw [whole]
    exact reads.received
  · exact reads.pending
  · exact reads.final
  · intro mark
    rw [whole]
    exact reads.ended mark

theorem Reads.fail (reads : r.Reads text complete taken) :
    ({ r with output := r.output.fail } : Reassembler).Reads text complete taken :=
  ⟨reads.taken_length, reads.next_eq, reads.received, reads.pending, reads.final, reads.ended⟩

theorem acceptable?_excerpt {data : Bytes} {index : Nat}
    (excerpt : (⟨index, data⟩ : Piece).IsExcerpt text) {piece : Piece}
    (accepted : r.acceptable? data index = some piece) : piece.IsExcerpt text := by
  unfold acceptable? at accepted
  dsimp only at accepted
  split at accepted
  · cases accepted
    have cut := (excerpt.takeFront (min (index + data.length) r.limit - index)).dropFront
      (max index r.next - index)
    rw [show index + (max index r.next - index) = max index r.next by omega] at cut
    exact cut
  · cases accepted

theorem assemble_turn {first : Piece} {rest : List Piece} (waiting : r.pending = first :: rest)
    (turn : first.start = r.next) :
    r.assemble = { r with
      output := (r.output.write first.bytes).2
      next := r.next + (r.output.write first.bytes).1
      pending := if (first.bytes.drop (r.output.write first.bytes).1).isEmpty then rest else
        ⟨r.next + (r.output.write first.bytes).1,
          first.bytes.drop (r.output.write first.bytes).1⟩ :: rest } := by
  simp only [Reassembler.assemble, waiting, turn, if_true]

theorem assemble_gap (gap : ∀ first ∈ r.pending.head?, first.start ≠ r.next) :
    r.assemble = r := by
  unfold Reassembler.assemble
  split
  · rfl
  · rename_i first rest waiting
    rw [if_neg (gap first (by simp [waiting]))]

theorem Reads.assemble (reads : r.Reads text complete taken) :
    r.assemble.Reads text complete taken := by
  by_cases gap : ∀ first ∈ r.pending.head?, first.start ≠ r.next
  · rw [assemble_gap gap]
    exact reads
  · simp only [not_forall, not_not] at gap
    obtain ⟨first, head, turn⟩ := gap
    obtain ⟨rest, waiting⟩ := List.head?_eq_some_iff.mp head
    rw [assemble_turn waiting turn]
    have excerpt : first.IsExcerpt text := reads.pending first (by simp [waiting])
    have position : first.start = (taken ++ r.output.toList).length := by
      rw [reads.received_length, turn]
    have follows : first.bytes.take (r.output.write first.bytes).1 <+:
        text.drop (taken ++ r.output.toList).length := by
      rw [← position]
      exact excerpt.takeFront _
    have received : taken ++ (r.output.write first.bytes).2.toList <+: text := by
      rw [ByteStream.toList_write, ← List.append_assoc]
      exact prefix_append_of_drop reads.received follows
    have left := excerpt.dropFront (r.output.write first.bytes).1
    rw [turn] at left
    constructor
    · simpa using reads.taken_length
    · rw [ByteStream.totalWritten_write, reads.next_eq]
    · exact received
    · have others : ∀ piece ∈ rest, piece.IsExcerpt text := fun piece member =>
        reads.pending piece (by simp [waiting, member])
      dsimp only
      split
      · exact others
      · exact List.forall_mem_cons.mpr ⟨left, others⟩
    · exact reads.final
    · intro mark
      rw [ByteStream.inputEnded_write] at mark
      obtain ⟨done, all⟩ := reads.ended mark
      refine ⟨done, received.eq_of_length_le ?_⟩
      -- nothing can be written behind the end
      rw [ByteStream.write_of_ended mark, all]

theorem Reads.finish (reads : r.Reads text complete taken) : r.finish.Reads text complete taken := by
  unfold Reassembler.finish
  split
  · rename_i reached
    obtain ⟨done, atEnd⟩ := reads.final _ reached.1
    refine ⟨reads.taken_length, reads.next_eq, reads.received, reads.pending, reads.final, ?_⟩
    intro _
    have length : text.length ≤ (taken ++ r.output.toList).length := by
      rw [reads.received_length, atEnd]
    exact ⟨done, reads.received.eq_of_length_le length⟩
  · exact reads

theorem Reads.insert (reads : r.Reads text complete taken) {data : Bytes} {index : Nat}
    {isLast : Bool} (excerpt : (⟨index, data⟩ : Piece).IsExcerpt text)
    (last : isLast = true → complete = true ∧ index + data.length = text.length) :
    (r.insert data index isLast).Reads text complete taken := by
  have noted : (if isLast then { r with finalIndex := some (index + data.length) } else r).Reads
      text complete taken := by
    split
    · rename_i mark
      refine ⟨reads.taken_length, reads.next_eq, reads.received, reads.pending, ?_, reads.ended⟩
      intro final known
      obtain ⟨done, atEnd⟩ := last mark
      cases known
      exact ⟨done, atEnd⟩
    · exact reads
  unfold Reassembler.insert
  simp only
  split
  · rename_i piece accepted
    apply Reads.finish
    apply Reads.assemble
    exact ⟨noted.taken_length, noted.next_eq, noted.received,
      Piece.insertInto_excerpts piece _ (acceptable?_excerpt excerpt accepted) noted.pending,
      noted.final, noted.ended⟩
  · exact noted.finish

section Output

variable (holds : ByteStream → Prop)

theorem output_assemble (writes : ∀ output data, holds output → holds (output.write data).2)
    (kept : holds r.output) : holds r.assemble.output := by
  unfold Reassembler.assemble
  split
  · exact kept
  · split
    · exact writes _ _ kept
    · exact kept

theorem output_finish (ends : ∀ output, holds output → holds output.endInput)
    (kept : holds r.output) : holds r.finish.output := by
  unfold Reassembler.finish
  split
  · exact ends _ kept
  · exact kept

theorem output_insert (writes : ∀ output data, holds output → holds (output.write data).2)
    (ends : ∀ output, holds output → holds output.endInput) (kept : holds r.output) (data : Bytes)
    (index : Nat) (isLast : Bool) : holds (r.insert data index isLast).output := by
  unfold Reassembler.insert
  dsimp only
  generalize start : (if isLast then { r with finalIndex := some (index + data.length) } else r) =
    noted
  have same : noted.output = r.output := by
    rw [← start]
    split <;> rfl
  rw [← same] at kept
  split
  · exact output_finish holds ends (output_assemble holds writes kept)
  · exact output_finish holds ends kept

end Output

theorem insert_grows (r : Reassembler) (data : Bytes) (index : Nat) (isLast : Bool) :
    r.output.totalWritten ≤ (r.insert data index isLast).output.totalWritten ∧
      (r.output.inputEnded = true → (r.insert data index isLast).output.inputEnded = true) := by
  apply output_insert fun output => r.output.totalWritten ≤ output.totalWritten ∧
    (r.output.inputEnded = true → output.inputEnded = true)
  · rintro output data ⟨more, ended⟩
    rw [ByteStream.totalWritten_write, ByteStream.inputEnded_write]
    exact ⟨Nat.le_add_right_of_le more, ended⟩
  · rintro output ⟨more, _⟩
    exact ⟨more, fun _ => rfl⟩
  · exact ⟨Nat.le_refl _, id⟩

theorem capacity_insert (r : Reassembler) (data : Bytes) (index : Nat) (isLast : Bool) :
    (r.insert data index isLast).output.capacity = r.output.capacity := by
  apply output_insert fun output => output.capacity = r.output.capacity
  · intro output data same
    simpa using same
  · exact fun _ => id
  · rfl

end Reassembler

end NetStack
