import NetStack.Proofs.Stream.Acceptance

namespace NetStack

namespace Piece

variable {low : Nat} {piece : Piece} {pieces : List Piece}

theorem insertInto_gap (following : Apart (piece.stop + 1) pieces) :
    piece.insertInto pieces = piece :: pieces := by
  cases pieces with
  | nil => rfl
  | cons next rest =>
    obtain ⟨gap, occupied, _⟩ := following
    have start_le : piece.start ≤ piece.stop := Nat.le_add_right _ _
    unfold insertInto
    rw [if_neg (by omega), if_pos (by omega)]

theorem join_inside {first second : Piece} (inside : second.stop ≤ first.stop) :
    first.join second = first := by
  have nothing : second.bytes.drop (first.stop - second.start) = [] := by
    apply List.drop_eq_nil_of_le
    have length : second.stop = second.start + second.bytes.length := rfl
    omega
  unfold join
  rw [nothing, List.append_nil]

theorem insertInto_covered (apart : Apart low pieces) (something : piece.start < piece.stop)
    (inside : piece.indices ⊆ covered pieces) : piece.insertInto pieces = pieces := by
  induction pieces generalizing low with
  | nil =>
    have start := inside (mem_indices.mpr ⟨Nat.le_refl _, something⟩)
    cases start
  | cons next rest ih =>
    obtain ⟨order, occupied, following⟩ := apart
    have position (index : Nat) (own : piece.start ≤ index ∧ index < piece.stop) :
        (next.start ≤ index ∧ index < next.stop) ∨ (next.stop < index ∧ index ∈ covered rest) := by
      rcases Finset.mem_union.mp (inside (mem_indices.mpr own)) with first | other
      · exact .inl (mem_indices.mp first)
      · exact .inr ⟨following.le_of_mem other, other⟩
    have start := position piece.start ⟨Nat.le_refl _, something⟩
    unfold insertInto
    by_cases beyond : next.stop < piece.start
    · rw [if_pos beyond, ih following]
      intro index own
      rcases position index (mem_indices.mp own) with first | other
      · have within := mem_indices.mp own
        omega
      · exact other.2
    · rw [if_neg beyond, if_neg (by omega), if_pos (by omega)]
      -- it cannot reach into the gap behind
      have stop_le : piece.stop ≤ next.stop := by
        by_contra exceeds
        have gap := position next.stop (by omega)
        omega
      rw [join_inside stop_le, insertInto_gap following]

end Piece

namespace Reassembler

variable {r : Reassembler}

theorem Tidy.assemble_eq (tidy : r.Tidy) : r.assemble = r := by
  cases ended : r.output.inputEnded with
  | true => exact assemble_of_ended ended tidy.apart
  | false =>
    apply assemble_gap
    intro first head
    obtain ⟨rest, waiting⟩ := List.head?_eq_some_iff.mp head
    have gap := tidy.gap ended
    rw [waiting] at gap
    exact Nat.ne_of_gt gap.1

theorem Tidy.absorb_held (tidy : r.Tidy) {data : Bytes} {index : Nat}
    (held : r.offered data index ⊆ r.held) : r.absorb data index = r := by
  unfold Reassembler.absorb
  split
  · rename_i piece accepted
    obtain ⟨start_eq, stop_eq, something⟩ := acceptable?_eq_some accepted
    have limit_eq := limit_eq_edge tidy.next_eq
    have inside : piece.indices ⊆ Piece.covered r.pending := by
      intro position own
      have within := Piece.mem_indices.mp own
      have offered : position ∈ r.offered data index := mem_offered.mpr (by omega)
      rcases mem_held.mp (held offered) with assembled | waits
      · omega
      · exact waits
    unfold store
    rw [Piece.insertInto_covered tidy.apart something inside]
    exact tidy.assemble_eq
  · rfl

theorem Tidy.offered_subset (tidy : r.Tidy) (data : Bytes) (index : Nat) (isLast : Bool) :
    r.offered data index ⊆ (r.insert data index isLast).held := by
  have noted := tidy.note (index + data.length) isLast
  cases ended : r.output.inputEnded with
  | false =>
    rw [tidy.held_insert ended]
    exact Finset.subset_union_right
  | true =>
    have still : (r.note (index + data.length) isLast).output.inputEnded = true := by
      rw [note_output]
      exact ended
    rw [insert_stages, held_finish, ← offered_note r (index + data.length) isLast]
    generalize r.note (index + data.length) isLast = marked at noted still
    have limit_eq := limit_eq_edge noted.next_eq
    intro position offered
    have within := mem_offered.mp offered
    rw [mem_held, Reassembler.absorb]
    cases accepted : marked.acceptable? data index with
    | none =>
      have nothing := acceptable?_eq_none accepted
      dsimp only
      omega
    | some piece =>
      obtain ⟨start_eq, stop_eq, _⟩ := acceptable?_eq_some accepted
      have stored : marked.store piece = { marked with pending := piece.insertInto marked.pending } :=
        assemble_of_ended (r := { marked with pending := piece.insertInto marked.pending }) still
          (noted.apart_insertInto accepted)
      dsimp only
      rw [stored, Piece.covered_insertInto, Finset.mem_union, Piece.mem_indices]
      dsimp only
      omega

theorem finish_finish (r : Reassembler) : r.finish.finish = r.finish := by
  by_cases reached : r.finalIndex = some r.next ∧ r.pending = []
  · have once : r.finish = { r with output := r.output.endInput } := if_pos reached
    rw [once]
    exact if_pos reached
  · have once : r.finish = r := if_neg reached
    rw [once, once]

theorem Tidy.insert_insert (tidy : r.Tidy) (data : Bytes) (index : Nat) (isLast : Bool) :
    (r.insert data index isLast).insert data index isLast = r.insert data index isLast := by
  have known : (r.insert data index isLast).note (index + data.length) isLast =
      r.insert data index isLast := by
    have final := r.finalIndex_insert data index isLast
    unfold Reassembler.note
    split
    · rename_i last
      rw [if_pos last] at final
      rw [← final]
    · rfl
  have held : (r.insert data index isLast).offered data index ⊆
      (r.insert data index isLast).held := by
    unfold offered
    rw [edge_insert]
    exact tidy.offered_subset data index isLast
  rw [insert_stages (r.insert data index isLast), known,
    (tidy.insert data index isLast).absorb_held held, insert_stages, finish_finish]

end Reassembler

end NetStack
