import Mathlib.Order.Interval.Finset.Nat
import NetStack.Proofs.Stream.Excerpt

namespace NetStack

namespace Piece

def indices (piece : Piece) : Finset Nat := Finset.Ico piece.start piece.stop

@[simp] theorem mem_indices {piece : Piece} {index : Nat} :
    index ∈ piece.indices ↔ piece.start ≤ index ∧ index < piece.stop := Finset.mem_Ico

def covered : List Piece → Finset Nat
  | [] => ∅
  | piece :: rest => piece.indices ∪ covered rest

/-- From `low` on the pieces stand in order, none of them is empty, and there is a gap between any
    two. -/
def Apart : Nat → List Piece → Prop
  | _, [] => True
  | low, piece :: rest =>
    low ≤ piece.start ∧ piece.start < piece.stop ∧ Apart (piece.stop + 1) rest

variable {low : Nat} {pieces : List Piece}

theorem Apart.weaken (apart : Apart low pieces) {lower : Nat} (below : lower ≤ low) :
    Apart lower pieces := by
  cases pieces with
  | nil => trivial
  | cons piece rest =>
    obtain ⟨order, something, following⟩ := apart
    exact ⟨Nat.le_trans below order, something, following⟩

theorem Apart.le_of_mem (apart : Apart low pieces) {index : Nat} (member : index ∈ covered pieces) :
    low ≤ index := by
  induction pieces generalizing low with
  | nil => cases member
  | cons piece rest ih =>
    obtain ⟨order, something, following⟩ := apart
    rcases Finset.mem_union.mp member with own | other
    · have inside := mem_indices.mp own
      omega
    · have beyond := ih following other
      omega

theorem Apart.card_covered (apart : Apart low pieces) :
    (covered pieces).card = pieces.foldr (fun piece total => piece.bytes.length + total) 0 := by
  induction pieces generalizing low with
  | nil => rfl
  | cons piece rest ih =>
    obtain ⟨_, _, following⟩ := apart
    have disjoint : Disjoint piece.indices (covered rest) := by
      rw [Finset.disjoint_left]
      intro index own other
      have inside := mem_indices.mp own
      have beyond := following.le_of_mem other
      omega
    have own : piece.indices.card = piece.bytes.length := by
      rw [indices, Nat.card_Ico, stop]
      omega
    rw [covered, Finset.card_union_of_disjoint disjoint, own, ih following, List.foldr_cons]

theorem indices_join {first second : Piece} (order : first.start ≤ second.start)
    (touching : second.start ≤ first.stop) :
    (first.join second).indices = first.indices ∪ second.indices := by
  have stop_join : (first.join second).stop = max first.stop second.stop := by
    simp only [join, stop, List.length_append, List.length_drop] at touching ⊢
    omega
  ext index
  rw [Finset.mem_union, mem_indices, mem_indices, mem_indices, stop_join]
  show first.start ≤ index ∧ _ ↔ _
  omega

theorem covered_insertInto (piece : Piece) (pieces : List Piece) :
    covered (piece.insertInto pieces) = piece.indices ∪ covered pieces := by
  induction pieces generalizing piece with
  | nil => rfl
  | cons next rest ih =>
    unfold insertInto
    split
    · rw [covered, ih, covered, Finset.union_left_comm]
    · rename_i reaches
      split
      · rfl
      · rename_i touches
        split
        · rename_i earlier
          rw [ih, indices_join earlier (by omega), covered, Finset.union_comm next.indices,
            Finset.union_assoc]
        · rw [ih, indices_join (by omega) (by omega), covered, Finset.union_assoc]

theorem insertInto_apart {piece : Piece} (own : low ≤ piece.start)
    (something : piece.start < piece.stop) (apart : Apart low pieces) :
    Apart low (piece.insertInto pieces) := by
  induction pieces generalizing piece low with
  | nil => exact ⟨own, something, trivial⟩
  | cons next rest ih =>
    obtain ⟨order, occupied, following⟩ := apart
    unfold insertInto
    split
    · rename_i before
      exact ⟨order, occupied, ih before something following⟩
    · rename_i reaches
      split
      · rename_i gap
        exact ⟨own, something, gap, occupied, following⟩
      · -- the joined piece may reach the pieces that follow, so it goes on as the one to insert
        split
        · apply ih
          · exact order
          · simp only [join, stop, List.length_append] at occupied ⊢
            omega
          · exact following.weaken (by omega)
        · apply ih
          · exact own
          · simp only [join, stop, List.length_append] at something ⊢
            omega
          · exact following.weaken (by omega)

theorem insertInto_ne_nil (piece : Piece) (pieces : List Piece) : piece.insertInto pieces ≠ [] := by
  induction pieces generalizing piece with
  | nil => simp [insertInto]
  | cons next rest ih =>
    unfold insertInto
    split
    · simp
    · split
      · simp
      · split
        · exact ih _
        · exact ih _

end Piece

namespace Reassembler

def note (r : Reassembler) (stop : Nat) (isLast : Bool) : Reassembler :=
  if isLast then { r with finalIndex := some stop } else r

def absorb (r : Reassembler) (data : Bytes) (index : Nat) : Reassembler :=
  match r.acceptable? data index with
  | some piece => r.store piece
  | none => r

theorem insert_stages (r : Reassembler) (data : Bytes) (index : Nat) (isLast : Bool) :
    r.insert data index isLast =
      ((r.note (index + data.length) isLast).absorb data index).finish := by
  unfold insert absorb
  change (match (r.note (index + data.length) isLast).acceptable? data index with
    | some piece => ((r.note (index + data.length) isLast).store piece).finish
    | none => (r.note (index + data.length) isLast).finish) = _
  cases (r.note (index + data.length) isLast).acceptable? data index <;> rfl

@[simp] theorem note_output (r : Reassembler) (stop : Nat) (isLast : Bool) :
    (r.note stop isLast).output = r.output := by
  unfold note
  split <;> rfl

@[simp] theorem note_next (r : Reassembler) (stop : Nat) (isLast : Bool) :
    (r.note stop isLast).next = r.next := by
  unfold note
  split <;> rfl

@[simp] theorem note_pending (r : Reassembler) (stop : Nat) (isLast : Bool) :
    (r.note stop isLast).pending = r.pending := by
  unfold note
  split <;> rfl

@[simp] theorem finish_next (r : Reassembler) : r.finish.next = r.next := by
  unfold finish
  split <;> rfl

@[simp] theorem finish_pending (r : Reassembler) : r.finish.pending = r.pending := by
  unfold finish
  split <;> rfl

@[simp] theorem finish_finalIndex (r : Reassembler) : r.finish.finalIndex = r.finalIndex := by
  unfold finish
  split <;> rfl

/-- The index from which on there is no room, whatever was assembled meanwhile. -/
def edge (r : Reassembler) : Nat := r.output.totalRead + r.output.capacity

@[simp] theorem edge_note (r : Reassembler) (stop : Nat) (isLast : Bool) :
    (r.note stop isLast).edge = r.edge := by
  unfold edge
  rw [note_output]

@[simp] theorem edge_finish (r : Reassembler) : r.finish.edge = r.edge := by
  unfold finish
  split <;> rfl

theorem edge_assemble (r : Reassembler) : r.assemble.edge = r.edge := by
  apply output_assemble fun output => output.totalRead + output.capacity = r.edge
  · intro output data same
    simpa using same
  · rfl

theorem edge_insert (r : Reassembler) (data : Bytes) (index : Nat) (isLast : Bool) :
    (r.insert data index isLast).edge = r.edge := by
  apply output_insert fun output => output.totalRead + output.capacity = r.edge
  · intro output data same
    simpa using same
  · exact fun _ => id
  · rfl

theorem limit_eq_edge {r : Reassembler} (next_eq : r.next = r.output.totalWritten) :
    r.limit = r.edge := by
  have bound : r.output.size ≤ r.output.capacity := r.output.size_le
  unfold limit edge
  rw [next_eq, ByteStream.totalWritten, ByteStream.room]
  omega

theorem next_le_edge {r : Reassembler} (next_eq : r.next = r.output.totalWritten) :
    r.next ≤ r.edge := by
  rw [← limit_eq_edge next_eq]
  exact Nat.le_add_right _ _

/-- The pieces that wait are apart from each other and, until the end, from what is assembled, and
    there is room for all of them. -/
structure Tidy (r : Reassembler) : Prop where
  next_eq : r.next = r.output.totalWritten
  apart : Piece.Apart r.next r.pending
  gap : r.output.inputEnded = false → Piece.Apart (r.next + 1) r.pending
  room : r.output.inputEnded = false → ∀ index ∈ Piece.covered r.pending, index < r.edge

theorem ofStorage_tidy (storage : Array UInt8) : (ofStream (.ofStorage storage)).Tidy where
  next_eq := rfl
  apart := trivial
  gap := fun _ => trivial
  room := by simp [ofStream, Piece.covered]

variable {r : Reassembler}

theorem unassembled_eq (tidy : r.Tidy) : r.unassembled = (Piece.covered r.pending).card :=
  tidy.apart.card_covered.symm

def held (r : Reassembler) : Finset Nat := Finset.range r.next ∪ Piece.covered r.pending

@[simp] theorem held_note (r : Reassembler) (stop : Nat) (isLast : Bool) :
    (r.note stop isLast).held = r.held := by
  unfold held
  rw [note_next, note_pending]

@[simp] theorem held_finish (r : Reassembler) : r.finish.held = r.held := by
  unfold held
  rw [finish_next, finish_pending]

theorem mem_held {index : Nat} :
    index ∈ r.held ↔ index < r.next ∨ index ∈ Piece.covered r.pending := by
  rw [held, Finset.mem_union, Finset.mem_range]

theorem assemble_of_ended (ended : r.output.inputEnded = true) (apart : Piece.Apart r.next r.pending) :
    r.assemble = r := by
  by_cases gap : ∀ first ∈ r.pending.head?, first.start ≠ r.next
  · exact assemble_gap gap
  · simp only [not_forall, not_not] at gap
    obtain ⟨first, head, turn⟩ := gap
    obtain ⟨rest, waiting⟩ := List.head?_eq_some_iff.mp head
    rw [waiting] at apart
    have something : first.bytes.isEmpty = false := by
      have occupied := apart.2.1
      unfold Piece.stop at occupied
      rw [List.isEmpty_eq_false_iff]
      intro empty
      rw [empty, List.length_nil] at occupied
      omega
    -- the ended output takes none of it, and the whole piece is put back
    have same : (⟨r.next, first.bytes⟩ : Piece) = first := by rw [← turn]
    rw [assemble_turn waiting turn, ByteStream.write_of_ended ended]
    simp only [Nat.add_zero, List.drop_zero, something, Bool.false_eq_true, if_false]
    rw [same, ← waiting]

theorem assemble_unended (unended : r.output.inputEnded = false)
    (next_eq : r.next = r.output.totalWritten) (apart : Piece.Apart r.next r.pending)
    (room : ∀ index ∈ Piece.covered r.pending, index < r.edge) :
    r.assemble.next = r.assemble.output.totalWritten ∧ r.assemble.edge = r.edge ∧
      Piece.Apart (r.assemble.next + 1) r.assemble.pending ∧ r.assemble.held = r.held := by
  by_cases gap : ∀ first ∈ r.pending.head?, first.start ≠ r.next
  · rw [assemble_gap gap]
    refine ⟨next_eq, rfl, ?_, rfl⟩
    cases waiting : r.pending with
    | nil => trivial
    | cons first rest =>
      rw [waiting] at apart
      obtain ⟨order, something, following⟩ := apart
      have later : first.start ≠ r.next := gap first (by simp [waiting])
      exact ⟨by omega, something, following⟩
  · simp only [not_forall, not_not] at gap
    obtain ⟨first, head, turn⟩ := gap
    obtain ⟨rest, waiting⟩ := List.head?_eq_some_iff.mp head
    rw [waiting] at apart
    obtain ⟨_, something, following⟩ := apart
    -- it has room as a whole, and there is a gap behind it, so one turn is all there is
    have stop_eq : r.next + first.bytes.length = first.stop := by rw [← turn, Piece.stop]
    have last : first.stop - 1 < r.edge := by
      apply room
      rw [waiting, Piece.covered, Finset.mem_union, Piece.mem_indices]
      left
      omega
    have fits : first.bytes.length ≤ r.output.room := by
      rw [← limit_eq_edge next_eq, limit] at last
      omega
    have all := ByteStream.write_of_fits unended fits
    rw [assemble_turn waiting turn, all, List.drop_length]
    simp only [List.isEmpty_nil, if_true]
    refine ⟨?_, ?_, ?_, ?_⟩
    · rw [ByteStream.totalWritten_write, all, next_eq]
    · simp [edge]
    · rw [stop_eq]
      exact following
    · ext index
      rw [mem_held, mem_held, waiting, Piece.covered, Finset.mem_union, Piece.mem_indices, stop_eq,
        turn]
      dsimp only
      by_cases waits : index ∈ Piece.covered rest
      · simp [waits]
      · simp only [waits, or_false]
        omega

def offered (r : Reassembler) (data : Bytes) (index : Nat) : Finset Nat :=
  (Finset.Ico index (index + data.length)).filter (· < r.edge)

theorem mem_offered {data : Bytes} {start index : Nat} :
    index ∈ r.offered data start ↔
      (start ≤ index ∧ index < start + data.length) ∧ index < r.edge := by
  rw [offered, Finset.mem_filter, Finset.mem_Ico]

@[simp] theorem offered_note (r : Reassembler) (stop : Nat) (isLast : Bool) (data : Bytes)
    (index : Nat) : (r.note stop isLast).offered data index = r.offered data index := by
  unfold offered
  rw [edge_note]

theorem acceptable?_eq_some {data : Bytes} {index : Nat} {piece : Piece}
    (accepted : r.acceptable? data index = some piece) :
    piece.start = max index r.next ∧ piece.stop = min (index + data.length) r.limit ∧
      piece.start < piece.stop := by
  unfold acceptable? at accepted
  dsimp only at accepted
  split at accepted
  · rename_i something
    cases accepted
    have stop_eq : max index r.next + (List.drop (max index r.next - index)
        (List.take (min (index + data.length) r.limit - index) data)).length =
          min (index + data.length) r.limit := by
      rw [List.length_drop, List.length_take]
      omega
    refine ⟨rfl, stop_eq, ?_⟩
    show max index r.next < max index r.next + _
    rw [stop_eq]
    exact something
  · cases accepted

theorem acceptable?_eq_none {data : Bytes} {index : Nat} (refused : r.acceptable? data index = none) :
    min (index + data.length) r.limit ≤ max index r.next := by
  unfold acceptable? at refused
  dsimp only at refused
  split at refused
  · cases refused
  · omega

theorem Tidy.apart_insertInto (tidy : r.Tidy) {data : Bytes} {index : Nat} {piece : Piece}
    (accepted : r.acceptable? data index = some piece) :
    Piece.Apart r.next (piece.insertInto r.pending) := by
  obtain ⟨start_eq, _, something⟩ := acceptable?_eq_some accepted
  apply Piece.insertInto_apart ?_ something tidy.apart
  rw [start_eq]
  exact Nat.le_max_right _ _

/-- Until the end, a reassembler comes to hold exactly what it is offered. -/
theorem Tidy.absorb (tidy : r.Tidy) (unended : r.output.inputEnded = false) (data : Bytes)
    (index : Nat) :
    (r.absorb data index).Tidy ∧ (r.absorb data index).held = r.held ∪ r.offered data index := by
  have limit_eq := limit_eq_edge tidy.next_eq
  unfold Reassembler.absorb
  split
  · rename_i piece accepted
    obtain ⟨start_eq, stop_eq, something⟩ := acceptable?_eq_some accepted
    let stored : Reassembler := { r with pending := piece.insertInto r.pending }
    have covered : Piece.covered stored.pending = piece.indices ∪ Piece.covered r.pending :=
      Piece.covered_insertInto piece r.pending
    have apart : Piece.Apart stored.next stored.pending := tidy.apart_insertInto accepted
    have room : ∀ index ∈ Piece.covered stored.pending, index < stored.edge := by
      intro position member
      show position < r.edge
      rw [covered, Finset.mem_union, Piece.mem_indices] at member
      rcases member with own | other
      · omega
      · exact tidy.room unended position other
    obtain ⟨next_eq, edge_eq, gap, held_eq⟩ :=
      assemble_unended (r := stored) unended tidy.next_eq apart room
    refine ⟨⟨next_eq, gap.weaken (Nat.le_succ _), fun _ => gap, ?_⟩, ?_⟩
    · intro _ position member
      show position < stored.assemble.edge
      rw [edge_eq]
      have inside : position ∈ stored.assemble.held := mem_held.mpr (.inr member)
      rw [held_eq, mem_held] at inside
      rcases inside with assembled | waits
      · exact Nat.lt_of_lt_of_le assembled (next_le_edge tidy.next_eq)
      · exact room position waits
    · show stored.assemble.held = _
      rw [held_eq]
      ext position
      rw [Finset.mem_union, mem_held, mem_held, covered, Finset.mem_union, Piece.mem_indices,
        mem_offered]
      show position < r.next ∨ _ ↔ _
      by_cases waits : position ∈ Piece.covered r.pending
      · simp [waits]
      · simp only [waits, or_false]
        omega
  · rename_i refused
    have nothing := acceptable?_eq_none refused
    refine ⟨tidy, ?_⟩
    ext position
    rw [Finset.mem_union, mem_held, mem_offered]
    have room := tidy.room unended position
    by_cases waits : position ∈ Piece.covered r.pending
    · simp [waits]
    · simp only [waits, or_false]
      omega

theorem absorb_of_ended (tidy : r.Tidy) (ended : r.output.inputEnded = true) (data : Bytes)
    (index : Nat) :
    r.absorb data index = r ∨ ∃ piece, r.acceptable? data index = some piece ∧
      r.absorb data index = { r with pending := piece.insertInto r.pending } := by
  unfold absorb
  cases accepted : r.acceptable? data index with
  | none => exact .inl rfl
  | some piece =>
    refine .inr ⟨piece, rfl, ?_⟩
    exact assemble_of_ended (r := { r with pending := piece.insertInto r.pending }) ended
      (tidy.apart_insertInto accepted)

theorem Tidy.absorb_of_ended (tidy : r.Tidy) (ended : r.output.inputEnded = true) (data : Bytes)
    (index : Nat) : (r.absorb data index).Tidy := by
  rcases Reassembler.absorb_of_ended tidy ended data index with same | ⟨piece, accepted, stored⟩
  · rw [same]
    exact tidy
  · have closed : ¬ r.output.inputEnded = false := by
      rw [ended]
      simp
    rw [stored]
    exact ⟨tidy.next_eq, tidy.apart_insertInto accepted, fun unended => absurd unended closed,
      fun unended => absurd unended closed⟩

theorem Tidy.note (tidy : r.Tidy) (stop : Nat) (isLast : Bool) : (r.note stop isLast).Tidy := by
  unfold Reassembler.note
  split
  · exact ⟨tidy.next_eq, tidy.apart, tidy.gap, tidy.room⟩
  · exact tidy

theorem Tidy.finish (tidy : r.Tidy) : r.finish.Tidy := by
  unfold Reassembler.finish
  split
  · refine ⟨tidy.next_eq, tidy.apart, ?_, ?_⟩
    · intro unended
      cases unended
    · intro unended
      cases unended
  · exact tidy

theorem Tidy.insert (tidy : r.Tidy) (data : Bytes) (index : Nat) (isLast : Bool) :
    (r.insert data index isLast).Tidy := by
  rw [insert_stages]
  apply Tidy.finish
  have noted := tidy.note (index + data.length) isLast
  cases ended : (r.note (index + data.length) isLast).output.inputEnded with
  | true => exact noted.absorb_of_ended ended data index
  | false => exact (noted.absorb ended data index).1

theorem Tidy.held_insert (tidy : r.Tidy) (unended : r.output.inputEnded = false) (data : Bytes)
    (index : Nat) (isLast : Bool) :
    (r.insert data index isLast).held = r.held ∪ r.offered data index := by
  have noted := tidy.note (index + data.length) isLast
  rw [insert_stages, held_finish, (noted.absorb ?_ data index).2, held_note, offered_note]
  rw [note_output]
  exact unended

theorem insert_assembled (r : Reassembler) {data : Bytes} {index : Nat} (isLast : Bool)
    (behind : index + data.length ≤ r.next) :
    (r.insert data index isLast).next = r.next ∧
      (r.insert data index isLast).pending = r.pending := by
  rw [insert_stages, finish_next, finish_pending]
  unfold absorb
  cases accepted : (r.note (index + data.length) isLast).acceptable? data index with
  | none =>
    dsimp only
    rw [note_next, note_pending]
    exact ⟨rfl, rfl⟩
  | some piece =>
    obtain ⟨start_eq, stop_eq, something⟩ := acceptable?_eq_some accepted
    rw [note_next] at start_eq
    omega

theorem Tidy.pop (tidy : r.Tidy) (count : Nat) :
    ({ r with output := r.output.pop count } : Reassembler).Tidy where
  next_eq := by
    rw [ByteStream.totalWritten_pop]
    exact tidy.next_eq
  apart := tidy.apart
  gap := tidy.gap
  room := by
    intro unended index member
    have before := tidy.room unended index member
    unfold edge at before ⊢
    rw [ByteStream.totalRead_pop, ByteStream.capacity_pop]
    omega

theorem Tidy.fail (tidy : r.Tidy) : ({ r with output := r.output.fail } : Reassembler).Tidy :=
  ⟨tidy.next_eq, tidy.apart, tidy.gap, tidy.room⟩

theorem inputEnded_insert (r : Reassembler) (data : Bytes) (index : Nat) (isLast : Bool) :
    (r.insert data index isLast).output.inputEnded = true ↔ r.output.inputEnded = true ∨
      ((r.insert data index isLast).finalIndex = some (r.insert data index isLast).next ∧
        (r.insert data index isLast).pending = []) := by
  have unchanged : ((r.note (index + data.length) isLast).absorb data index).output.inputEnded =
      r.output.inputEnded := by
    rw [← r.note_output (index + data.length) isLast]
    unfold absorb
    split
    · apply output_assemble fun output => output.inputEnded = _
      · intro output data same
        simpa using same
      · rfl
    · rfl
  rw [insert_stages, finish_next, finish_pending, finish_finalIndex, ← unchanged]
  unfold finish
  split
  · rename_i reached
    simp [reached]
  · rename_i unreached
    simp [unreached]

theorem finalIndex_insert (r : Reassembler) (data : Bytes) (index : Nat) (isLast : Bool) :
    (r.insert data index isLast).finalIndex =
      if isLast then some (index + data.length) else r.finalIndex := by
  have kept (stored : Reassembler) : stored.assemble.finalIndex = stored.finalIndex := by
    unfold assemble
    split
    · rfl
    · split <;> rfl
  rw [insert_stages, finish_finalIndex]
  unfold absorb
  split
  · unfold store
    rw [kept]
    unfold note
    split <;> rfl
  · unfold note
    split <;> rfl

theorem Tidy.pending_eq_nil (tidy : r.Tidy) (unended : r.output.inputEnded = false)
    (assembled : ∀ index ∈ r.held, index < r.next) : r.pending = [] := by
  have gap := tidy.gap unended
  cases waiting : r.pending with
  | nil => rfl
  | cons first rest =>
    rw [waiting] at gap
    have held : first.start ∈ r.held := by
      rw [mem_held, waiting, Piece.covered, Finset.mem_union, Piece.mem_indices]
      exact .inr (.inl ⟨Nat.le_refl _, gap.2.1⟩)
    have inside := assembled _ held
    have beyond := gap.1
    omega

theorem Tidy.unassembled_eq_zero (tidy : r.Tidy) : r.unassembled = 0 ↔ r.pending = [] := by
  constructor
  · intro nothing
    cases waiting : r.pending with
    | nil => rfl
    | cons first rest =>
      have apart := tidy.apart
      rw [waiting] at apart
      obtain ⟨_, something, _⟩ := apart
      rw [unassembled, waiting, List.foldr_cons] at nothing
      unfold Piece.stop at something
      omega
  · intro nothing
    rw [unassembled, nothing]
    rfl

/-- What waits behind the end goes on waiting, whatever arrives. -/
theorem Tidy.insert_stranded (tidy : r.Tidy) (ended : r.output.inputEnded = true)
    (waits : r.pending ≠ []) (data : Bytes) (index : Nat) (isLast : Bool) :
    (r.insert data index isLast).pending ≠ [] := by
  rw [insert_stages, finish_pending]
  have noted := tidy.note (index + data.length) isLast
  have still : (r.note (index + data.length) isLast).output.inputEnded = true := by
    rw [note_output]
    exact ended
  rcases Reassembler.absorb_of_ended noted still data index with same | ⟨piece, _, stored⟩
  · rw [same, note_pending]
    exact waits
  · rw [stored]
    exact Piece.insertInto_ne_nil _ _

end Reassembler

end NetStack
