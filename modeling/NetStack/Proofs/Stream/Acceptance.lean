import Mathlib.Order.Bounds.Basic
import NetStack.Proofs.Stream.Pending

namespace NetStack.Reassembler

variable {r : Reassembler}

/-- The reassembler holds the accepted indices of a text, and its output has ended once it holds all
    of them and knows that there are no more. -/
structure Accepts (r : Reassembler) (text : Bytes) (accepted : Finset Nat) : Prop where
  tidy : r.Tidy
  held_eq : r.held = accepted
  within : ∀ index ∈ accepted, index < text.length
  ended : r.output.inputEnded = true ↔ r.finalIndex.isSome = true ∧ r.next = text.length

theorem ofStorage_accepts (storage : Array UInt8) (text : Bytes) :
    (ofStream (.ofStorage storage)).Accepts text ∅ where
  tidy := ofStorage_tidy storage
  held_eq := rfl
  within := by simp
  ended := by simp [ofStream]

variable {text taken : Bytes} {accepted : Finset Nat}

theorem Accepts.pop (accepts : r.Accepts text accepted) (count : Nat) :
    ({ r with output := r.output.pop count } : Reassembler).Accepts text accepted :=
  ⟨accepts.tidy.pop count, accepts.held_eq, accepts.within, accepts.ended⟩

theorem Accepts.held_insert (accepts : r.Accepts text accepted) {data : Bytes} {index : Nat}
    (isLast : Bool) (within : index + data.length ≤ text.length) :
    (r.insert data index isLast).held = accepted ∪ r.offered data index := by
  rw [← accepts.held_eq]
  cases ended : r.output.inputEnded with
  | false => exact accepts.tidy.held_insert ended data index isLast
  | true =>
    have whole := (accepts.ended.mp ended).2
    obtain ⟨next_eq, pending_eq⟩ := r.insert_assembled isLast (whole ▸ within)
    have nothing : r.offered data index ⊆ r.held := by
      intro position offered
      have inside := (mem_offered.mp offered).1
      exact mem_held.mpr (.inl (by omega))
    rw [Finset.union_eq_left.mpr nothing, held, held, next_eq, pending_eq]

theorem Accepts.insert (accepts : r.Accepts text accepted) (reads : r.Reads text true taken)
    {data : Bytes} {index : Nat} {isLast : Bool} (start : index ≤ text.length)
    (excerpt : data <+: text.drop index) (last : isLast = true → index + data.length = text.length) :
    (r.insert data index isLast).Accepts text (accepted ∪ r.offered data index) := by
  have short := excerpt.length_le
  rw [List.length_drop] at short
  have held_eq := accepts.held_insert isLast (show index + data.length ≤ _ by omega)
  have tidy := accepts.tidy.insert data index isLast
  have read := reads.insert excerpt fun mark => ⟨rfl, last mark⟩
  have within : ∀ position ∈ accepted ∪ r.offered data index, position < text.length := by
    intro position member
    rw [Finset.mem_union, mem_offered] at member
    rcases member with earlier | new
    · exact accepts.within position earlier
    · omega
  have known : (r.insert data index isLast).output.inputEnded = true →
      (r.insert data index isLast).finalIndex.isSome = true := by
    intro ended
    rw [finalIndex_insert]
    rcases (r.inputEnded_insert data index isLast).mp ended with already | ⟨reached, _⟩
    · split
      · rfl
      · exact (accepts.ended.mp already).1
    · rw [← finalIndex_insert, reached]
      rfl
  refine ⟨tidy, held_eq, within, fun ended => ⟨known ended, ?_⟩, ?_⟩
  · rw [← read.received_length, (read.ended ended).2]
  · rintro ⟨told, whole⟩
    by_contra open_end
    have unended := eq_false_of_ne_true open_end
    obtain ⟨stop, final⟩ := Option.isSome_iff_exists.mp told
    have nothing : (r.insert data index isLast).pending = [] := by
      apply tidy.pending_eq_nil unended
      intro position held
      rw [whole]
      exact within position (held_eq ▸ held)
    have reached : (r.insert data index isLast).finalIndex =
        some (r.insert data index isLast).next := by
      rw [final, whole, (read.final stop final).2]
    exact open_end ((r.inputEnded_insert data index isLast).mpr (.inr ⟨reached, nothing⟩))

/-- The operation brings an excerpt of the text, marked as the last one only if it reaches the end,
    or only reads from the output. -/
def Op.Feeds (text : Bytes) : Op → Prop
  | .insert data index isLast =>
    index ≤ text.length ∧ data <+: text.drop index ∧
      (isLast = true → index + data.length = text.length)
  | .output (.write _) | .output .endInput | .output .fail => False
  | .output _ => True

instance (text : Bytes) : DecidablePred (Op.Feeds text)
  | .insert data index isLast =>
    inferInstanceAs (Decidable (index ≤ text.length ∧ data <+: text.drop index ∧
      (isLast = true → index + data.length = text.length)))
  | .output (.write _) | .output .endInput | .output .fail => inferInstanceAs (Decidable False)
  | .output (.peek _) | .output (.read _) | .output (.peekInto _) | .output (.readInto _)
  | .output (.pop _) => inferInstanceAs (Decidable True)

def takes (r : Reassembler) : Op → Bytes
  | .output (.read count) | .output (.pop count) => r.output.peek count
  | .output (.readInto buffer) => r.output.peek (r.output.peekInto buffer).1
  | _ => []

def takenBy (r : Reassembler) : List Op → Bytes
  | [] => []
  | op :: rest => r.takes op ++ (r.step op).2.takenBy rest

/-- The indices that the operation brings and that there is room for. -/
def accepts (r : Reassembler) : Op → Finset Nat
  | .insert data index _ => r.offered data index
  | .output _ => ∅

def acceptedBy (r : Reassembler) : List Op → Finset Nat
  | [] => ∅
  | op :: rest => r.accepts op ∪ (r.step op).2.acceptedBy rest

theorem Accepts.step (accepts : r.Accepts text accepted) (reads : r.Reads text true taken) {op : Op}
    (feeds : op.Feeds text) :
    (r.step op).2.Accepts text (accepted ∪ r.accepts op) ∧
      (r.step op).2.Reads text true (taken ++ r.takes op) := by
  have popped (count : Nat) :
      ({ r with output := r.output.pop count } : Reassembler).Accepts text (accepted ∪ ∅) := by
    rw [Finset.union_empty]
    exact accepts.pop count
  have unread {after : Reassembler} (read : after.Reads text true taken) :
      after.Reads text true (taken ++ []) := by
    rw [List.append_nil]
    exact read
  have peeked : r.Accepts text (accepted ∪ ∅) := by
    rw [Finset.union_empty]
    exact accepts
  cases op with
  | insert data index isLast =>
    obtain ⟨start, excerpt, last⟩ := feeds
    exact ⟨accepts.insert reads start excerpt last,
      unread (reads.insert excerpt fun mark => ⟨rfl, last mark⟩)⟩
  | output op =>
    cases op with
    | peek | peekInto => exact ⟨peeked, unread reads⟩
    | read count | pop count => exact ⟨popped count, reads.pop count⟩
    | readInto buffer => exact ⟨popped _, reads.pop _⟩
    | write | endInput | fail => exact feeds.elim

theorem Accepts.run (accepts : r.Accepts text accepted) (reads : r.Reads text true taken)
    {ops : List Op} (feeds : ∀ op ∈ ops, op.Feeds text) :
    (r.run ops).Accepts text (accepted ∪ r.acceptedBy ops) ∧
      (r.run ops).Reads text true (taken ++ r.takenBy ops) := by
  induction ops generalizing r accepted taken with
  | nil =>
    rw [acceptedBy, takenBy, Finset.union_empty, List.append_nil]
    exact ⟨accepts, reads⟩
  | cons op rest ih =>
    obtain ⟨first, others⟩ := List.forall_mem_cons.mp feeds
    obtain ⟨stepped, read⟩ := accepts.step reads first
    rw [acceptedBy, takenBy, ← Finset.union_assoc, ← List.append_assoc]
    exact ih stepped read others

theorem edge_le_step (r : Reassembler) (op : Op) : r.edge ≤ (r.step op).2.edge := by
  cases op with
  | insert data index isLast => exact Nat.le_of_eq (r.edge_insert data index isLast).symm
  | output op =>
    exact Nat.add_le_add (r.output.step_grows op).1 (Nat.le_of_eq (r.output.capacity_step op).symm)

theorem mem_acceptedBy {ops : List Op} {data : Bytes} {start index : Nat} {isLast : Bool}
    (arrives : .insert data start isLast ∈ ops) (from_start : start ≤ index)
    (inside : index < start + data.length) (room : index < r.edge) : index ∈ r.acceptedBy ops := by
  induction ops generalizing r with
  | nil => cases arrives
  | cons op rest ih =>
    rw [acceptedBy, Finset.mem_union]
    rcases List.mem_cons.mp arrives with rfl | later
    · exact .inl (mem_offered.mpr ⟨⟨from_start, inside⟩, room⟩)
    · exact .inr (ih later (Nat.lt_of_lt_of_le room (r.edge_le_step op)))

theorem finalIndex_run (r : Reassembler) (ops : List Op) : (r.run ops).finalIndex.isSome = true ↔
    r.finalIndex.isSome = true ∨ ∃ data index, .insert data index true ∈ ops := by
  induction ops generalizing r with
  | nil => simp [run]
  | cons op rest ih =>
    show ((r.step op).2.run rest).finalIndex.isSome = true ↔ _
    rw [ih]
    cases op with
    | insert data index isLast =>
      rw [show (r.step (.insert data index isLast)).2 = r.insert data index isLast from rfl,
        finalIndex_insert]
      cases isLast with
      | true =>
        constructor
        · exact fun _ => .inr ⟨data, index, List.mem_cons_self⟩
        · exact fun _ => .inl rfl
      | false => simp
    | output op =>
      rw [show (r.step (.output op)).2.finalIndex = r.finalIndex from rfl]
      simp

theorem Accepts.next_lt (accepts : r.Accepts text accepted) {index : Nat}
    (waits : index ∈ Piece.covered r.pending) : r.next < index := by
  cases ended : r.output.inputEnded with
  | false => exact (accepts.tidy.gap ended).le_of_mem waits
  | true =>
    -- nothing was accepted behind the end of the text
    have inside : index < text.length :=
      accepts.within index (accepts.held_eq ▸ mem_held.mpr (.inr waits))
    have behind := accepts.tidy.apart.le_of_mem waits
    have whole := (accepts.ended.mp ended).2
    omega

theorem Accepts.isLeast (accepts : r.Accepts text accepted) :
    IsLeast {index | index ∉ accepted} r.next := by
  rw [← accepts.held_eq]
  constructor
  · intro held
    rcases mem_held.mp held with assembled | waits
    · exact Nat.lt_irrefl _ assembled
    · exact Nat.lt_irrefl _ (accepts.next_lt waits)
  · intro index missing
    by_contra less
    exact missing (mem_held.mpr (.inl (by omega)))

theorem Accepts.unassembled_eq (accepts : r.Accepts text accepted) :
    r.unassembled = (accepted.filter (r.next < ·)).card := by
  rw [Reassembler.unassembled_eq accepts.tidy, ← accepts.held_eq]
  congr 1
  ext index
  rw [Finset.mem_filter, mem_held]
  constructor
  · exact fun waits => ⟨.inr waits, accepts.next_lt waits⟩
  · rintro ⟨assembled | waits, beyond⟩
    · omega
    · exact waits

theorem Accepts.whole (accepts : r.Accepts text accepted)
    (all : ∀ index < text.length, index ∈ accepted) :
    r.next = text.length ∧ r.unassembled = 0 := by
  have within : r.next ≤ text.length := by
    by_contra beyond
    have held : text.length ∈ r.held := mem_held.mpr (.inl (by omega))
    exact Nat.lt_irrefl _ (accepts.within _ (accepts.held_eq ▸ held))
  have next_eq : r.next = text.length := by
    apply Nat.le_antisymm within
    by_contra short
    exact accepts.isLeast.1 (all r.next (by omega))
  refine ⟨next_eq, ?_⟩
  rw [accepts.unassembled_eq, Finset.card_eq_zero, Finset.filter_eq_empty_iff]
  intro index member
  have inside := accepts.within index member
  omega

/-- What a reassembler has assembled are the bytes before the first index that it never accepted,
    what waits is what it accepted beyond, and its output has ended once the last piece was marked
    and nothing is missing. Pieces that leave no gap in a text for which there is room assemble to
    the text. -/
theorem assembled_accepted (storage : Array UInt8) (text : Bytes) (ops : List Op)
    (feeds : ∀ op ∈ ops, op.Feeds text) :
    let start := ofStream (.ofStorage storage)
    let last := start.run ops
    let accepted := start.acceptedBy ops
    IsLeast {index | index ∉ accepted} last.next ∧ last.output.totalWritten = last.next ∧
      start.takenBy ops ++ last.output.toList = text.take last.next ∧
      last.unassembled = (accepted.filter (last.next < ·)).card ∧
      (last.output.inputEnded = true ↔
        (∃ data index, .insert data index true ∈ ops) ∧ last.next = text.length) ∧
      (text.length ≤ storage.size →
        (∀ index < text.length, ∃ data first isLast, .insert data first isLast ∈ ops ∧
          first ≤ index ∧ index < first + data.length) →
        start.takenBy ops ++ last.output.toList = text ∧ last.unassembled = 0 ∧
          (last.output.inputEnded = true ↔ ∃ data index, .insert data index true ∈ ops)) := by
  intro start last accepted
  obtain ⟨accepts, reads⟩ :=
    (ofStorage_accepts storage text).run (ofStream_reads storage text true) feeds
  rw [Finset.empty_union] at accepts
  rw [List.nil_append] at reads
  have assembled : start.takenBy ops ++ last.output.toList = text.take last.next := by
    rw [← reads.received_length]
    exact List.prefix_iff_eq_take.mp reads.received
  have marked : last.finalIndex.isSome = true ↔ ∃ data index, .insert data index true ∈ ops :=
    (start.finalIndex_run ops).trans (or_iff_right (by simp [start, ofStream]))
  have ended : last.output.inputEnded = true ↔
      (∃ data index, .insert data index true ∈ ops) ∧ last.next = text.length := by
    rw [← marked]
    exact accepts.ended
  refine ⟨accepts.isLeast, accepts.tidy.next_eq.symm, assembled, accepts.unassembled_eq, ended, ?_⟩
  intro room complete
  have all : ∀ index < text.length, index ∈ accepted := by
    intro index inside
    obtain ⟨data, first, isLast, arrives, from_start, before⟩ := complete index inside
    apply mem_acceptedBy arrives from_start before
    show index < 0 + storage.size
    omega
  obtain ⟨whole, nothing⟩ := accepts.whole all
  rw [whole, List.take_length] at assembled
  exact ⟨assembled, nothing, ended.trans (and_iff_left whole)⟩

/-- The end arrives first, cut off where there is no more room, and the reader makes room for the
    rest. -/
def drained : List Op :=
  [.insert [4, 5, 6] 3 true, .insert [2, 3] 1 false, .insert [1, 2] 0 false, .output (.read 2),
    .insert [5, 6] 4 false, .output (.pop 1), .insert [3, 4, 5, 6] 2 true]

theorem assembled_accepted_drained :
    let start := ofStream (.ofStorage (Array.replicate 4 0))
    (∀ op ∈ drained, op.Feeds [1, 2, 3, 4, 5, 6]) ∧
      start.takenBy drained ++ (start.run drained).output.toList = [1, 2, 3, 4, 5, 6] ∧
      (start.run drained).output.inputEnded = true := by
  intro start
  have feeds : ∀ op ∈ drained, op.Feeds [1, 2, 3, 4, 5, 6] := by decide
  obtain ⟨_, _, assembled, _, ended, _⟩ :=
    assembled_accepted (Array.replicate 4 0) [1, 2, 3, 4, 5, 6] drained feeds
  have next : (start.run drained).next = 6 := by decide +kernel
  refine ⟨feeds, ?_, ?_⟩
  · rw [assembled, next]
    rfl
  · rw [ended]
    exact ⟨⟨[4, 5, 6], 3, List.mem_cons_self⟩, next⟩

end NetStack.Reassembler
