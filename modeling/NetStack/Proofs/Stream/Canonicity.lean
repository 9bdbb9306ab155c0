import NetStack.Proofs.Machine.Reassembler
import NetStack.Proofs.Stream.Acceptance
import NetStack.Proofs.Stream.Queue

namespace NetStack

namespace Piece

variable {low : Nat} {pieces : List Piece}

theorem Apart.occupied (apart : Apart low pieces) : ∀ piece ∈ pieces, piece.bytes ≠ [] := by
  induction pieces generalizing low with
  | nil => simp
  | cons first rest ih =>
    obtain ⟨_, something, following⟩ := apart
    refine List.forall_mem_cons.mpr ⟨?_, ih following⟩
    rw [List.ne_nil_iff_length_pos]
    unfold stop at something
    omega

theorem Apart.pairwise (apart : Apart low pieces) :
    pieces.Pairwise fun earlier later => earlier.stop < later.start := by
  induction pieces generalizing low with
  | nil => exact .nil
  | cons first rest ih =>
    obtain ⟨_, _, following⟩ := apart
    exact .cons following.le_start (ih following)

end Piece

/-- The pieces that wait hold something and end before the next one starts, so that they stand in
    order and neither overlap nor touch. They stand behind what is assembled, with a gap until the
    end, and within the room; they are counted, and there is room for them beside what nobody has
    read. -/
structure Canonical (pending : List Piece) (count next : Nat) (output : ByteStream.Gauges) :
    Prop where
  occupied : ∀ piece ∈ pending, piece.bytes ≠ []
  apart : pending.Pairwise fun earlier later => earlier.stop < later.start
  behind : ∀ piece ∈ pending, next ≤ piece.start
  gap : output.inputEnded = false → ∀ piece ∈ pending, next < piece.start
  within : ∀ piece ∈ pending, piece.stop ≤ output.totalRead + output.capacity
  count_eq : count = Piece.total pending
  next_eq : next = output.totalWritten
  fits : count + output.size ≤ output.capacity

namespace Machine.Reassembler

def ofStorage (storage : Bytes) : Reassembler := ⟨.ofStorage storage, [], 0, 0, none⟩

def step (r : Reassembler) : Reassembler.Op → Option Reassembler
  | .insert data index isLast => r.insert data index isLast
  | .output op => do
    let (_, output) ← r.output.step op
    some { r with output }

def run (r : Reassembler) (ops : List Reassembler.Op) : Option Reassembler := ops.foldlM step r

end Machine.Reassembler

namespace Reassembler

open Machine

/-- Pieces may claim any index that fits in a word and say anything about it. The output is only
    read or broken. -/
def Op.Receives : Op → Prop
  | .insert data index _ => index + data.length < wordLimit
  | .output (.write _) | .output .endInput => False
  | .output _ => True

instance : DecidablePred Op.Receives
  | .insert data index _ => inferInstanceAs (Decidable (index + data.length < wordLimit))
  | .output (.write _) | .output .endInput => inferInstanceAs (Decidable False)
  | .output (.peek _) | .output (.read _) | .output (.peekInto _) | .output (.readInto _)
  | .output (.pop _) | .output .fail => inferInstanceAs (Decidable True)

structure Regular (r : Reassembler) : Prop where
  tidy : r.Tidy
  bounded : r.Bounded
  rested : r.output.Rested

theorem ofStorage_regular (storage : Array UInt8) : (ofStream (.ofStorage storage)).Regular where
  tidy := ofStorage_tidy storage
  bounded := by simp [Bounded, ofStream]
  rested := ByteStream.rested_ofStorage storage

variable {r : Reassembler}

theorem Regular.pop (regular : r.Regular) (count : Nat) :
    ({ r with output := r.output.pop count } : Reassembler).Regular :=
  ⟨regular.tidy.pop count, regular.bounded.pop count, r.output.rested_pop count⟩

theorem Regular.step (regular : r.Regular) {op : Op} (receives : op.Receives) :
    (r.step op).2.Regular := by
  cases op with
  | insert data index isLast =>
    exact ⟨regular.tidy.insert data index isLast,
      regular.bounded.insert regular.tidy data index isLast,
      rested_insert regular.rested data index isLast⟩
  | output op =>
    cases op with
    | peek | peekInto => exact regular
    | read count | pop count => exact regular.pop count
    | readInto buffer => exact regular.pop _
    | fail => exact ⟨regular.tidy.fail, regular.bounded, regular.rested⟩
    | write | endInput => exact receives.elim

theorem Regular.run (regular : r.Regular) {ops : List Op} (receive : ∀ op ∈ ops, op.Receives) :
    (r.run ops).Regular := by
  induction ops generalizing r with
  | nil => exact regular
  | cons op rest ih =>
    obtain ⟨first, others⟩ := List.forall_mem_cons.mp receive
    exact ih (regular.step first) others

theorem Regular.canonical (regular : r.Regular) :
    Canonical r.pending r.unassembled r.next r.output.gauges where
  occupied := regular.tidy.apart.occupied
  apart := regular.tidy.apart.pairwise
  behind := regular.tidy.apart.le_start
  gap := fun unended => (regular.tidy.gap unended).le_start
  within := regular.bounded
  count_eq := r.unassembled_eq_total
  next_eq := regular.tidy.next_eq
  fits := by
    have room := regular.tidy.apart.total_le regular.bounded
    have next_eq : r.next = r.output.totalRead + r.output.size := regular.tidy.next_eq
    have size : r.output.size ≤ r.output.capacity := r.output.size_le
    show Piece.total r.pending + r.output.size ≤ r.output.capacity
    unfold edge at room
    omega

theorem edge_le_run (r : Reassembler) (ops : List Op) : r.edge ≤ (r.run ops).edge := by
  induction ops generalizing r with
  | nil => exact Nat.le_refl _
  | cons op rest ih => exact Nat.le_trans (r.edge_le_step op) (ih _)

theorem capacity_step (r : Reassembler) (op : Op) :
    (r.step op).2.output.capacity = r.output.capacity := by
  cases op with
  | insert data index isLast => exact r.capacity_insert data index isLast
  | output op => exact r.output.capacity_step op

theorem capacity_run (r : Reassembler) (ops : List Op) :
    (r.run ops).output.capacity = r.output.capacity := by
  induction ops generalizing r with
  | nil => rfl
  | cons op rest ih => exact (ih _).trans (r.capacity_step op)

theorem machine_step (regular : r.Regular) {op : Op} (receives : op.Receives)
    (small : r.output.capacity ≤ sliceLimit) (counted : (r.step op).2.edge < wordLimit) :
    r.machine.step op = some (r.step op).2.machine := by
  have before := Nat.lt_of_le_of_lt (r.edge_le_step op) counted
  cases op with
  | insert data index isLast =>
    exact machine_insert ⟨regular.tidy, regular.bounded, small, before⟩ receives isLast
  | output op =>
    have written : (r.output.step op).2.totalWritten < wordLimit :=
      Nat.lt_of_le_of_lt (Nat.add_le_add_left (r.output.step op).2.size_le _) counted
    show ((r.output.machine.step op).bind _) = _
    rw [ByteStream.machine_step op small regular.rested written]
    rfl

theorem machine_run (regular : r.Regular) {ops : List Op} (receive : ∀ op ∈ ops, op.Receives)
    (small : r.output.capacity ≤ sliceLimit) (counted : (r.run ops).edge < wordLimit) :
    r.machine.run ops = some (r.run ops).machine := by
  induction ops generalizing r with
  | nil => rfl
  | cons op rest ih =>
    obtain ⟨first, others⟩ := List.forall_mem_cons.mp receive
    have now := Nat.lt_of_le_of_lt ((r.step op).2.edge_le_run rest) counted
    have stepped := machine_step regular first small now
    have ran := ih (regular.step first) others
      (Nat.le_trans (Nat.le_of_eq (r.capacity_step op)) small) counted
    unfold Machine.Reassembler.run
    rw [List.foldlM_cons, stepped]
    exact ran

/-- However the pieces arrive, overlap and contradict each other, and however the output is read in
    between, what waits is canonical. On a machine the ordered map and its count come to the same
    without a fault, while the indices that there is room for fit in a word. -/
theorem run_canonical (storage : Array UInt8) (ops : List Op)
    (receive : ∀ op ∈ ops, op.Receives) :
    let last := (ofStream (.ofStorage storage)).run ops
    Canonical last.pending last.unassembled last.next last.output.gauges ∧
      (storage.size ≤ sliceLimit → last.output.totalRead + storage.size < wordLimit →
        ∃ final gauges, (Machine.Reassembler.ofStorage storage.toList).run ops = some final ∧
          final.output.gauges = some gauges ∧
          Canonical final.pending final.unassembled final.next gauges) := by
  intro last
  have start := ofStorage_regular storage
  have canonical := (start.run receive).canonical
  refine ⟨canonical, fun small counted => ?_⟩
  have capacity : last.output.capacity = storage.size := capacity_run _ ops
  rw [← capacity] at counted
  have ran := machine_run start receive small counted
  exact ⟨last.machine, _, ran, last.output.machine_gauges, canonical⟩

/-- Pieces that disagree on where the stream ends end it behind what was assembled, and another one
    is kept there although nothing will ever ask for it. -/
theorem run_canonical_stranded :
    let storage : Array UInt8 := #[9, 9, 9, 9]
    let ops : List Op := [.insert [5, 6] 1 false, .insert [7] 0 true, .insert [] 3 true,
      .output (.read 1), .insert [9] 3 false, .output .fail]
    let last := (ofStream (.ofStorage storage)).run ops
    (last.pending = [⟨3, [9]⟩] ∧ last.next = 3 ∧ last.output.inputEnded = true) ∧
      Canonical last.pending last.unassembled last.next last.output.gauges ∧
      ∃ final gauges, (Machine.Reassembler.ofStorage storage.toList).run ops = some final ∧
        final.output.gauges = some gauges ∧
        Canonical final.pending final.unassembled final.next gauges := by
  intro storage ops last
  have receive : ∀ op ∈ ops, op.Receives := by decide
  obtain ⟨canonical, runs⟩ := run_canonical storage ops receive
  exact ⟨by decide, canonical, runs (by decide) (by decide)⟩

end Reassembler

end NetStack
