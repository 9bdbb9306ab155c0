import NetStack.Proofs.Machine.Stream
import NetStack.Proofs.Stream.Pending

namespace NetStack

namespace Piece

def total (pieces : List Piece) : Nat :=
  pieces.foldr (fun piece total => piece.bytes.length + total) 0

variable {piece : Piece} {front pieces : List Piece} {low limit : Nat}

theorem total_append (front back : List Piece) :
    total (front ++ back) = total front + total back := by
  induction front with
  | nil => exact (Nat.zero_add _).symm
  | cons first rest ih =>
    show first.bytes.length + total (rest ++ back) = first.bytes.length + total rest + total back
    omega

theorem total_cons (piece : Piece) (rest : List Piece) :
    total (piece :: rest) = piece.bytes.length + total rest := rfl

theorem Apart.total_le (apart : Apart low pieces) (below : ∀ piece ∈ pieces, piece.stop ≤ limit) :
    total pieces ≤ limit - low := by
  induction pieces generalizing low with
  | nil => exact Nat.zero_le _
  | cons piece rest ih =>
    obtain ⟨begins, something, following⟩ := apart
    obtain ⟨own, others⟩ := List.forall_mem_cons.mp below
    have behind := ih following others
    rw [total_cons]
    unfold stop at *
    omega

theorem join_stop {first second : Piece} (touching : second.start ≤ first.stop) :
    (first.join second).stop = max first.stop second.stop := by
  simp only [join, stop, List.length_append, List.length_drop] at touching ⊢
  omega

theorem join_inner {first second : Piece} (inside : second.stop ≤ first.stop) :
    first.join second = first := by
  unfold stop at inside
  rw [join, List.drop_eq_nil_of_le (by unfold stop; omega), List.append_nil]

theorem Apart.back {front back : List Piece} (apart : Apart low (front ++ back)) :
    Apart low back := by
  induction front generalizing low with
  | nil => exact apart
  | cons first rest ih =>
    obtain ⟨begins, something, following⟩ := apart
    exact (ih following).weaken (by omega)

theorem Apart.stop_lt {front back : List Piece} {next : Piece}
    (apart : Apart low (front ++ next :: back)) : ∀ other ∈ front, other.stop < next.start := by
  induction front generalizing low with
  | nil => simp
  | cons first rest ih =>
    obtain ⟨_, _, following⟩ := apart
    exact List.forall_mem_cons.mpr ⟨following.back.1, ih following⟩

theorem Apart.le_start (apart : Apart low pieces) :
    ∀ other ∈ pieces, low ≤ other.start := by
  induction pieces generalizing low with
  | nil => simp
  | cons first rest ih =>
    obtain ⟨begins, something, following⟩ := apart
    refine List.forall_mem_cons.mpr ⟨begins, fun other member => ?_⟩
    have bound := ih following other member
    omega

theorem insertInto_append (before : ∀ other ∈ front, other.stop < piece.start) :
    piece.insertInto (front ++ pieces) = front ++ piece.insertInto pieces := by
  induction front with
  | nil => rfl
  | cons first rest ih =>
    obtain ⟨own, others⟩ := List.forall_mem_cons.mp before
    rw [List.cons_append, insertInto, if_pos own, ih others, List.cons_append]

theorem insertInto_below (own : piece.stop ≤ limit) (below : ∀ other ∈ pieces, other.stop ≤ limit) :
    ∀ other ∈ piece.insertInto pieces, other.stop ≤ limit := by
  induction pieces generalizing piece with
  | nil => simpa [insertInto] using own
  | cons next rest ih =>
    obtain ⟨first, others⟩ := List.forall_mem_cons.mp below
    unfold insertInto
    split
    · exact List.forall_mem_cons.mpr ⟨first, ih own others⟩
    · split
      · exact List.forall_mem_cons.mpr ⟨own, below⟩
      · rename_i reaches touches
        split
        · rename_i earlier
          apply ih _ others
          simp only [join, stop, List.length_append, List.length_drop] at *
          omega
        · apply ih _ others
          simp only [join, stop, List.length_append, List.length_drop] at *
          omega

theorem exists_front (pieces : List Piece) (index : Nat) : ∃ front back, pieces = front ++ back ∧
    (∀ piece ∈ front, piece.stop < index) ∧ ∀ piece ∈ back.head?, index ≤ piece.stop := by
  induction pieces with
  | nil => exact ⟨[], [], rfl, by simp, by simp⟩
  | cons first rest ih =>
    by_cases early : first.stop < index
    · obtain ⟨front, back, rfl, before, reaches⟩ := ih
      exact ⟨first :: front, back, rfl, List.forall_mem_cons.mpr ⟨early, before⟩, reaches⟩
    · exact ⟨[], first :: rest, rfl, by simp, by simpa using early⟩

end Piece

namespace Machine

def lastUpTo (start : Nat) (pieces : List Piece) : Option Piece :=
  (pieces.filter fun piece => piece.start ≤ start).getLast?

/-- The piece with the lowest start that is beyond `low` and not beyond `high`. An inverted range is
    a fault. -/
def firstWithin (low high : Nat) (pieces : List Piece) : Option (Option Piece) :=
  if low ≤ high then
    some (pieces.find? fun piece => decide (low < piece.start) && decide (piece.start ≤ high))
  else none

theorem mem_of_firstWithin {low high : Nat} {pieces : List Piece} {piece : Piece}
    (found : firstWithin low high pieces = some (some piece)) : piece ∈ pieces := by
  unfold firstWithin at found
  split at found
  · exact List.mem_of_find?_eq_some (Option.some.inj found)
  · nomatch found

def remove (start : Nat) (pieces : List Piece) : List Piece :=
  pieces.filter fun piece => piece.start != start

def place (piece : Piece) : List Piece → List Piece
  | [] => [piece]
  | next :: rest =>
    if piece.start < next.start then piece :: next :: rest
    else if piece.start = next.start then piece :: rest
    else next :: place piece rest

structure Reassembler where
  output : Stream
  pending : List Piece
  unassembled : Nat
  next : Nat
  finalIndex : Option Nat

namespace Reassembler

def takeOut (r : Reassembler) (piece : Piece) : Option Reassembler := do
  let unassembled ← sub r.unassembled piece.bytes.length
  some { r with pending := remove piece.start r.pending, unassembled }

theorem takeOut_length_lt {r left : Reassembler} {piece : Piece} (member : piece ∈ r.pending)
    (taken : r.takeOut piece = some left) : left.pending.length < r.pending.length := by
  obtain ⟨unassembled, _, result⟩ := Option.bind_eq_some_iff.mp taken
  rw [← Option.some.inj result]
  exact List.length_filter_lt_length_iff_exists.mpr ⟨piece, member, by simp⟩

def joinAt (first : Piece) (firstStop : Nat) (second : Piece) (secondStop : Nat) :
    Option (Piece × Nat) :=
  if firstStop < secondStop then do
    let skipped ← sub firstStop second.start
    let rest ← slice second.bytes skipped second.bytes.length
    some (⟨first.start, first.bytes ++ rest⟩, secondStop)
  else some (first, firstStop)

def joinPrevious (r : Reassembler) (piece : Piece) (stop : Nat) :
    Option (Reassembler × Piece × Nat) :=
  match lastUpTo piece.start r.pending with
  | none => some (r, piece, stop)
  | some previous => do
    let previousStop ← add previous.start previous.bytes.length
    if piece.start ≤ previousStop then
      let left ← r.takeOut previous
      let joined ← joinAt previous previousStop piece stop
      some (left, joined)
    else some (r, piece, stop)

def joinNext : Reassembler × Piece × Nat → Option (ForInStep (Reassembler × Piece × Nat))
  | (r, piece, stop) => do
    match ← firstWithin piece.start stop r.pending with
    | none => some (.done (r, piece, stop))
    | some next =>
      let left ← r.takeOut next
      let nextStop ← add next.start next.bytes.length
      let joined ← joinAt piece stop next nextStop
      some (.yield (left, joined))

theorem joinNext_length_lt {s after : Reassembler × Piece × Nat}
    (joins : joinNext s = some (.yield after)) :
    after.1.pending.length < s.1.pending.length := by
  obtain ⟨found, within, joins⟩ := Option.bind_eq_some_iff.mp joins
  cases found with
  | none => nomatch joins
  | some next =>
    obtain ⟨taken, taking, joins⟩ := Option.bind_eq_some_iff.mp joins
    obtain ⟨nextStop, _, joins⟩ := Option.bind_eq_some_iff.mp joins
    obtain ⟨both, _, result⟩ := Option.bind_eq_some_iff.mp joins
    cases result
    exact takeOut_length_lt (mem_of_firstWithin within) taking

def joinFollowing (r : Reassembler) (piece : Piece) (stop : Nat) :
    Option (Reassembler × Piece × Nat) :=
  loop joinNext (·.1.pending.length) joinNext_length_lt (r, piece, stop)

def store (r : Reassembler) (start : Nat) (data : Bytes) : Option Reassembler := do
  let stop ← add start data.length
  let (r, piece, stop) ← r.joinPrevious ⟨start, data⟩ stop
  let (r, piece, _) ← r.joinFollowing piece stop
  let unassembled ← add r.unassembled piece.bytes.length
  some { r with pending := place piece r.pending, unassembled }

/-- Write as much as there is room for of the first piece, if it is next. Another one can be next
    only if all of it is written. -/
def writeNext (r : Reassembler) : Option (ForInStep Reassembler) :=
  match r.pending with
  | [] => some (.done r)
  | first :: rest =>
    if first.start = r.next then do
      let (written, output) ← r.output.write first.bytes
      if written = 0 then some (.done { r with output })
      else
        let unassembled ← sub r.unassembled written
        let next ← add r.next written
        if written < first.bytes.length then
          let behind ← slice first.bytes written first.bytes.length
          some (.done
            { r with output, unassembled, next, pending := place ⟨next, behind⟩ rest })
        else some (.yield { r with output, unassembled, next, pending := rest })
    else some (.done r)

theorem writeNext_length_lt {r left : Reassembler} (wrote : r.writeNext = some (.yield left)) :
    left.pending.length < r.pending.length := by
  unfold writeNext at wrote
  simp only [Option.bind_eq_bind] at wrote
  grind [Option.bind_eq_some_iff]

def assemble (r : Reassembler) : Option Reassembler :=
  loop writeNext (·.pending.length) writeNext_length_lt r

def absorb (r : Reassembler) (data : Bytes) (index : Nat) : Option Reassembler := do
  let limit ← add r.next (← r.output.room)
  let start := max index r.next
  let stop := min (← add index data.length) limit
  if start < stop then
    let part ← slice data (← sub start index) (← sub stop index)
    (← r.store start part).assemble
  else some r

def note (r : Reassembler) (data : Bytes) (index : Nat) (isLast : Bool) : Option Reassembler :=
  if isLast then do
    let stop ← add index data.length
    some { r with finalIndex := some stop }
  else some r

def insert (r : Reassembler) (data : Bytes) (index : Nat) (isLast : Bool) :
    Option Reassembler := do
  let r ← (← r.note data index isLast).absorb data index
  if r.finalIndex = some r.next ∧ r.pending = [] ∧ r.output.inputEnded = false then
    some { r with output := r.output.endInput }
  else some r

end Reassembler

section Map

variable {piece next : Piece} {front rest : List Piece} {low high start : Nat}

theorem remove_eq (before : ∀ other ∈ front, other.start < next.start)
    (behind : ∀ other ∈ rest, next.start < other.start) :
    remove next.start (front ++ next :: rest) = front ++ rest := by
  have kept {pieces : List Piece} (distinct : ∀ other ∈ pieces, other.start ≠ next.start) :
      pieces.filter (fun other => other.start != next.start) = pieces :=
    List.filter_eq_self.mpr fun other member => by simpa using distinct other member
  rw [remove, List.filter_append, List.filter_cons_of_neg (by simp),
    kept fun other member => Nat.ne_of_lt (before other member),
    kept fun other member => (Nat.ne_of_lt (behind other member)).symm]

theorem place_eq (before : ∀ other ∈ front, other.start < piece.start)
    (behind : ∀ other ∈ rest, piece.start < other.start) :
    place piece (front ++ rest) = front ++ piece :: rest := by
  induction front with
  | nil =>
    cases rest with
    | nil => rfl
    | cons next rest => exact if_pos (behind next List.mem_cons_self)
  | cons first front ih =>
    obtain ⟨own, others⟩ := List.forall_mem_cons.mp before
    rw [List.cons_append, place, if_neg (by omega), if_neg (by omega), ih others]
    rfl

theorem lastUpTo_front (before : ∀ other ∈ front, other.start ≤ start)
    (behind : ∀ other ∈ rest, start < other.start) :
    lastUpTo start (front ++ rest) = front.getLast? := by
  have none_left : rest.filter (fun other => decide (other.start ≤ start)) = [] :=
    List.filter_eq_nil_iff.mpr fun other member => by simpa using behind other member
  rw [lastUpTo, List.filter_append, none_left, List.append_nil,
    List.filter_eq_self.mpr fun other member => by simpa using before other member]

theorem firstWithin_behind (order : low ≤ high) (before : ∀ other ∈ front, other.start ≤ low)
    (behind : ∀ other ∈ rest, high < other.start) :
    firstWithin low high (front ++ rest) = some none := by
  rw [firstWithin, if_pos order, List.find?_eq_none.mpr]
  intro other member
  rcases List.mem_append.mp member with early | late
  · have bound := before other early
    simp only [Bool.and_eq_true, decide_eq_true_eq]
    omega
  · have bound := behind other late
    simp only [Bool.and_eq_true, decide_eq_true_eq]
    omega

theorem firstWithin_next (before : ∀ other ∈ front, other.start ≤ low) (begins : low < next.start)
    (touches : next.start ≤ high) :
    firstWithin low high (front ++ next :: rest) = some (some next) := by
  have none_before : front.find?
      (fun other => decide (low < other.start) && decide (other.start ≤ high)) = none := by
    rw [List.find?_eq_none]
    intro other member
    have bound := before other member
    simp only [Bool.and_eq_true, decide_eq_true_eq]
    omega
  rw [firstWithin, if_pos (by omega), List.find?_append, none_before, Option.none_or,
    List.find?_cons_of_pos]
  simp only [Bool.and_eq_true, decide_eq_true_eq]
  omega

end Map

namespace Reassembler

variable {r : Reassembler} {piece : Piece} {front rest : List Piece}

def holding (r : Reassembler) (pieces : List Piece) : Reassembler :=
  { r with pending := pieces, unassembled := Piece.total pieces }

theorem takeOut_eq {next : Piece} (before : ∀ other ∈ front, other.start < next.start)
    (behind : ∀ other ∈ rest, next.start < other.start) :
    (r.holding (front ++ next :: rest)).takeOut next = some (r.holding (front ++ rest)) := by
  have count : Piece.total (front ++ next :: rest) =
      Piece.total (front ++ rest) + next.bytes.length := by
    rw [Piece.total_append, Piece.total_append, Piece.total_cons]
    omega
  unfold takeOut holding
  simp only [Option.bind_eq_bind]
  rw [count, sub_eq (Nat.le_add_left _ _), Option.bind_some, remove_eq before behind,
    Nat.add_sub_cancel]

theorem joinAt_eq {first second : Piece} (touches : second.start ≤ first.stop) :
    joinAt first first.stop second second.stop =
      some (first.join second, (first.join second).stop) := by
  have own : second.start + second.bytes.length = second.stop := rfl
  unfold joinAt
  by_cases longer : first.stop < second.stop
  · simp only [Option.bind_eq_bind]
    rw [Piece.join_stop touches, Nat.max_eq_right (Nat.le_of_lt longer), if_pos longer,
      sub_eq touches, Option.bind_some, slice_rest (by omega), Option.bind_some]
    rfl
  · rw [Piece.join_inner (by omega), if_neg longer]

theorem joinFollowing_next {next : Piece} (before : ∀ other ∈ front, other.start < piece.start)
    (begins : piece.start < next.start) (touches : next.start ≤ piece.stop)
    (behind : ∀ other ∈ rest, next.start < other.start) (counted : next.stop < wordLimit) :
    (r.holding (front ++ next :: rest)).joinFollowing piece piece.stop =
      (r.holding (front ++ rest)).joinFollowing (piece.join next) (piece.join next).stop := by
  have found : firstWithin piece.start piece.stop (front ++ next :: rest) = _ := firstWithin_next
    (fun other member => Nat.le_of_lt (before other member)) begins touches
  have taken := takeOut_eq (r := r) (fun other member => Nat.lt_trans (before other member) begins)
    behind
  have stop_eq : next.start + next.bytes.length = next.stop := rfl
  apply loop_of_yield
  show (firstWithin piece.start piece.stop (front ++ next :: rest)).bind _ = _
  simp only [found, Option.bind_some, Option.bind_eq_bind]
  rw [taken, Option.bind_some, add_eq counted, Option.bind_some, stop_eq, joinAt_eq touches,
    Option.bind_some]

theorem joinPrevious_none (before : ∀ other ∈ front, other.stop < piece.start)
    (apart : Piece.Apart (piece.start + 1) rest) (small : piece.start < wordLimit) :
    (r.holding (front ++ rest)).joinPrevious piece piece.stop =
      some (r.holding (front ++ rest), piece, piece.stop) := by
  have found : lastUpTo piece.start (front ++ rest) = front.getLast? := by
    apply lastUpTo_front
    · intro other member
      have bound := before other member
      unfold Piece.stop at bound
      omega
    · exact apart.le_start
  unfold joinPrevious
  show (match lastUpTo piece.start (front ++ rest) with | none => _ | some previous => _) = _
  rw [found]
  cases last : front.getLast? with
  | none => rfl
  | some previous =>
    have bound := before previous (List.mem_of_getLast? last)
    unfold Piece.stop at bound
    simp only [Option.bind_eq_bind]
    rw [add_eq (by omega), Option.bind_some, if_neg (by omega)]

theorem joinPrevious_some {previous : Piece} (begins : previous.start ≤ piece.start)
    (touches : piece.start ≤ previous.stop) (ahead : ∀ other ∈ front, other.start < previous.start)
    (apart : Piece.Apart (previous.stop + 1) rest) (small : previous.stop < wordLimit) :
    (r.holding (front ++ previous :: rest)).joinPrevious piece piece.stop =
      some (r.holding (front ++ rest), previous.join piece, (previous.join piece).stop) := by
  have later := apart.le_start
  have stop_eq : previous.start + previous.bytes.length = previous.stop := rfl
  have found : lastUpTo piece.start (front ++ previous :: rest) = some previous := by
    rw [List.append_cons, lastUpTo_front, List.getLast?_concat]
    · intro other member
      rcases List.mem_append.mp member with early | own
      · exact Nat.le_trans (Nat.le_of_lt (ahead other early)) begins
      · rw [List.mem_singleton.mp own]
        exact begins
    · intro other member
      have bound := later other member
      omega
  have taken := takeOut_eq (r := r) ahead fun other member => by
    have bound := later other member
    omega
  unfold joinPrevious
  show (match lastUpTo piece.start (front ++ previous :: rest) with
    | none => _ | some previous => _) = _
  rw [found]
  simp only [Option.bind_eq_bind]
  rw [add_eq small, Option.bind_some, stop_eq, if_pos touches, taken, Option.bind_some,
    joinAt_eq touches, Option.bind_some]

theorem joinFollowing_eq (before : ∀ other ∈ front, other.stop < piece.start)
    (something : piece.start < piece.stop) (apart : Piece.Apart (piece.start + 1) rest)
    (counted : ∀ other ∈ rest, other.stop < wordLimit) :
    ∃ joined left, (r.holding (front ++ rest)).joinFollowing piece piece.stop =
        some (r.holding (front ++ left), joined, joined.stop) ∧
      joined.start = piece.start ∧ piece.insertInto rest = joined :: left ∧
      ∀ other ∈ left, piece.start < other.start := by
  have order : piece.start ≤ piece.stop := Nat.le_of_lt something
  have early : ∀ other ∈ front, other.start < piece.start := fun other member =>
    Nat.lt_of_le_of_lt (Nat.le_add_right _ _) (before other member)
  -- a pass leaves the pieces before the gap alone, and makes the joined piece longer
  induction rest generalizing piece with
  | nil =>
    have alone : firstWithin piece.start piece.stop (front ++ []) = _ := firstWithin_behind order
      (fun other member => Nat.le_of_lt (early other member)) (by simp)
    refine ⟨piece, [], ?_, rfl, rfl, by simp⟩
    apply loop_of_done
    show (firstWithin piece.start piece.stop (front ++ [])).bind _ = _
    rw [alone]
    rfl
  | cons next rest ih =>
    obtain ⟨begins, occupied, following⟩ := apart
    obtain ⟨small, others⟩ := List.forall_mem_cons.mp counted
    have later := following.le_start
    by_cases gap : piece.stop < next.start
    · have alone : firstWithin piece.start piece.stop (front ++ next :: rest) = _ :=
        firstWithin_behind order (fun other member => Nat.le_of_lt (early other member))
          (List.forall_mem_cons.mpr ⟨gap, fun other member => by
          have bound := later other member
          omega⟩)
      refine ⟨piece, next :: rest, ?_, rfl, ?_, ?_⟩
      · apply loop_of_done
        show (firstWithin piece.start piece.stop (front ++ next :: rest)).bind _ = _
        rw [alone]
        rfl
      · rw [Piece.insertInto, if_neg (by omega), if_pos gap]
      · refine List.forall_mem_cons.mpr ⟨begins, fun other member => ?_⟩
        have bound := later other member
        omega
    · have touches : next.start ≤ piece.stop := Nat.not_lt.mp gap
      have joined_stop := Piece.join_stop touches
      obtain ⟨joined, left, joins, start_eq, inserted, beyond⟩ := @ih (piece.join next)
        before (by show piece.start < _; omega)
        (following.weaken (by show piece.start + 1 ≤ _; omega)) others
        (by show piece.start ≤ _; omega) early
      refine ⟨joined, left, ?_, start_eq, ?_, beyond⟩
      · rw [joinFollowing_next early begins touches (fun other member => ?_) small, joins]
        have bound := later other member
        omega
      · rw [Piece.insertInto, if_neg (by omega), if_neg gap, if_neg (by omega), inserted]

theorem joinPrevious_eq {back : List Piece} {low : Nat}
    (apart : Piece.Apart low (front ++ back)) (something : piece.start < piece.stop)
    (before : ∀ other ∈ front, other.stop < piece.start)
    (reaches : ∀ other ∈ back.head?, piece.start ≤ other.stop)
    (counted : ∀ other ∈ back, other.stop < wordLimit) (small : piece.start < wordLimit) :
    ∃ merged rest, (r.holding (front ++ back)).joinPrevious piece piece.stop =
        some (r.holding (front ++ rest), merged, merged.stop) ∧
      piece.insertInto back = merged.insertInto rest ∧ merged.start < merged.stop ∧
      (∀ other ∈ front, other.stop < merged.start) ∧ Piece.Apart (merged.start + 1) rest ∧
      ∀ other ∈ rest, other.stop < wordLimit := by
  have alone (behind : Piece.Apart (piece.start + 1) back) :=
    joinPrevious_none (r := r) before behind small
  cases back with
  | nil => exact ⟨piece, [], alone trivial, rfl, something, before, trivial, counted⟩
  | cons next rest =>
    obtain ⟨_, occupied, following⟩ := apart.back
    by_cases begins : next.start ≤ piece.start
    · have ahead := apart.stop_lt
      have touches := reaches next rfl
      have joined_stop := Piece.join_stop touches
      obtain ⟨smallNext, others⟩ := List.forall_mem_cons.mp counted
      refine ⟨next.join piece, rest, ?_, ?_, ?_, ahead, ?_, others⟩
      · apply joinPrevious_some begins touches (fun other member => ?_) following smallNext
        exact Nat.lt_of_le_of_lt (Nat.le_add_right _ _) (ahead other member)
      · rw [Piece.insertInto, if_neg (by omega), if_neg (by omega), if_pos begins]
      · show next.start < _
        omega
      · exact following.weaken (by show next.start + 1 ≤ _; omega)
    · have behind : Piece.Apart (piece.start + 1) (next :: rest) :=
        ⟨by omega, occupied, following⟩
      exact ⟨piece, next :: rest, alone behind, rfl, something, before, behind, counted⟩

theorem store_eq {pieces : List Piece} {low : Nat} (apart : Piece.Apart low pieces)
    (something : piece.start < piece.stop) (counted : ∀ other ∈ pieces, other.stop < wordLimit)
    (small : piece.stop < wordLimit) (fits : Piece.total (piece.insertInto pieces) < wordLimit) :
    (r.holding pieces).store piece.start piece.bytes =
      some (r.holding (piece.insertInto pieces)) := by
  obtain ⟨front, back, rfl, before, reaches⟩ := Piece.exists_front pieces piece.start
  obtain ⟨merged, rest, merges, inserted, occupied, ahead, behind, others⟩ :=
    joinPrevious_eq (r := r) apart something before reaches
      (fun other member => counted other (List.mem_append_right _ member)) (by omega)
  obtain ⟨joined, left, joins, start_eq, joined_eq, beyond⟩ :=
    joinFollowing_eq (r := r) ahead occupied behind others
  have placed : place joined (front ++ left) = front ++ joined :: left := by
    apply place_eq
    · intro other member
      have bound := ahead other member
      unfold Piece.stop at bound
      omega
    · rw [start_eq]
      exact beyond
  rw [Piece.insertInto_append before, inserted, joined_eq] at fits ⊢
  have count : Piece.total (front ++ left) + joined.bytes.length =
      Piece.total (front ++ joined :: left) := by
    rw [Piece.total_append, Piece.total_append, Piece.total_cons]
    omega
  unfold store
  simp only [Option.bind_eq_bind]
  rw [add_eq small, Option.bind_some]
  show (((r.holding (front ++ back)).joinPrevious piece piece.stop).bind _) = _
  rw [merges]
  simp only [Option.bind_some]
  rw [joins]
  simp only [Option.bind_some, holding]
  rw [add_eq (by omega), Option.bind_some, count, placed]

end Reassembler

end Machine

namespace Reassembler

open Machine

def machine (r : Reassembler) : Machine.Reassembler where
  output := r.output.machine
  pending := r.pending
  unassembled := r.unassembled
  next := r.next
  finalIndex := r.finalIndex

theorem unassembled_eq_total (r : Reassembler) : r.unassembled = Piece.total r.pending := rfl

/-- There is room for all the pieces that wait, also behind the end. -/
def Bounded (r : Reassembler) : Prop := ∀ piece ∈ r.pending, piece.stop ≤ r.edge

structure Fits (r : Reassembler) : Prop where
  tidy : r.Tidy
  bounded : r.Bounded
  small : r.output.capacity ≤ sliceLimit
  counted : r.edge < wordLimit

variable {r : Reassembler} {piece : Piece} {low : Nat}

theorem machine_store (apart : Piece.Apart low r.pending) (bounded : r.Bounded)
    (something : piece.start < piece.stop) (own : piece.stop ≤ r.edge)
    (counted : r.edge < wordLimit) : r.machine.store piece.start piece.bytes =
      some ({ r with pending := piece.insertInto r.pending } : Reassembler).machine := by
  have inserted := Piece.insertInto_apart (Nat.zero_le _) something (apart.weaken (Nat.zero_le low))
  have fits := inserted.total_le (Piece.insertInto_below own bounded)
  exact Machine.Reassembler.store_eq (r := r.machine) apart something
    (fun other member => Nat.lt_of_le_of_lt (bounded other member) counted) (by omega) (by omega)

theorem machine_assemble_gap (gap : ∀ first ∈ r.pending.head?, first.start ≠ r.next) :
    r.machine.assemble = some r.machine := by
  apply loop_of_done
  unfold Machine.Reassembler.writeNext
  cases waiting : r.pending with
  | nil => simp only [machine, waiting]
  | cons first rest =>
    simp only [machine, waiting]
    rw [if_neg (gap first (by simp [waiting]))]

theorem written_le_edge (s : ByteStream) (data : Bytes) :
    (s.write data).2.totalWritten ≤ s.totalRead + s.capacity := by
  have bound := (s.write data).2.size_le
  have read := s.totalRead_write data
  have capacity := s.capacity_write data
  unfold ByteStream.capacity at capacity ⊢
  unfold ByteStream.totalWritten
  omega

/-- The loop that assembles goes on only if nothing else is next. -/
theorem machine_writeNext {first : Piece} {rest : List Piece} (waiting : r.pending = first :: rest)
    (turn : first.start = r.next) (apart : Piece.Apart r.next r.pending) (bounded : r.Bounded)
    (small : r.output.capacity ≤ sliceLimit) (counted : r.edge < wordLimit) :
    r.machine.writeNext = some (.done r.assemble.machine) ∨
      r.machine.writeNext = some (.yield r.assemble.machine) ∧
        ∀ later ∈ r.assemble.pending.head?, later.start ≠ r.assemble.next := by
  have total := written_le_edge r.output first.bytes
  have written : r.output.machine.write first.bytes = _ :=
    r.output.machine_write small (by unfold edge at counted; omega)
  have some_left := r.output.write_le first.bytes
  have own := bounded first (by simp [waiting])
  obtain ⟨_, occupied, following⟩ := waiting ▸ apart
  have order := following.le_start
  have stop_eq : r.next + first.bytes.length = first.stop := by rw [← turn, Piece.stop]
  rw [assemble_turn waiting turn]
  unfold Machine.Reassembler.writeNext
  simp only [machine, waiting, unassembled_eq_total, Piece.total_cons]
  rw [if_pos turn, written]
  generalize r.output.write first.bytes = result at *
  obtain ⟨count, output⟩ := result
  simp only [Option.bind_eq_bind, Option.bind_some]
  by_cases nothing : count = 0
  · left
    have whole : first.bytes.isEmpty = false := by
      rw [List.isEmpty_eq_false_iff, List.ne_nil_iff_length_pos]
      omega
    have same : (⟨r.next, first.bytes⟩ : Piece) = first := by rw [← turn]
    rw [if_pos nothing, nothing]
    simp only [whole, Bool.false_eq_true, if_false, List.drop_zero, Nat.add_zero, same]
    rfl
  · rw [if_neg nothing, sub_eq (by omega), Option.bind_some, add_eq (by omega), Option.bind_some]
    by_cases partly : count < first.bytes.length
    · left
      have behind : (first.bytes.drop count).isEmpty = false := by
        rw [List.isEmpty_eq_false_iff, List.ne_nil_iff_length_pos, List.length_drop]
        omega
      have placed : place ⟨r.next + count, first.bytes.drop count⟩ ([] ++ rest) = _ :=
        place_eq (by simp) fun other member => by
          have bound := order other member
          show r.next + count < other.start
          omega
      rw [if_pos partly, slice_rest (by omega), Option.bind_some]
      simp only [behind, Bool.false_eq_true, if_false, Piece.total_cons, List.length_drop]
      rw [List.nil_append] at placed
      rw [placed, Nat.sub_add_comm some_left]
      rfl
    · right
      have all : (first.bytes.drop count).isEmpty = true := by
        rw [List.isEmpty_iff, List.drop_eq_nil_iff]
        omega
      rw [if_neg partly]
      simp only [all, if_true]
      -- pieces do not touch, so that no other one can be next
      refine ⟨?_, fun later member => ?_⟩
      · rw [show first.bytes.length + Piece.total rest - count = Piece.total rest by omega]
      · have bound := order later (List.mem_of_mem_head? member)
        omega

theorem machine_assemble (apart : Piece.Apart r.next r.pending) (bounded : r.Bounded)
    (small : r.output.capacity ≤ sliceLimit) (counted : r.edge < wordLimit) :
    r.machine.assemble = some r.assemble.machine := by
  by_cases gap : ∀ first ∈ r.pending.head?, first.start ≠ r.next
  · rw [assemble_gap gap, machine_assemble_gap gap]
  · simp only [not_forall, not_not] at gap
    obtain ⟨first, head, turn⟩ := gap
    obtain ⟨rest, waiting⟩ := List.head?_eq_some_iff.mp head
    obtain wrote | ⟨wrote, gap⟩ := machine_writeNext waiting turn apart bounded small counted
    · exact loop_of_done wrote
    · exact (loop_of_yield wrote).trans (machine_assemble_gap gap)

theorem machine_absorb {data : Bytes} {index : Nat} (fits : r.Fits)
    (reached : index + data.length < wordLimit) :
    r.machine.absorb data index = some (r.absorb data index).machine := by
  obtain ⟨tidy, bounded, small, counted⟩ := fits
  have edge_eq : r.next + r.output.room = r.edge := limit_eq_edge tidy.next_eq
  have room : r.machine.output.room = some r.output.room := r.output.machine_room
  unfold Machine.Reassembler.absorb
  simp only [Option.bind_eq_bind]
  rw [room, Option.bind_some]
  show ((add r.next r.output.room).bind _) = _
  rw [add_eq (by omega), Option.bind_some, add_eq reached, Option.bind_some]
  change (if max index r.next < min (index + data.length) r.limit then
    (sub (max index r.next) index).bind fun front =>
      (sub (min (index + data.length) r.limit) index).bind fun back =>
        (slice data front back).bind fun part =>
          (r.machine.store (max index r.next) part).bind Machine.Reassembler.assemble
    else some r.machine) = _
  cases accepted : r.acceptable? data index with
  | none =>
    have nothing := acceptable?_eq_none accepted
    rw [if_neg (by omega), Reassembler.absorb, accepted]
  | some piece =>
    obtain ⟨start_eq, stop_eq, something⟩ := acceptable?_eq_some accepted
    have occupied : max index r.next < min (index + data.length) r.limit := by omega
    have within : piece.stop ≤ r.edge := by
      rw [stop_eq, ← limit_eq_edge tidy.next_eq]
      exact Nat.min_le_right _ _
    have cut : piece = ⟨max index r.next, (data.take
        (min (index + data.length) r.limit - index)).drop (max index r.next - index)⟩ := by
      unfold acceptable? at accepted
      dsimp only at accepted
      rw [if_pos occupied] at accepted
      exact (Option.some.inj accepted).symm
    have stored := machine_store tidy.apart bounded something within counted
    have assembled := machine_assemble (r := { r with pending := piece.insertInto r.pending })
      (tidy.apart_insertInto accepted) (Piece.insertInto_below within bounded) small counted
    rw [if_pos occupied, sub_eq (Nat.le_max_left _ _), Option.bind_some, sub_eq (by omega),
      Option.bind_some, slice_eq (by omega) (by omega), Option.bind_some, Reassembler.absorb,
      accepted]
    rw [cut] at stored assembled ⊢
    rw [stored, Option.bind_some, assembled]
    rfl

theorem Fits.note (fits : r.Fits) (stop : Nat) (isLast : Bool) : (r.note stop isLast).Fits where
  tidy := fits.tidy.note stop isLast
  bounded := by simpa [Bounded] using fits.bounded
  small := by simpa using fits.small
  counted := by simpa using fits.counted

theorem machine_insert {data : Bytes} {index : Nat} (fits : r.Fits)
    (reached : index + data.length < wordLimit) (isLast : Bool) :
    r.machine.insert data index isLast = some (r.insert data index isLast).machine := by
  have noted : r.machine.note data index isLast =
      some (r.note (index + data.length) isLast).machine := by
    cases isLast with
    | false => rfl
    | true =>
      show ((add index data.length).bind _) = _
      rw [add_eq reached]
      rfl
  have absorbed := machine_absorb (fits.note (index + data.length) isLast) reached
  rw [insert_stages, Machine.Reassembler.insert]
  simp only [Option.bind_eq_bind]
  rw [noted, Option.bind_some, absorbed, Option.bind_some]
  generalize (r.note (index + data.length) isLast).absorb data index = stored
  change (if stored.finalIndex = some stored.next ∧ stored.pending = [] ∧
    stored.output.inputEnded = false then _ else _) = _
  unfold finish
  by_cases complete : stored.finalIndex = some stored.next ∧ stored.pending = []
  · rw [if_pos complete]
    cases ended : stored.output.inputEnded with
    | true =>
      -- an end that was signalled is not signalled again
      have same : stored.output.endInput = stored.output := by
        unfold ByteStream.endInput
        rw [← ended]
      rw [if_neg (by simp), same]
    | false =>
      rw [if_pos ⟨complete.1, complete.2, rfl⟩]
      rfl
  · rw [if_neg complete, if_neg fun all => complete ⟨all.1, all.2.1⟩]

theorem Bounded.assemble (bounded : r.Bounded) : r.assemble.Bounded := by
  unfold Bounded
  rw [edge_assemble]
  unfold Reassembler.assemble
  split
  · exact bounded
  · rename_i first rest waiting
    unfold Bounded at bounded
    rw [waiting] at bounded
    obtain ⟨own, others⟩ := List.forall_mem_cons.mp bounded
    split
    · rename_i turn
      dsimp only
      split
      · exact others
      · refine List.forall_mem_cons.mpr ⟨?_, others⟩
        have written := r.output.write_le first.bytes
        simp only [Piece.stop, List.length_drop] at own ⊢
        omega
    · rw [waiting]
      exact bounded

theorem Bounded.insert (bounded : r.Bounded) (tidy : r.Tidy) (data : Bytes) (index : Nat)
    (isLast : Bool) : (r.insert data index isLast).Bounded := by
  have noted : (r.note (index + data.length) isLast).Bounded := by simpa [Bounded] using bounded
  rw [insert_stages]
  unfold Bounded
  rw [finish_pending, edge_finish]
  change ((r.note (index + data.length) isLast).absorb data index).Bounded
  unfold absorb
  cases accepted : (r.note (index + data.length) isLast).acceptable? data index with
  | none => exact noted
  | some piece =>
    obtain ⟨_, stop_eq, _⟩ := acceptable?_eq_some accepted
    have within : piece.stop ≤ (r.note (index + data.length) isLast).edge := by
      rw [stop_eq, ← limit_eq_edge (tidy.note _ _).next_eq]
      exact Nat.min_le_right _ _
    exact Bounded.assemble (Piece.insertInto_below within noted)

theorem Bounded.pop (bounded : r.Bounded) (count : Nat) :
    ({ r with output := r.output.pop count } : Reassembler).Bounded := by
  intro piece member
  have before := bounded piece member
  unfold edge at before ⊢
  rw [ByteStream.totalRead_pop, ByteStream.capacity_pop]
  omega

theorem rested_insert (rested : r.output.Rested) (data : Bytes) (index : Nat) (isLast : Bool) :
    (r.insert data index isLast).output.Rested :=
  output_insert ByteStream.Rested (fun _ data before => before.write data) (fun _ before => before)
    rested data index isLast

end Reassembler

end NetStack
