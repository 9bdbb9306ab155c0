import NetStack.Proofs.Machine.Stream

namespace NetStack

structure ByteStream.Gauges where
  capacity : Nat
  size : Nat
  room : Nat
  totalWritten : Nat
  totalRead : Nat
  isEmpty : Bool
  inputEnded : Bool
  atEnd : Bool
  failed : Bool
  deriving DecidableEq

/-- A plain list of bytes that wait, and what was taken from its front before. -/
structure Queue where
  capacity : Nat
  taken : Bytes := []
  waiting : Bytes := []
  inputEnded : Bool := false
  failed : Bool := false

namespace Queue

open ByteStream (Op Reply Gauges)

variable (q : Queue)

def room : Nat := q.capacity - q.waiting.length

def accepts (count : Nat) : Nat := if q.inputEnded then 0 else min count q.room

def write (data : Bytes) : Queue :=
  { q with waiting := q.waiting ++ data.take (q.accepts data.length) }

def take (count : Nat) : Queue :=
  { q with taken := q.taken ++ q.waiting.take count, waiting := q.waiting.drop count }

/-- The front of the queue over the start of a buffer, and behind it the rest of the buffer. -/
def fill (buffer : Bytes) : Reply :=
  let count := min buffer.length q.waiting.length
  .filled count (q.waiting.take count ++ buffer.drop count)

def step : Op → Reply × Queue
  | .write data => (.count (q.accepts data.length), q.write data)
  | .peek count => (.bytes (q.waiting.take count), q)
  | .read count => (.bytes (q.waiting.take count), q.take count)
  | .peekInto buffer => (q.fill buffer, q)
  | .readInto buffer => (q.fill buffer, q.take buffer.length)
  | .pop count => (.count (min count q.waiting.length), q.take count)
  | .endInput => (.done, { q with inputEnded := true })
  | .fail => (.done, { q with failed := true })

def run (ops : List Op) : Queue := ops.foldl (fun current op => (current.step op).2) q

def replies (q : Queue) : List Op → List Reply
  | [] => []
  | op :: rest => (q.step op).1 :: (q.step op).2.replies rest

def gauges : Gauges where
  capacity := q.capacity
  size := q.waiting.length
  room := q.room
  totalWritten := (q.taken ++ q.waiting).length
  totalRead := q.taken.length
  isEmpty := q.waiting.isEmpty
  inputEnded := q.inputEnded
  atEnd := q.inputEnded && q.waiting.isEmpty
  failed := q.failed

end Queue

namespace ByteStream

variable {s : ByteStream} {q : Queue}

def gauges (s : ByteStream) : Gauges where
  capacity := s.capacity
  size := s.size
  room := s.room
  totalWritten := s.totalWritten
  totalRead := s.totalRead
  isEmpty := s.isEmpty
  inputEnded := s.inputEnded
  atEnd := s.atEnd
  failed := s.failed

def replies (s : ByteStream) : List Op → List Reply
  | [] => []
  | op :: rest => (s.step op).1 :: (s.step op).2.replies rest

/-- The stream holds what the queue does, and as much has gone through it. -/
structure Mirrors (s : ByteStream) (q : Queue) : Prop where
  capacity : s.capacity = q.capacity
  waiting : s.toList = q.waiting
  taken : s.totalRead = q.taken.length
  inputEnded : s.inputEnded = q.inputEnded
  failed : s.failed = q.failed

theorem ofStorage_mirrors (storage : Array UInt8) :
    (ofStorage storage).Mirrors { capacity := storage.size } :=
  ⟨rfl, rfl, rfl, rfl, rfl⟩

theorem Mirrors.size (mirrors : s.Mirrors q) : s.size = q.waiting.length := by
  rw [← mirrors.waiting, toList_length]

theorem Mirrors.room (mirrors : s.Mirrors q) : s.room = q.room := by
  rw [ByteStream.room, Queue.room, mirrors.capacity, mirrors.size]

theorem Mirrors.isEmpty (mirrors : s.Mirrors q) : s.isEmpty = q.waiting.isEmpty := by
  rw [ByteStream.isEmpty, mirrors.size]
  cases q.waiting <;> rfl

theorem Mirrors.gauges (mirrors : s.Mirrors q) : s.gauges = q.gauges := by
  unfold ByteStream.gauges Queue.gauges totalWritten ByteStream.atEnd
  rw [mirrors.capacity, mirrors.room, mirrors.isEmpty, mirrors.size, mirrors.taken,
    mirrors.inputEnded, mirrors.failed, List.length_append]

theorem Mirrors.write (mirrors : s.Mirrors q) (data : Bytes) :
    (s.write data).1 = q.accepts data.length ∧ (s.write data).2.Mirrors (q.write data) := by
  have count : (s.write data).1 = q.accepts data.length := by
    unfold ByteStream.write Queue.accepts
    rw [mirrors.inputEnded, mirrors.room]
    split <;> rfl
  have waiting : (s.write data).2.toList = (q.write data).waiting := by
    rw [toList_write, count, mirrors.waiting]
    rfl
  exact ⟨count, (s.capacity_write data).trans mirrors.capacity, waiting,
    (s.totalRead_write data).trans mirrors.taken,
    (s.inputEnded_write data).trans mirrors.inputEnded,
    (s.failed_write data).trans mirrors.failed⟩

theorem Mirrors.pop (mirrors : s.Mirrors q) (count : Nat) :
    (s.pop count).Mirrors (q.take count) where
  capacity := mirrors.capacity
  waiting := by
    rw [toList_pop, mirrors.waiting]
    rfl
  taken := by
    rw [totalRead_pop, mirrors.taken, mirrors.waiting, Queue.take, List.length_append]
  inputEnded := mirrors.inputEnded
  failed := mirrors.failed

theorem Mirrors.peekInto (mirrors : s.Mirrors q) (buffer : Bytes) :
    Reply.filled (s.peekInto buffer).1 (s.peekInto buffer).2 = q.fill buffer := by
  unfold ByteStream.peekInto Queue.fill
  dsimp only
  rw [length_peek, mirrors.size, peek_eq, mirrors.waiting, List.take_eq_take_min]

theorem pop_peekInto (s : ByteStream) (buffer : Bytes) :
    s.pop (s.peekInto buffer).1 = s.pop buffer.length := by
  rw [ByteStream.peekInto, length_peek, pop_min]

theorem Mirrors.step (mirrors : s.Mirrors q) (op : Op) :
    (s.step op).1 = (q.step op).1 ∧ (s.step op).2.Mirrors (q.step op).2 := by
  have front (count : Nat) : s.peek count = q.waiting.take count := by
    rw [peek_eq, mirrors.waiting]
  cases op with
  | write data =>
    obtain ⟨count, written⟩ := mirrors.write data
    exact ⟨congrArg Reply.count count, written⟩
  | peek count => exact ⟨congrArg Reply.bytes (front count), mirrors⟩
  | read count => exact ⟨congrArg Reply.bytes (front count), mirrors.pop count⟩
  | peekInto buffer => exact ⟨mirrors.peekInto buffer, mirrors⟩
  | readInto buffer =>
    refine ⟨mirrors.peekInto buffer, ?_⟩
    show (s.pop (s.peekInto buffer).1).Mirrors _
    rw [s.pop_peekInto buffer]
    exact mirrors.pop buffer.length
  | pop count =>
    refine ⟨?_, mirrors.pop count⟩
    show Reply.count (min count s.size) = _
    rw [mirrors.size]
    rfl
  | endInput => exact ⟨rfl, mirrors.capacity, mirrors.waiting, mirrors.taken, rfl, mirrors.failed⟩
  | fail => exact ⟨rfl, mirrors.capacity, mirrors.waiting, mirrors.taken, mirrors.inputEnded, rfl⟩

theorem Mirrors.run (mirrors : s.Mirrors q) (ops : List Op) :
    s.replies ops = q.replies ops ∧ (s.run ops).Mirrors (q.run ops) := by
  induction ops generalizing s q with
  | nil => exact ⟨rfl, mirrors⟩
  | cons op rest ih =>
    obtain ⟨reply, next⟩ := mirrors.step op
    obtain ⟨replies, last⟩ := ih next
    refine ⟨?_, last⟩
    rw [ByteStream.replies, Queue.replies, reply, replies]

end ByteStream

namespace Machine.Stream

open ByteStream (Op Reply Gauges)

variable (s : Stream)

def peek (count : Nat) : Option Bytes := do
  let (_, data) ← s.peekSlice (List.replicate (min count s.length) 0)
  some data

def step : Op → Option (Reply × Stream)
  | .write data => do
    let (written, next) ← s.write data
    some (.count written, next)
  | .peek count => do some (.bytes (← s.peek count), s)
  | .read count => do
    let (data, next) ← s.read count
    some (.bytes data, next)
  | .peekInto buffer => do
    let (copied, filled) ← s.peekSlice buffer
    some (.filled copied filled, s)
  | .readInto buffer => do
    let (popped, filled, next) ← s.readSlice buffer
    some (.filled popped filled, next)
  | .pop count => do
    let (popped, next) ← s.pop count
    some (.count popped, next)
  | .endInput => some (.done, s.endInput)
  | .fail => some (.done, s.fail)

def run (s : Stream) : List Op → Option (List Reply × Stream)
  | [] => some ([], s)
  | op :: rest => do
    let (reply, next) ← s.step op
    let (replies, last) ← run next rest
    some (reply :: replies, last)

def gauges : Option Gauges := do
  some {
    capacity := s.storage.length
    size := s.length
    room := ← s.room
    totalWritten := s.totalWritten
    totalRead := s.totalRead
    isEmpty := s.length == 0
    inputEnded := s.inputEnded
    atEnd := s.atEnd
    failed := s.failed }

end Machine.Stream

namespace ByteStream

open Machine

variable {s : ByteStream}

theorem machine_peek (small : s.capacity ≤ sliceLimit) (count : Nat) :
    s.machine.peek count = some (s.peek count) := by
  have size : s.machine.length = s.size := rfl
  have fitting : s.peek (min count s.size) = s.peek count := by
    unfold peek
    rw [Nat.min_assoc, Nat.min_self]
  unfold Machine.Stream.peek
  rw [size, machine_peekSlice small]
  simp [peekInto, fitting, length_peek]

theorem machine_gauges (s : ByteStream) : s.machine.gauges = some s.gauges := by
  unfold Machine.Stream.gauges
  rw [machine_room]
  simp [machine, ByteStream.gauges, isEmpty, ByteStream.atEnd, Machine.Stream.atEnd, capacity]

theorem totalWritten_le_run (s : ByteStream) (ops : List Op) :
    s.totalWritten ≤ (s.run ops).totalWritten := by
  induction ops generalizing s with
  | nil => exact Nat.le_refl _
  | cons op rest ih => exact Nat.le_trans (s.totalWritten_le_step op) (ih _)

theorem capacity_run (s : ByteStream) (ops : List Op) : (s.run ops).capacity = s.capacity := by
  induction ops generalizing s with
  | nil => rfl
  | cons op rest ih => exact (ih _).trans (s.capacity_step op)

theorem Rested.step (rested : s.Rested) (op : Op) : (s.step op).2.Rested := by
  cases op with
  | write data => exact rested.write data
  | read count | readInto buffer | pop count => exact s.rested_pop _
  | peek | peekInto | endInput | fail => exact rested

theorem machine_step (op : Op) (small : s.capacity ≤ sliceLimit) (rested : s.Rested)
    (counted : (s.step op).2.totalWritten < wordLimit) :
    s.machine.step op = some ((s.step op).1, (s.step op).2.machine) := by
  have before := Nat.lt_of_le_of_lt (s.totalWritten_le_step op) counted
  cases op with
  | write data =>
    show ((s.machine.write data).bind _) = _
    rw [machine_write small counted]
    rfl
  | peek count =>
    show ((s.machine.peek count).bind _) = _
    rw [machine_peek small]
    rfl
  | read count =>
    show ((s.machine.read count).bind _) = _
    rw [machine_read small before fun _ => rested]
    rfl
  | peekInto buffer =>
    show ((s.machine.peekSlice buffer).bind _) = _
    rw [machine_peekSlice small]
    rfl
  | readInto buffer =>
    show ((s.machine.readSlice buffer).bind _) = _
    rw [machine_readSlice small before fun _ => rested, ← s.pop_peekInto buffer]
    rfl
  | pop count =>
    show ((s.machine.pop count).bind _) = _
    rw [machine_pop small before fun _ => rested]
    rfl
  | endInput | fail => rfl

theorem machine_run {ops : List Op} (small : s.capacity ≤ sliceLimit) (rested : s.Rested)
    (counted : (s.run ops).totalWritten < wordLimit) :
    s.machine.run ops = some (s.replies ops, (s.run ops).machine) := by
  induction ops generalizing s with
  | nil => rfl
  | cons op rest ih =>
    have now := Nat.lt_of_le_of_lt ((s.step op).2.totalWritten_le_run rest) counted
    have later := ih (Nat.le_trans (Nat.le_of_eq (s.capacity_step op)) small) (rested.step op)
      counted
    unfold Machine.Stream.run
    rw [machine_step op small rested now]
    simp only [Option.bind_eq_bind, Option.bind_some, later]
    rfl

/-- A stream over any storage answers every sequence of operations as a plain list of bytes of that
    capacity does, and all that can be asked of it is what the list and its history tell; there are
    never more bytes in it than fit. On a machine the two slices of the ring do the same without a
    fault, until more is written than can be counted. -/
theorem behaves_as_queue (storage : Array UInt8) (ops : List Op) :
    let last := (ofStorage storage).run ops
    let list : Queue := { capacity := storage.size }
    let told := (list.run ops).gauges
    (ofStorage storage).replies ops = list.replies ops ∧ last.gauges = told ∧
      last.toList = (list.run ops).waiting ∧
      told.totalWritten - told.totalRead = told.size ∧ told.size ≤ storage.size ∧
      (storage.size ≤ sliceLimit → told.totalWritten < wordLimit →
        ∃ final, (Machine.Stream.ofStorage storage.toList).run ops =
            some (list.replies ops, final) ∧ final.gauges = some told) := by
  intro last list told
  obtain ⟨replies, mirrors⟩ := (ofStorage_mirrors storage).run ops
  have gauges : last.gauges = told := mirrors.gauges
  have capacity : last.capacity = storage.size := (ofStorage storage).capacity_run ops
  refine ⟨replies, gauges, mirrors.waiting, ?_, ?_, ?_⟩
  · rw [← gauges]
    exact Nat.add_sub_cancel_left last.totalRead last.size
  · rw [← gauges, ← capacity]
    exact last.size_le
  · intro small counted
    have counted : last.totalWritten < wordLimit := by
      rw [← gauges] at counted
      exact counted
    have ran : (ofStorage storage).machine.run ops =
        some ((ofStorage storage).replies ops, last.machine) :=
      machine_run small (rested_ofStorage storage) counted
    refine ⟨last.machine, ?_, ?_⟩
    · rw [← replies]
      exact ran
    · rw [machine_gauges, gauges]

theorem behaves_as_queue_wrapping : ∃ final,
    (Machine.Stream.ofStorage [9, 9, 9]).run
        [.write [1, 2], .pop 1, .write [3, 4, 5], .peek 2, .readInto [7, 7, 7, 7], .endInput,
          .write [6]] =
      some ([.count 2, .count 1, .count 2, .bytes [2, 3], .filled 3 [2, 3, 4, 7], .done, .count 0],
        final) ∧
      final.gauges = some ⟨3, 0, 3, 4, 4, true, true, true, false⟩ := by
  have queue := behaves_as_queue #[9, 9, 9]
    [.write [1, 2], .pop 1, .write [3, 4, 5], .peek 2, .readInto [7, 7, 7, 7], .endInput,
      .write [6]]
  exact queue.2.2.2.2.2 (by decide) (by decide)

end ByteStream

end NetStack
