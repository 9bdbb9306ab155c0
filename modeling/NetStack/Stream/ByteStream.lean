import NetStack.Bytes

namespace NetStack

/-- A stream over a fixed storage. The bytes that wait start at `readAt` and go round its end. -/
structure ByteStream where
  storage : Array UInt8
  readAt : Nat
  size : Nat
  totalRead : Nat
  inputEnded : Bool
  failed : Bool
  size_le : size ≤ storage.size
  readAt_lt : readAt < storage.size ∨ readAt = 0
  deriving DecidableEq

namespace ByteStream

def ofStorage (storage : Array UInt8) : ByteStream where
  storage := storage
  readAt := 0
  size := 0
  totalRead := 0
  inputEnded := false
  failed := false
  size_le := Nat.zero_le _
  readAt_lt := .inr rfl

def empty (capacity : Nat) : ByteStream := ofStorage (Array.replicate capacity 0)

def capacity (stream : ByteStream) : Nat := stream.storage.size

def room (stream : ByteStream) : Nat := stream.capacity - stream.size

def isEmpty (stream : ByteStream) : Bool := stream.size == 0

def totalWritten (stream : ByteStream) : Nat := stream.totalRead + stream.size

def atEnd (stream : ByteStream) : Bool := stream.inputEnded && stream.isEmpty

/-- Where in the storage the byte stands that is `offset` bytes behind the oldest one. -/
def slot (stream : ByteStream) (offset : Nat) : Nat :=
  if stream.readAt + offset < stream.storage.size then stream.readAt + offset
  else stream.readAt + offset - stream.storage.size

theorem slot_lt (stream : ByteStream) {offset : Nat} (inside : offset < stream.storage.size) :
    stream.slot offset < stream.storage.size := by
  have start := stream.readAt_lt
  unfold slot
  split <;> omega

theorem slot_injective (stream : ByteStream) {i j : Nat} (hi : i < stream.storage.size)
    (hj : j < stream.storage.size) (same : stream.slot i = stream.slot j) : i = j := by
  unfold slot at same
  split at same <;> split at same <;> omega

def octetAt (stream : ByteStream) (offset : Nat) : UInt8 :=
  stream.storage.getD (stream.slot offset) 0

def toList (stream : ByteStream) : Bytes := (List.range stream.size).map stream.octetAt

def push (stream : ByteStream) (octet : UInt8) (free : stream.size < stream.storage.size) :
    ByteStream :=
  { stream with
    storage := stream.storage.set (stream.slot stream.size) octet (stream.slot_lt free)
    size := stream.size + 1
    size_le := by simpa using Nat.succ_le_of_lt free
    readAt_lt := by simpa using stream.readAt_lt }

def append (stream : ByteStream) : Bytes → ByteStream
  | [] => stream
  | octet :: rest =>
    if free : stream.size < stream.storage.size then (stream.push octet free).append rest
    else stream

/-- Write as many bytes as fit, and say how many that are. Nothing is written after the end. -/
def write (stream : ByteStream) (data : Bytes) : Nat × ByteStream :=
  if stream.inputEnded then (0, stream) else (min data.length stream.room, stream.append data)

def peek (stream : ByteStream) (count : Nat) : Bytes :=
  (List.range (min count stream.size)).map stream.octetAt

def available (stream : ByteStream) (count : Nat) : Nat := min count stream.size

/-- Drop up to `count` bytes from the front. An emptied stream starts again at the beginning of its
    storage. -/
def pop (stream : ByteStream) (count : Nat) : ByteStream :=
  let dropped := stream.available count
  { stream with
    readAt := if dropped = stream.size then 0 else stream.slot dropped
    size := stream.size - dropped
    totalRead := stream.totalRead + dropped
    size_le := Nat.le_trans (Nat.sub_le _ _) stream.size_le
    readAt_lt := by
      have bound := stream.size_le
      have dropped_le : dropped ≤ stream.size := Nat.min_le_right _ _
      split
      · exact .inr rfl
      · exact .inl (stream.slot_lt (by omega)) }

def read (stream : ByteStream) (count : Nat) : Bytes × ByteStream :=
  (stream.peek count, stream.pop count)

def peekInto (stream : ByteStream) (buffer : Bytes) : Nat × Bytes :=
  let front := stream.peek buffer.length
  (front.length, front ++ buffer.drop front.length)

def endInput (stream : ByteStream) : ByteStream := { stream with inputEnded := true }

def fail (stream : ByteStream) : ByteStream := { stream with failed := true }

@[simp] theorem toList_ofStorage (storage : Array UInt8) : (ofStorage storage).toList = [] := rfl

@[simp] theorem toList_empty (capacity : Nat) : (empty capacity).toList = [] := rfl

@[simp] theorem toList_length (stream : ByteStream) : stream.toList.length = stream.size := by
  simp [toList]

@[simp] theorem toList_endInput (stream : ByteStream) :
    stream.endInput.toList = stream.toList := rfl

@[simp] theorem toList_fail (stream : ByteStream) : stream.fail.toList = stream.toList := rfl

theorem push_octetAt_of_lt (stream : ByteStream) (octet : UInt8)
    (free : stream.size < stream.storage.size) {i : Nat} (inside : i < stream.size) :
    (stream.push octet free).octetAt i = stream.octetAt i := by
  have kept : (stream.push octet free).slot i = stream.slot i := by simp [slot, push]
  have distinct : stream.slot stream.size ≠ stream.slot i := fun same =>
    absurd (stream.slot_injective free (Nat.lt_trans inside free) same) (by omega)
  unfold octetAt
  rw [kept]
  simp [push, distinct]

theorem push_octetAt_size (stream : ByteStream) (octet : UInt8)
    (free : stream.size < stream.storage.size) :
    (stream.push octet free).octetAt stream.size = octet := by
  have kept : (stream.push octet free).slot stream.size = stream.slot stream.size := by
    simp [slot, push]
  unfold octetAt
  rw [kept]
  simp [push]

@[simp] theorem toList_push (stream : ByteStream) (octet : UInt8)
    (free : stream.size < stream.storage.size) :
    (stream.push octet free).toList = stream.toList ++ [octet] := by
  have size : (stream.push octet free).size = stream.size + 1 := rfl
  rw [toList, size, List.range_succ, List.map_append, List.map_singleton, push_octetAt_size, toList]
  congr 1
  apply List.map_congr_left
  intro i member
  exact stream.push_octetAt_of_lt octet free (List.mem_range.mp member)

@[simp] theorem capacity_push (stream : ByteStream) (octet : UInt8)
    (free : stream.size < stream.storage.size) :
    (stream.push octet free).capacity = stream.capacity := by simp [push, capacity]

theorem toList_append (stream : ByteStream) (data : Bytes) :
    (stream.append data).toList = stream.toList ++ data.take stream.room := by
  induction data generalizing stream with
  | nil => simp [append]
  | cons octet rest ih =>
    unfold append
    split
    · rename_i free
      have room : stream.room = (stream.push octet free).room + 1 := by
        have size : (stream.push octet free).size = stream.size + 1 := rfl
        rw [ByteStream.room, ByteStream.room, capacity_push, size, capacity]
        omega
      rw [ih, toList_push, room, List.take_succ_cons, List.append_assoc, List.singleton_append]
    · have room : stream.room = 0 := by simp only [ByteStream.room, capacity]; omega
      simp [room]

theorem peek_eq (stream : ByteStream) (count : Nat) :
    stream.peek count = stream.toList.take count := by
  rw [peek, toList, ← List.map_take, List.take_range]

theorem pop_slot (stream : ByteStream) {count i : Nat} (some_left : count < stream.size)
    (inside : i < stream.size - count) :
    (stream.pop count).slot i = stream.slot (count + i) := by
  have bound := stream.size_le
  have start := stream.readAt_lt
  have dropped : stream.available count = count := by unfold available; omega
  have distinct : count ≠ stream.size := by omega
  simp only [slot, pop, dropped, distinct, if_false]
  split <;> split <;> split <;> omega

@[simp] theorem toList_pop (stream : ByteStream) (count : Nat) :
    (stream.pop count).toList = stream.toList.drop count := by
  by_cases all : stream.size ≤ count
  · have size : (stream.pop count).size = 0 := by simp only [pop, available]; omega
    have none_left : stream.toList.drop count = [] := List.drop_eq_nil_of_le (by simpa using all)
    rw [none_left, toList, size]
    rfl
  · have size : (stream.pop count).size = stream.size - count := by
      simp only [pop, available]
      omega
    apply List.ext_getElem
    · simp [size]
    · intro i left right
      have inside : i < stream.size - count := by simpa [size] using left
      have slot := stream.pop_slot (by omega) inside
      simp only [toList, List.getElem_map, List.getElem_range, List.getElem_drop, octetAt, slot]
      rfl

end ByteStream

end NetStack
