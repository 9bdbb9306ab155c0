import NetStack.Proofs.Machine.Word
import NetStack.Proofs.Stream.Contents

namespace NetStack

namespace Machine

structure Stream where
  storage : Bytes
  readAt : Nat
  length : Nat
  totalWritten : Nat
  totalRead : Nat
  inputEnded : Bool
  failed : Bool

namespace Stream

def ofStorage (storage : Bytes) : Stream := ⟨storage, 0, 0, 0, 0, false, false⟩

def room (s : Stream) : Option Nat := sub s.storage.length s.length

def atEnd (s : Stream) : Bool := s.inputEnded && s.length == 0

def write (s : Stream) (data : Bytes) : Option (Nat × Stream) :=
  if s.inputEnded then some (0, s)
  else do
    let size := min data.length (← s.room)
    if size = 0 then some (0, s)
    else do
      let writeAt ← rem (← add s.readAt s.length) s.storage.length
      let first := min size (← sub s.storage.length writeAt)
      let storage ← copy s.storage writeAt (← add writeAt first) (← slice data 0 first)
      let storage ← copy storage 0 (← sub size first) (← slice data first size)
      let length ← add s.length size
      let totalWritten ← add s.totalWritten size
      some (size, { s with storage, length, totalWritten })

def peekSlice (s : Stream) (buffer : Bytes) : Option (Nat × Bytes) :=
  let size := min buffer.length s.length
  if size = 0 then some (0, buffer)
  else do
    let first := min size (← sub s.storage.length s.readAt)
    let buffer ← copy buffer 0 first (← slice s.storage s.readAt (← add s.readAt first))
    let buffer ← copy buffer first size (← slice s.storage 0 (← sub size first))
    some (size, buffer)

def pop (s : Stream) (count : Nat) : Option (Nat × Stream) :=
  let size := min count s.length
  if size = 0 then some (0, s)
  else do
    let readAt ← rem (← add s.readAt size) s.storage.length
    let length ← sub s.length size
    let totalRead ← add s.totalRead size
    some (size, { s with readAt := if length = 0 then 0 else readAt, length, totalRead })

def readSlice (s : Stream) (buffer : Bytes) : Option (Nat × Bytes × Stream) := do
  let (size, filled) ← s.peekSlice buffer
  let (popped, s) ← s.pop size
  some (popped, filled, s)

def read (s : Stream) (count : Nat) : Option (Bytes × Stream) := do
  let (_, data, s) ← s.readSlice (List.replicate (min count s.length) 0)
  some (data, s)

def endInput (s : Stream) : Stream := { s with inputEnded := true }

def fail (s : Stream) : Stream := { s with failed := true }

end Stream

end Machine

namespace ByteStream

open Machine

def machine (s : ByteStream) : Machine.Stream where
  storage := s.storage.toList
  readAt := s.readAt
  length := s.size
  totalWritten := s.totalWritten
  totalRead := s.totalRead
  inputEnded := s.inputEnded
  failed := s.failed

variable {s : ByteStream} {data buffer : Bytes} {count : Nat}

theorem length_peek (s : ByteStream) (count : Nat) : (s.peek count).length = min count s.size := by
  rw [peek, List.length_map, List.length_range]

theorem peek_slices (size : Nat) {first : Nat} (inside : size ≤ s.size)
    (first_eq : first = min size (s.capacity - s.readAt)) :
    s.peek size = (s.storage.toList.take (s.readAt + first)).drop s.readAt ++
      s.storage.toList.take (size - first) := by
  have bound := s.size_le
  have start := s.readAt_lt
  have capacity : s.capacity = s.storage.size := rfl
  apply List.ext_getElem
  · simp only [peek, List.length_map, List.length_range, List.length_append, List.length_drop,
      List.length_take, Array.length_toList]
    omega
  · intro i left right
    have within : i < size := by simp [peek] at left; omega
    simp only [peek, List.getElem_map, List.getElem_range, octetAt, slot]
    by_cases early : i < first
    · rw [List.getElem_append_left (by simp; omega), if_pos (by omega)]
      simp only [List.getElem_drop, List.getElem_take, Array.getElem_toList]
      rw [Array.getD_eq_getD_getElem?, Array.getElem?_eq_getElem (by omega), Option.getD_some]
    · rw [List.getElem_append_right (by simp; omega), if_neg (by omega)]
      simp only [List.length_drop, List.length_take, List.getElem_take, Array.getElem_toList,
        Array.length_toList]
      rw [Array.getD_eq_getD_getElem?, Array.getElem?_eq_getElem (by omega), Option.getD_some]
      congr 1
      omega

theorem push_slot (octet : UInt8) (free : s.size < s.storage.size) :
    (s.push octet free).slot (s.push octet free).size =
      if s.slot s.size + 1 < s.capacity then s.slot s.size + 1 else 0 := by
  have start := s.readAt_lt
  have capacity : s.capacity = s.storage.size := rfl
  simp only [slot, push, Array.size_set]
  split <;> split <;> split <;> omega

theorem append_take (s : ByteStream) (data : Bytes) :
    s.append data = s.append (data.take s.room) := by
  induction data generalizing s with
  | nil => rw [List.take_nil]
  | cons octet rest ih =>
    by_cases free : s.size < s.storage.size
    · have room : s.room = (s.push octet free).room + 1 := by
        have size : (s.push octet free).size = s.size + 1 := rfl
        rw [ByteStream.room, ByteStream.room, capacity_push, size, capacity]
        omega
      rw [room, List.take_succ_cons, append, append, dif_pos free, dif_pos free, ih]
    · have room : s.room = 0 := by
        rw [ByteStream.room, capacity]
        omega
      rw [room, append, dif_neg free]
      rfl

/-- What fits is stored in two slices: up to the end of the storage, and from its beginning on. -/
theorem storage_append (s : ByteStream) (data : Bytes) (first : Nat) (fits : data.length ≤ s.room)
    (first_eq : first = min data.length (s.capacity - s.slot s.size)) :
    (s.append data).storage.toList =
      splice (splice s.storage.toList (s.slot s.size) (data.take first)) 0 (data.drop first) := by
  induction data generalizing s first with
  | nil =>
    rw [List.take_nil, List.drop_nil, splice_nil, splice_nil]
    rfl
  | cons octet rest ih =>
    rw [List.length_cons] at fits first_eq
    have free : s.size < s.storage.size := by
      rw [ByteStream.room, capacity] at fits
      omega
    have inside : s.slot s.size < s.storage.toList.length := by
      rw [Array.length_toList]
      exact s.slot_lt free
    have stored : (s.push octet free).storage.toList = s.storage.toList.set (s.slot s.size) octet :=
      Array.toList_set _ _ _ (s.slot_lt free)
    have size : (s.push octet free).size = s.size + 1 := rfl
    have room : rest.length ≤ (s.push octet free).room := by
      rw [ByteStream.room] at fits ⊢
      rw [capacity_push, size]
      omega
    have place := s.push_slot octet free
    rw [append, dif_pos free, ih (s.push octet free) _ room rfl, stored, capacity_push, place]
    rw [Array.length_toList] at inside
    unfold capacity at first_eq place ⊢
    by_cases further : s.slot s.size + 1 < s.storage.size
    · have grown : first = min rest.length (s.storage.size - (s.slot s.size + 1)) + 1 := by omega
      rw [if_pos further, grown, List.take_succ_cons, List.drop_succ_cons,
        splice_cons octet _ (by rw [Array.length_toList]; exact inside)]
    · -- the storage is full up to its end, and all the rest goes to its beginning
      have alone : first = 1 := by omega
      have whole : rest.length ≤ s.storage.size - 0 := by
        rw [ByteStream.room, capacity] at fits
        omega
      rw [if_neg further, alone, Nat.min_eq_left whole, List.take_length, List.drop_length,
        splice_nil, List.take_succ_cons, List.take_zero, List.drop_succ_cons, List.drop_zero,
        splice_cons octet _ (by rw [Array.length_toList]; exact inside), splice_nil]

theorem slot_eq_mod {offset : Nat} (inside : offset < s.capacity) :
    (s.readAt + offset) % s.capacity = s.slot offset := by
  have start := s.readAt_lt
  unfold slot capacity at *
  split
  · rename_i inside
    exact Nat.mod_eq_of_lt inside
  · rw [Nat.mod_eq_sub_mod (by omega), Nat.mod_eq_of_lt (by omega)]

theorem append_readAt (s : ByteStream) (data : Bytes) : (s.append data).readAt = s.readAt := by
  induction data generalizing s with
  | nil => rfl
  | cons octet rest ih =>
    unfold append
    split
    · rw [ih]
      rfl
    · rfl

theorem machine_append (s : ByteStream) (data : Bytes) (fits : data.length ≤ s.room) :
    (s.append data).machine =
    { s.machine with
      storage := (s.append data).storage.toList
      length := s.size + data.length
      totalWritten := s.totalWritten + data.length } := by
  have size : (s.append data).size = s.size + data.length := by
    rw [← toList_length, toList_append, List.length_append, toList_length,
      List.take_of_length_le fits]
  obtain ⟨read, ended, failed⟩ := s.append_keeps data
  unfold machine totalWritten
  rw [size, read, ended, failed, append_readAt, Nat.add_assoc]

theorem machine_room (s : ByteStream) : s.machine.room = some s.room := by
  have bound := s.size_le
  unfold Machine.Stream.room
  rw [sub_eq (by simpa [machine] using bound)]
  simp [machine, ByteStream.room, capacity]

theorem write_eq (unended : s.inputEnded = false) (data : Bytes) : s.write data =
    (min data.length s.room, s.append (data.take (min data.length s.room))) := by
  rw [write, if_neg (by simp [unended]), append_take]
  congr 2
  rw [Nat.min_comm, ← List.take_take, List.take_length]

theorem machine_write (small : s.capacity ≤ sliceLimit)
    (counted : (s.write data).2.totalWritten < wordLimit) :
    s.machine.write data = some ((s.write data).1, (s.write data).2.machine) := by
  cases ended : s.inputEnded with
  | true =>
    rw [write_of_ended ended]
    exact if_pos ended
  | false =>
    have unended : ¬ s.machine.inputEnded = true := by simp [machine, ended]
    rw [totalWritten_write] at counted
    rw [write_eq ended] at counted ⊢
    rw [Machine.Stream.write, if_neg unended, machine_room]
    simp only [Option.bind_eq_bind, Option.bind_some]
    dsimp only at counted
    generalize size_eq : min data.length s.room = size at *
    by_cases nothing : size = 0
    · rw [if_pos nothing, nothing, List.take_zero]
      rfl
    · have room : s.room = s.capacity - s.size := rfl
      have start : s.readAt < s.capacity ∨ s.readAt = 0 := s.readAt_lt
      have length : s.storage.toList.length = s.capacity := Array.length_toList
      have place : s.slot s.size < s.capacity := s.slot_lt (by unfold capacity at *; omega)
      have taken : (data.take size).length = size := by
        rw [List.length_take]
        omega
      generalize first_eq : min size (s.capacity - s.slot s.size) = first
      have stored := s.storage_append (data.take size) first (by omega) (by omega)
      have appended := s.machine_append (data.take size) (by omega)
      rw [taken] at appended
      have front : (data.take size).take first = data.take first := by
        rw [List.take_take, Nat.min_eq_left (by omega)]
      have front_length : (data.take first).length = first := by
        rw [List.length_take]
        omega
      have back_length : ((data.take size).drop first).length = size - first := by
        rw [List.length_drop, taken]
      have inside : s.slot s.size + (data.take first).length ≤ s.storage.toList.length := by omega
      rw [if_neg nothing, appended, stored, front]
      simp only [machine]
      rw [length, add_sizes (by omega) (by omega), Option.bind_some, rem_eq (by omega),
        s.slot_eq_mod (by omega), Option.bind_some, sub_eq (by omega), Option.bind_some, first_eq,
        add_sizes (by omega) (by omega), Option.bind_some, slice_eq (Nat.zero_le _) (by omega),
        List.drop_zero, Option.bind_some, copy_eq (by omega) (by omega), Option.bind_some,
        sub_eq (by omega), Option.bind_some, slice_eq (by omega) (by omega), Option.bind_some,
        copy_eq (by omega) (by rw [splice_length inside]; omega), Option.bind_some,
        add_sizes (by omega) (by omega), Option.bind_some, add_eq counted, Option.bind_some]

theorem splice_splice {left right : Bytes} {first size : Nat} (left_length : left.length = first)
    (right_length : right.length = size - first) (order : first ≤ size) :
    splice (splice buffer 0 left) first right = left ++ right ++ buffer.drop size := by
  subst left_length
  have front : splice buffer 0 left = left ++ buffer.drop left.length := by
    rw [splice, List.take_zero, List.nil_append, Nat.zero_add]
  have stop : left.length + right.length = size := by omega
  rw [front, splice, List.take_left, List.drop_length_add_append, List.drop_drop, stop]

theorem machine_peekSlice (small : s.capacity ≤ sliceLimit) (buffer : Bytes) :
    s.machine.peekSlice buffer = some (s.peekInto buffer) := by
  have bound : s.size ≤ s.capacity := s.size_le
  have start : s.readAt < s.capacity ∨ s.readAt = 0 := s.readAt_lt
  have length : s.storage.toList.length = s.capacity := Array.length_toList
  have front : s.peek buffer.length = s.peek (min buffer.length s.size) := by
    unfold peek
    rw [Nat.min_assoc, Nat.min_self]
  have front_length : (s.peek buffer.length).length = min buffer.length s.size := by simp [peek]
  unfold peekInto Machine.Stream.peekSlice
  change (if min buffer.length s.size = 0 then _ else _) = _
  dsimp only
  rw [front_length]
  rw [front] at front_length ⊢
  generalize size_eq : min buffer.length s.size = size at *
  by_cases nothing : size = 0
  · have empty := List.length_eq_zero_iff.mp (front_length.trans nothing)
    rw [if_pos nothing, empty, nothing]
    rfl
  · generalize first_eq : min size (s.capacity - s.readAt) = first
    have slices := s.peek_slices size (by omega) first_eq.symm
    generalize left_eq : (s.storage.toList.take (s.readAt + first)).drop s.readAt = left at slices
    generalize right_eq : s.storage.toList.take (size - first) = right at slices
    have left_length : left.length = first := by
      rw [← left_eq, List.length_drop, List.length_take]
      omega
    have right_length : right.length = size - first := by
      rw [← right_eq, List.length_take]
      omega
    rw [if_neg nothing, slices, ← splice_splice left_length right_length (by omega)]
    simp only [machine, Option.bind_eq_bind]
    rw [length, size_eq, sub_eq (by omega), Option.bind_some, first_eq,
      add_sizes (by omega) (by omega), Option.bind_some, slice_eq (by omega) (by omega),
      Option.bind_some, left_eq,
      copy_eq (by omega) (by omega), Option.bind_some, sub_eq (by omega), Option.bind_some,
      slice_eq (by omega) (by omega), Option.bind_some, List.drop_zero, right_eq,
      copy_eq (by omega) (by rw [splice_length (by omega)]; omega), Option.bind_some]

theorem pop_min (s : ByteStream) (count : Nat) : s.pop (min count s.size) = s.pop count := by
  unfold pop available
  simp only [Nat.min_assoc, Nat.min_self]

/-- An empty stream starts at the beginning of its storage. -/
def Rested (s : ByteStream) : Prop := s.size = 0 → s.readAt = 0

theorem atEnd_pop_of_nothing (nothing : min count s.size = 0) :
    (s.pop count).atEnd = s.atEnd := by
  unfold atEnd isEmpty pop available
  simp only [nothing, Nat.sub_zero]

theorem pop_of_nothing (rested : s.Rested) (nothing : min count s.size = 0) : s.pop count = s := by
  have start := s.readAt_lt
  have bound := s.size_le
  have still : (if 0 = s.size then 0 else s.slot 0) = s.readAt := by
    unfold Rested at rested
    unfold slot
    split
    · omega
    · split <;> omega
  unfold pop available
  simp only [nothing, still, Nat.sub_zero, Nat.add_zero]

theorem machine_pop (small : s.capacity ≤ sliceLimit) (counted : s.totalWritten < wordLimit)
    (rested : min count s.size = 0 → s.Rested) :
    s.machine.pop count = some (s.available count, (s.pop count).machine) := by
  have bound : s.size ≤ s.capacity := s.size_le
  have start : s.readAt < s.capacity ∨ s.readAt = 0 := s.readAt_lt
  have length : s.storage.toList.length = s.capacity := Array.length_toList
  have total : s.totalWritten = s.totalRead + s.size := rfl
  unfold Machine.Stream.pop
  change (if min count s.size = 0 then _ else _) = _
  by_cases nothing : min count s.size = 0
  · rw [if_pos nothing, pop_of_nothing (rested nothing) nothing, available, nothing]
  · have popped : (s.pop count).machine = { s.machine with
        readAt := if min count s.size = s.size then 0 else s.slot (min count s.size)
        length := s.size - min count s.size
        totalRead := s.totalRead + min count s.size } := by
      unfold machine
      rw [totalWritten_pop]
      rfl
    have turn : (if s.size - min count s.size = 0 then 0
        else (s.readAt + min count s.size) % s.capacity) =
        if min count s.size = s.size then 0 else s.slot (min count s.size) := by
      split
      · rw [if_pos (by omega)]
      · rw [if_neg (by omega), slot_eq_mod (by omega)]
    rw [if_neg nothing, popped, ← turn, available]
    simp only [machine, Option.bind_eq_bind]
    rw [length, add_sizes (by omega) (by omega), Option.bind_some, rem_eq (by omega),
      Option.bind_some, sub_eq (by omega), Option.bind_some, add_eq (by omega), Option.bind_some]

theorem machine_readSlice (small : s.capacity ≤ sliceLimit) (counted : s.totalWritten < wordLimit)
    (rested : min buffer.length s.size = 0 → s.Rested) : s.machine.readSlice buffer =
      some ((s.peekInto buffer).1, (s.peekInto buffer).2, (s.pop buffer.length).machine) := by
  have copied : (s.peekInto buffer).1 = min buffer.length s.size := by simp [peekInto, peek]
  unfold Machine.Stream.readSlice
  rw [machine_peekSlice small]
  simp only [Option.bind_eq_bind, Option.bind_some]
  rw [copied, machine_pop small counted (by rwa [Nat.min_assoc, Nat.min_self]), pop_min]
  simp [available]

theorem machine_read (small : s.capacity ≤ sliceLimit) (counted : s.totalWritten < wordLimit)
    (rested : min count s.size = 0 → s.Rested) :
    s.machine.read count = some (s.peek count, (s.pop count).machine) := by
  unfold Machine.Stream.read
  show ((s.machine.readSlice (List.replicate (min count s.size) 0)).bind _) = _
  rw [machine_readSlice small counted (by simpa using rested)]
  simp only [Option.bind_some, List.length_replicate, pop_min]
  simp [peekInto, peek]

theorem machine_read_of_nothing (nothing : min count s.size = 0) :
    s.machine.read count = some ([], s.machine) := by
  unfold Machine.Stream.read
  show ((s.machine.readSlice (List.replicate (min count s.size) 0)).bind _) = _
  rw [nothing]
  unfold Machine.Stream.readSlice Machine.Stream.peekSlice Machine.Stream.pop
  simp

theorem rested_ofStorage (storage : Array UInt8) : (ofStorage storage).Rested := fun _ => rfl

theorem rested_pop (s : ByteStream) (count : Nat) : (s.pop count).Rested := by
  intro empty
  have dropped : s.available count ≤ s.size := Nat.min_le_right _ _
  have all : s.size - s.available count = 0 := empty
  exact if_pos (by omega)

theorem Rested.write (rested : s.Rested) (data : Bytes) : (s.write data).2.Rested := by
  intro empty
  have written := congrArg List.length (s.toList_write data)
  rw [toList_length, empty, List.length_append, toList_length] at written
  have start : (s.write data).2.readAt = s.readAt := by
    unfold ByteStream.write
    split
    · rfl
    · exact s.append_readAt data
  exact start.trans (rested (by omega))

end ByteStream

end NetStack
