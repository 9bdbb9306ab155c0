import NetStack.Stream.Access

namespace NetStack.ByteStream

@[simp] theorem size_ofStorage (storage : Array UInt8) : (ofStorage storage).size = 0 := rfl

@[simp] theorem totalRead_ofStorage (storage : Array UInt8) :
    (ofStorage storage).totalRead = 0 := rfl

@[simp] theorem inputEnded_ofStorage (storage : Array UInt8) :
    (ofStorage storage).inputEnded = false := rfl

@[simp] theorem failed_ofStorage (storage : Array UInt8) : (ofStorage storage).failed = false := rfl

@[simp] theorem room_ofStorage (storage : Array UInt8) :
    (ofStorage storage).room = storage.size := rfl

theorem append_keeps (stream : ByteStream) (data : Bytes) :
    (stream.append data).totalRead = stream.totalRead ∧
      (stream.append data).inputEnded = stream.inputEnded ∧
      (stream.append data).failed = stream.failed := by
  induction data generalizing stream with
  | nil => exact ⟨rfl, rfl, rfl⟩
  | cons octet rest ih =>
    unfold append
    split
    · rename_i free
      exact ih (stream.push octet free)
    · exact ⟨rfl, rfl, rfl⟩

@[simp] theorem totalRead_write (stream : ByteStream) (data : Bytes) :
    (stream.write data).2.totalRead = stream.totalRead := by
  unfold write
  split
  · rfl
  · exact (stream.append_keeps data).1

@[simp] theorem inputEnded_write (stream : ByteStream) (data : Bytes) :
    (stream.write data).2.inputEnded = stream.inputEnded := by
  unfold write
  split
  · rfl
  · exact (stream.append_keeps data).2.1

@[simp] theorem failed_write (stream : ByteStream) (data : Bytes) :
    (stream.write data).2.failed = stream.failed := by
  unfold write
  split
  · rfl
  · exact (stream.append_keeps data).2.2

@[simp] theorem capacity_append (stream : ByteStream) (data : Bytes) :
    (stream.append data).capacity = stream.capacity := by
  induction data generalizing stream with
  | nil => rfl
  | cons octet rest ih =>
    unfold append
    split
    · rename_i free
      rw [ih, capacity_push]
    · rfl

@[simp] theorem capacity_write (stream : ByteStream) (data : Bytes) :
    (stream.write data).2.capacity = stream.capacity := by
  unfold write
  split
  · rfl
  · exact stream.capacity_append data

theorem toList_write (stream : ByteStream) (data : Bytes) :
    (stream.write data).2.toList = stream.toList ++ data.take (stream.write data).1 := by
  unfold write
  split
  · simp
  · rw [toList_append]
    by_cases fits : data.length ≤ stream.room
    · rw [Nat.min_eq_left fits, List.take_of_length_le fits, List.take_length]
    · rw [Nat.min_eq_right (by omega)]

theorem write_le (stream : ByteStream) (data : Bytes) : (stream.write data).1 ≤ data.length := by
  unfold write
  split
  · exact Nat.zero_le _
  · exact Nat.min_le_left _ _

theorem write_of_ended {stream : ByteStream} (ended : stream.inputEnded = true) (data : Bytes) :
    stream.write data = (0, stream) := by
  unfold write
  rw [if_pos ended]

theorem write_of_fits {stream : ByteStream} {data : Bytes} (unended : stream.inputEnded = false)
    (fits : data.length ≤ stream.room) : (stream.write data).1 = data.length := by
  unfold write
  rw [if_neg (by simp [unended])]
  exact Nat.min_eq_left fits

theorem totalRead_add_length (stream : ByteStream) :
    stream.totalRead + stream.toList.length = stream.totalWritten := by
  rw [toList_length]
  rfl

theorem totalWritten_write (stream : ByteStream) (data : Bytes) :
    (stream.write data).2.totalWritten = stream.totalWritten + (stream.write data).1 := by
  rw [← totalRead_add_length, toList_write, List.length_append, totalRead_write, ← Nat.add_assoc,
    totalRead_add_length, List.length_take, Nat.min_eq_left (stream.write_le data)]

@[simp] theorem totalRead_pop (stream : ByteStream) (count : Nat) :
    (stream.pop count).totalRead = stream.totalRead + (stream.toList.take count).length := by
  rw [List.length_take, toList_length]
  rfl

@[simp] theorem capacity_pop (stream : ByteStream) (count : Nat) :
    (stream.pop count).capacity = stream.capacity := rfl

@[simp] theorem inputEnded_pop (stream : ByteStream) (count : Nat) :
    (stream.pop count).inputEnded = stream.inputEnded := rfl

@[simp] theorem failed_pop (stream : ByteStream) (count : Nat) :
    (stream.pop count).failed = stream.failed := rfl

@[simp] theorem totalWritten_pop (stream : ByteStream) (count : Nat) :
    (stream.pop count).totalWritten = stream.totalWritten := by
  unfold totalWritten pop available
  simp only
  omega

theorem atEnd_iff (stream : ByteStream) :
    stream.atEnd = true ↔ stream.inputEnded = true ∧ stream.toList = [] := by
  rw [← List.length_eq_zero_iff, toList_length, atEnd, isEmpty, Bool.and_eq_true, beq_iff_eq]

@[simp] theorem totalRead_endInput (stream : ByteStream) :
    stream.endInput.totalRead = stream.totalRead := rfl

@[simp] theorem inputEnded_endInput (stream : ByteStream) : stream.endInput.inputEnded = true := rfl

@[simp] theorem failed_endInput (stream : ByteStream) :
    stream.endInput.failed = stream.failed := rfl

@[simp] theorem totalRead_fail (stream : ByteStream) :
    stream.fail.totalRead = stream.totalRead := rfl

@[simp] theorem inputEnded_fail (stream : ByteStream) :
    stream.fail.inputEnded = stream.inputEnded := rfl

@[simp] theorem failed_fail (stream : ByteStream) : stream.fail.failed = true := rfl

section Step

variable (stream : ByteStream) (op : Op)

theorem capacity_step : (stream.step op).2.capacity = stream.capacity := by
  cases op with
  | write data => exact stream.capacity_write data
  | peek | read | peekInto | readInto | pop | endInput | fail => rfl

theorem totalWritten_le_step : stream.totalWritten ≤ (stream.step op).2.totalWritten := by
  cases op with
  | write data =>
    show stream.totalWritten ≤ (stream.write data).2.totalWritten
    rw [totalWritten_write]
    exact Nat.le_add_right _ _
  | read count | readInto buffer | pop count => exact Nat.le_of_eq (stream.totalWritten_pop _).symm
  | peek | peekInto | endInput | fail => exact Nat.le_refl _

theorem step_grows : stream.totalRead ≤ (stream.step op).2.totalRead ∧
    (stream.inputEnded = true → (stream.step op).2.inputEnded = true) := by
  cases op with
  | write data =>
    show _ ≤ (stream.write data).2.totalRead ∧ (_ → (stream.write data).2.inputEnded = true)
    simp
  | read count | readInto buffer | pop count => exact ⟨Nat.le_add_right _ _, id⟩
  | peek | peekInto | fail => exact ⟨Nat.le_refl _, id⟩
  | endInput => exact ⟨Nat.le_refl _, fun _ => rfl⟩

end Step

end NetStack.ByteStream
