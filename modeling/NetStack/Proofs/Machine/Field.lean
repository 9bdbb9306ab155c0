import NetStack.Ethernet.Address
import NetStack.Proofs.Machine.Word
import NetStack.Proofs.Wire.OnesComplement

namespace NetStack.Machine

section Read

def octetAt (buffer : Bytes) (index : Nat) : Option UInt8 := buffer[index]?

def word16At (buffer : Bytes) (index : Nat) : Option UInt16 := do
  match ← slice buffer index (index + 2) with
  | [high, low] => some (Bytes.word16 high low)
  | _ => none

def word32At (buffer : Bytes) (index : Nat) : Option UInt32 := do
  match ← slice buffer index (index + 4) with
  | [a, b, c, d] => some (Bytes.word32 a b c d)
  | _ => none

def hardwareAt (buffer : Bytes) (index : Nat) : Option Ethernet.Address := do
  Ethernet.Address.ofOctets? (← slice buffer index (index + 6))

def octetsOf (words : Nat) : Option Nat := if 4 * words < 0x100 then some (4 * words) else none

variable {buffer : Bytes} {index : Nat}

theorem octetAt_eq (inside : index < buffer.length) :
    octetAt buffer index = some (buffer.octet index) := by
  rw [octetAt, Bytes.octet, List.getD_eq_getElem?_getD, List.getElem?_eq_getElem inside,
    Option.getD_some]

theorem slice_octets {size : Nat} (inside : index + size ≤ buffer.length) :
    slice buffer index (index + size) =
      some ((List.range size).map fun offset => buffer.octet (index + offset)) := by
  rw [slice_eq (Nat.le_add_right _ _) inside]
  congr 1
  apply List.ext_getElem
  · simp only [List.length_drop, List.length_take, List.length_map, List.length_range]
    omega
  · intro offset left right
    simp only [List.length_map, List.length_range] at right
    rw [List.getElem_drop, List.getElem_take, List.getElem_map, List.getElem_range, Bytes.octet,
      List.getD_eq_getElem?_getD, List.getElem?_eq_getElem (by omega), Option.getD_some]

theorem word16At_eq (inside : index + 2 ≤ buffer.length) :
    word16At buffer index = some (buffer.word16At index) := by
  rw [word16At, slice_octets inside]
  rfl

theorem word32At_eq (inside : index + 4 ≤ buffer.length) :
    word32At buffer index = some (buffer.word32At index) := by
  rw [word32At, slice_octets inside]
  rfl

theorem hardwareAt_eq (inside : index + 6 ≤ buffer.length) :
    hardwareAt buffer index = some (.readAt buffer index) := by
  rw [hardwareAt, slice_octets inside]
  rfl

theorem octetsOf_eq {words : Nat} (small : words < 0x10) : octetsOf words = some (words * 4) := by
  rw [octetsOf, if_pos (by omega), Nat.mul_comm]

end Read

section Sum

def add32 (a b : Nat) : Option Nat := if a + b < 0x100000000 then some (a + b) else none

def add16 (a b : Nat) : Option Nat := if a + b < 0x10000 then some (a + b) else none

def addWord (s : Bytes × Nat) : Option (ForInStep (Bytes × Nat)) :=
  if 2 ≤ s.1.length then do
    let total ← add32 s.2 (← word16At s.1 0).toNat
    let rest ← slice s.1 2 s.1.length
    some (.yield (rest, total))
  else some (.done s)

theorem addWord_less {s after : Bytes × Nat} (added : addWord s = some (.yield after)) :
    after.1.length < s.1.length := by
  unfold addWord at added
  split at added
  · rename_i some_left
    obtain ⟨word, _, added⟩ := Option.bind_eq_some_iff.mp added
    obtain ⟨total, _, added⟩ := Option.bind_eq_some_iff.mp added
    rw [slice_rest some_left] at added
    cases added
    rw [List.length_drop]
    omega
  · nomatch added

def addWords : Bytes × Nat → Option (Bytes × Nat) := loop addWord (·.1.length) addWord_less

def addChunk (s : Bytes × Nat) : Option (ForInStep (Bytes × Nat)) :=
  if 32 ≤ s.1.length then do
    let (_, total) ← addWords (← slice s.1 0 32, s.2)
    let rest ← slice s.1 32 s.1.length
    some (.yield (rest, total))
  else some (.done s)

theorem addChunk_less {s after : Bytes × Nat} (added : addChunk s = some (.yield after)) :
    after.1.length < s.1.length := by
  unfold addChunk at added
  split at added
  · rename_i some_left
    obtain ⟨chunk, _, added⟩ := Option.bind_eq_some_iff.mp added
    obtain ⟨⟨_, total⟩, _, added⟩ := Option.bind_eq_some_iff.mp added
    dsimp only at added
    rw [slice_rest some_left] at added
    cases added
    rw [List.length_drop]
    omega
  · nomatch added

def addChunks : Bytes × Nat → Option (Bytes × Nat) := loop addChunk (·.1.length) addChunk_less

def carry (total : Nat) : Option UInt16 := do
  let folded ← add32 (total / 0x10000) (total % 0x10000)
  let word ← add16 (folded / 0x10000) (folded % 0x10000)
  some (.ofNat word)

def sum (data : Bytes) : Option UInt16 := do
  let (rest, total) ← addWords (← addChunks (data, 0))
  match rest with
  | [] => carry total
  | high :: _ => carry (← add32 total (0x100 * high.toNat))

def combine (sums : List UInt16) : Option UInt16 := do
  carry (← sums.foldlM (fun total sum => add32 total sum.toNat) 0)

theorem add32_eq {a b : Nat} (small : a + b < 0x100000000) : add32 a b = some (a + b) :=
  if_pos small

theorem addWord_of_words {high low : UInt8} {rest : Bytes} {total : Nat}
    (small : total + (0x100 * high.toNat + low.toNat) < 0x100000000) :
    addWord (high :: low :: rest, total) =
      some (.yield (rest, total + (0x100 * high.toNat + low.toNat))) := by
  have word : word16At (high :: low :: rest) 0 = some (Bytes.word16 high low) := rfl
  have some_left : 2 ≤ (high :: low :: rest).length := by simp
  unfold addWord
  dsimp only
  rw [if_pos some_left, word, Option.bind_eq_bind, Option.bind_some, Bytes.word16_toNat,
    add32_eq small, slice_rest some_left]
  rfl

theorem addWords_eq (data : Bytes) (total : Nat)
    (small : total + Checksum.wordSum data < 0x100000000) :
    ∃ rest sum, addWords (data, total) = some (rest, sum) ∧ rest.length = data.length % 2 ∧
      sum + Checksum.wordSum rest = total + Checksum.wordSum data := by
  fun_induction Checksum.wordSum data generalizing total with
  | case1 high low rest ih =>
    obtain ⟨left, sum, added, length, same⟩ :=
      ih (total + (0x100 * high.toNat + low.toNat)) (by omega)
    refine ⟨left, sum, ?_, ?_, ?_⟩
    · unfold addWords at added ⊢
      rw [loop_of_yield (addWord_of_words (by omega)), added]
    · rw [length, List.length_cons, List.length_cons]
      omega
    · omega
  | case2 high => exact ⟨[high], total, loop_of_done rfl, rfl, rfl⟩
  | case3 => exact ⟨[], total, loop_of_done rfl, rfl, rfl⟩

theorem addChunk_of_le {data : Bytes} {total : Nat} (long : 32 ≤ data.length)
    (small : total + Checksum.wordSum data < 0x100000000) :
    ∃ sum, addChunk (data, total) = some (.yield (data.drop 32, sum)) ∧
      sum + Checksum.wordSum (data.drop 32) = total + Checksum.wordSum data := by
  have size : (data.take 32).length = 32 := by
    rw [List.length_take]
    omega
  have parts : Checksum.wordSum data =
      Checksum.wordSum (data.take 32) + Checksum.wordSum (data.drop 32) := by
    rw [← Checksum.wordSum_append (by rw [size]), List.take_append_drop]
  obtain ⟨rest, sum, added, length, same⟩ := addWords_eq (data.take 32) total (by omega)
  have nothing : rest = [] := by
    rw [size] at length
    exact List.length_eq_zero_iff.mp length
  subst nothing
  rw [Checksum.wordSum_nil] at same
  refine ⟨sum, ?_, by omega⟩
  have chunk : slice data 0 32 = some (data.take 32) := slice_eq (Nat.zero_le _) long
  unfold addChunk
  dsimp only
  rw [if_pos long, chunk, Option.bind_eq_bind, Option.bind_some, added, slice_rest long]
  rfl

theorem addChunks_eq (data : Bytes) (total : Nat)
    (small : total + Checksum.wordSum data < 0x100000000) :
    ∃ rest sum, addChunks (data, total) = some (rest, sum) ∧
      sum + Checksum.wordSum rest = total + Checksum.wordSum data := by
  induction size : data.length using Nat.strongRecOn generalizing data total with
  | ind length ih =>
    by_cases long : 32 ≤ data.length
    · obtain ⟨between, chunk, same⟩ := addChunk_of_le long small
      obtain ⟨rest, sum, added, total⟩ := ih (data.drop 32).length
        (by rw [List.length_drop]; omega) (data.drop 32) between (by omega) rfl
      refine ⟨rest, sum, ?_, by omega⟩
      unfold addChunks at added ⊢
      rw [loop_of_yield chunk, added]
    · exact ⟨data, total, loop_of_done (if_neg long), rfl⟩

theorem carry_eq {total : Nat} (small : total < 0x100000000) :
    ∃ word, carry total = some word ∧ word.toNat = Checksum.fold total := by
  have once := Checksum.fold_halves total
  have halves : total / 0x10000 + total % 0x10000 ≤ 0x1fffe := by omega
  rw [Checksum.fold_of_one_carry halves] at once
  refine ⟨.ofNat (Checksum.fold total), ?_, ?_⟩
  · unfold carry
    rw [add32_eq (by omega), Option.bind_eq_bind, Option.bind_some, add16, if_pos (by omega), once]
    rfl
  · rw [UInt16.toNat_ofNat', Nat.mod_eq_of_lt (by omega)]

theorem sum_eq {data : Bytes} (short : data.length ≤ 0x20000) :
    sum data = some (Checksum.sum data) := by
  have bound := Checksum.wordSum_le data
  obtain ⟨between, chunks, added, same⟩ := addChunks_eq data 0 (by omega)
  obtain ⟨rest, total, words, length, equal⟩ := addWords_eq between chunks (by omega)
  have whole : total + Checksum.wordSum rest = Checksum.wordSum data := by omega
  have done {all : Nat} (all_eq : all = Checksum.wordSum data) :
      carry all = some (Checksum.sum data) := by
    obtain ⟨word, carried, folded⟩ := @carry_eq all (by omega)
    rw [carried]
    congr 1
    apply UInt16.toNat.inj
    rw [folded, Checksum.sum_toNat short, all_eq]
  unfold sum
  rw [added, Option.bind_eq_bind, Option.bind_some, words, Option.bind_some]
  -- at most one octet is left
  match rest, length with
  | [], _ => exact done whole
  | [high], _ =>
    have single : total + 0x100 * high.toNat = Checksum.wordSum data := whole
    dsimp only
    rw [add32_eq (by omega)]
    exact done single
  | _ :: _ :: _, length =>
    rw [List.length_cons, List.length_cons] at length
    omega

/-- Few words do not overflow a total of 32 bits, neither where that faults nor where it wraps. -/
theorem totals_eq (sums : List UInt16) (total : UInt32)
    (small : total.toNat + 0xffff * sums.length < 0x100000000) :
    sums.foldlM (fun total sum => add32 total sum.toNat) total.toNat =
      some (sums.foldl (fun total sum => total + sum.toUInt32) total).toNat := by
  induction sums generalizing total with
  | nil => rfl
  | cons first rest ih =>
    have bound := first.toNat_lt
    rw [List.length_cons] at small
    have added : (total + first.toUInt32).toNat = total.toNat + first.toNat := by
      rw [UInt32.toNat_add, UInt16.toNat_toUInt32, Nat.mod_eq_of_lt (by omega)]
    have later := ih (total + first.toUInt32) (by omega)
    rw [added] at later
    rw [List.foldlM_cons, add32_eq (by omega), Option.bind_eq_bind, Option.bind_some, later,
      List.foldl_cons]

theorem combine_eq {sums : List UInt16} (few : sums.length ≤ 0x10000) :
    combine sums = some (Checksum.combine sums) := by
  have totals := totals_eq sums 0 (by rw [UInt32.toNat_zero]; omega)
  obtain ⟨word, carried, folded⟩ :=
    carry_eq (sums.foldl (fun total (sum : UInt16) => total + sum.toUInt32) 0).toNat_lt
  rw [UInt32.toNat_zero] at totals
  unfold combine
  rw [totals, Option.bind_eq_bind, Option.bind_some, carried]
  congr 1
  apply UInt16.toNat.inj
  rw [folded, Checksum.combine, Checksum.foldCarries_toNat]

end Sum

end NetStack.Machine
