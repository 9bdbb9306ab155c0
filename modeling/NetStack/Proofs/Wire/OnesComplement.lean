import NetStack.Checksum

namespace NetStack

namespace Checksum

/-- The sum of the big-endian words; an odd last octet is the high half of a word. -/
def wordSum : Bytes → Nat
  | high :: low :: rest => 0x100 * high.toNat + low.toNat + wordSum rest
  | [high] => 0x100 * high.toNat
  | [] => 0

@[simp] theorem wordSum_nil : wordSum [] = 0 := rfl

@[simp] theorem wordSum_cons_cons (high low : UInt8) (rest : Bytes) :
    wordSum (high :: low :: rest) = 0x100 * high.toNat + low.toNat + wordSum rest := rfl

/-- Words are counted from the front, so a part of even length does not shift those behind it. -/
theorem wordSum_append {left : Bytes} (even : left.length % 2 = 0) (right : Bytes) :
    wordSum (left ++ right) = wordSum left + wordSum right := by
  fun_induction wordSum left with
  | case1 high low rest ih =>
    have even : rest.length % 2 = 0 := by
      simp only [List.length_cons] at even
      omega
    simp only [List.cons_append, wordSum_cons_cons, ih even]
    omega
  | case2 => simp at even
  | case3 => simp

@[simp] theorem wordSum_ofWord16 (word : UInt16) : wordSum (Bytes.ofWord16 word) = word.toNat := by
  have bound := word.toNat_lt
  simp only [Bytes.ofWord16, wordSum_cons_cons, wordSum_nil, UInt8.toNat_ofNat']
  omega

theorem wordSum_le (bytes : Bytes) : wordSum bytes ≤ 0xffff * ((bytes.length + 1) / 2) := by
  fun_induction wordSum bytes with
  | case1 high low rest ih =>
    have highBound := high.toNat_lt
    have lowBound := low.toNat_lt
    simp only [List.length_cons]
    omega
  | case2 high =>
    have highBound := high.toNat_lt
    simp only [List.length_singleton]
    omega
  | case3 => simp

theorem addWords_toNat (bytes : Bytes) (total : UInt32)
    (bound : total.toNat + wordSum bytes < 0x100000000) :
    (addWords bytes total).toNat = total.toNat + wordSum bytes := by
  fun_induction addWords bytes total with
  | case1 high low rest total ih =>
    rw [wordSum_cons_cons] at bound ⊢
    have added : (total + (Bytes.word16 high low).toUInt32).toNat =
        total.toNat + (0x100 * high.toNat + low.toNat) := by
      rw [UInt32.toNat_add, UInt16.toNat_toUInt32, Bytes.word16_toNat]
      omega
    rw [ih (by omega), added]
    omega
  | case2 high total =>
    have single : wordSum [high] = 0x100 * high.toNat := rfl
    rw [single] at bound ⊢
    rw [UInt32.toNat_add, UInt16.toNat_toUInt32, Bytes.word16_toNat, UInt8.toNat_zero]
    omega
  | case3 => rfl

def fold (total : Nat) : Nat := if total = 0 then 0 else (total - 1) % 0xffff + 1

theorem fold_fold_add (left right : Nat) : fold (fold left + right) = fold (left + right) := by
  unfold fold
  by_cases zero : left = 0
  · simp [zero]
  · simp only [zero, if_false]
    rw [if_neg (by omega), if_neg (by omega)]
    omega

theorem fold_add_fold (left right : Nat) : fold (left + fold right) = fold (left + right) := by
  rw [Nat.add_comm, fold_fold_add, Nat.add_comm]

theorem fold_add_complement (total : Nat) : fold (total + (0xffff - fold total)) = 0xffff := by
  unfold fold
  by_cases zero : total = 0
  · simp [zero]
  · simp only [zero, if_false]
    rw [if_neg (by omega)]
    omega

theorem fold_halves (total : Nat) : fold (total / 0x10000 + total % 0x10000) = fold total := by
  obtain ⟨high, low, split, bound⟩ :
      ∃ high low, total = 0x10000 * high + low ∧ low < 0x10000 :=
    ⟨total / 0x10000, total % 0x10000, by omega, by omega⟩
  have high_eq : total / 0x10000 = high := by omega
  have low_eq : total % 0x10000 = low := by omega
  rw [high_eq, low_eq, split]
  unfold fold
  by_cases zero : high + low = 0
  · rw [if_pos zero, if_pos (by omega)]
  · rw [if_neg zero, if_neg (by omega)]
    omega

theorem fold_of_one_carry {total : Nat} (bound : total ≤ 0x1fffe) :
    fold total = total / 0x10000 + total % 0x10000 := by
  unfold fold
  split <;> omega

theorem foldCarries_toNat (total : UInt32) : (foldCarries total).toNat = fold total.toNat := by
  have bound := total.toNat_lt
  have halves : ((total >>> 16) + (total &&& 0xffff)).toNat =
      total.toNat / 0x10000 + total.toNat % 0x10000 := by
    have low : total.toNat &&& 0xffff = total.toNat % 0x10000 :=
      Nat.and_two_pow_sub_one_eq_mod _ 16
    rw [UInt32.toNat_add, UInt32.toNat_shiftRight, UInt32.toNat_and]
    show (total.toNat >>> 16 + (total.toNat &&& 0xffff)) % 0x100000000 = _
    rw [low, Nat.shiftRight_eq_div_pow]
    omega
  -- the halves add up to at most 0x1fffe, which leaves one carry more
  have once := fold_halves total.toNat
  rw [fold_of_one_carry (by omega)] at once
  rw [← once, ← halves]
  unfold foldCarries
  dsimp only
  rw [UInt16.toNat_add, UInt32.toNat_toUInt16, UInt32.toNat_toUInt16, UInt32.toNat_shiftRight]
  show (((_ >>> 16) % 0x10000) + _ % 0x10000) % 0x10000 = _
  rw [Nat.shiftRight_eq_div_pow, halves]
  omega

theorem sum_toNat {bytes : Bytes} (bound : bytes.length ≤ 0x20000) :
    (sum bytes).toNat = fold (wordSum bytes) := by
  -- this many words do not overflow the total
  have small := wordSum_le bytes
  have added := addWords_toNat bytes 0 (by
    rw [UInt32.toNat_zero]
    omega)
  rw [sum, foldCarries_toNat, added, UInt32.toNat_zero, Nat.zero_add]

theorem combine_toNat (first second : UInt16) :
    (combine [first, second]).toNat = fold (first.toNat + second.toNat) := by
  have firstBound := first.toNat_lt
  have secondBound := second.toNat_lt
  rw [combine, foldCarries_toNat]
  simp only [List.foldl_cons, List.foldl_nil, UInt32.toNat_add, UInt16.toNat_toUInt32,
    UInt32.toNat_zero]
  congr 1
  omega

theorem complement_toNat (word : UInt16) : (~~~ word).toNat = 0xffff - word.toNat := by
  rw [UInt16.toNat_not]
  rfl

end Checksum

end NetStack
