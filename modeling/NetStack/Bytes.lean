namespace NetStack

/-- A byte string: a payload, a packet, or the contents of a buffer. -/
abbrev Bytes := List UInt8

namespace Bytes

/-- The two octets of a word, high octet first. -/
def ofWord16 (word : UInt16) : Bytes :=
  [UInt8.ofNat (word.toNat / 0x100), UInt8.ofNat word.toNat]

def ofWord32 (word : UInt32) : Bytes :=
  [UInt8.ofNat (word.toNat / 0x1000000), UInt8.ofNat (word.toNat / 0x10000),
    UInt8.ofNat (word.toNat / 0x100), UInt8.ofNat word.toNat]

def word16 (high low : UInt8) : UInt16 :=
  UInt16.ofNat (0x100 * high.toNat + low.toNat)

def word32 (a b c d : UInt8) : UInt32 :=
  UInt32.ofNat (0x1000000 * a.toNat + 0x10000 * b.toNat + 0x100 * c.toNat + d.toNat)

/-- The octet at `index`, zero past the end. -/
def octet (bytes : Bytes) (index : Nat) : UInt8 := bytes.getD index 0

def word16At (bytes : Bytes) (index : Nat) : UInt16 :=
  word16 (octet bytes index) (octet bytes (index + 1))

def word32At (bytes : Bytes) (index : Nat) : UInt32 :=
  word32 (octet bytes index) (octet bytes (index + 1)) (octet bytes (index + 2))
    (octet bytes (index + 3))

/-- Put `patch` over the octets from `start` on; `none` if it would reach past the end. -/
def overwrite? (bytes : Bytes) (start : Nat) (patch : Bytes) : Option Bytes :=
  if start + patch.length ≤ bytes.length then
    some (bytes.take start ++ patch ++ bytes.drop (start + patch.length))
  else
    none

@[simp] theorem ofWord16_length (word : UInt16) : (ofWord16 word).length = 2 := rfl

@[simp] theorem ofWord32_length (word : UInt32) : (ofWord32 word).length = 4 := rfl

theorem word16_toNat (high low : UInt8) :
    (word16 high low).toNat = 0x100 * high.toNat + low.toNat := by
  have := high.toNat_lt
  have := low.toNat_lt
  simp only [word16, UInt16.toNat_ofNat']
  omega

theorem word16_ofWord16 (word : UInt16) :
    word16 (UInt8.ofNat (word.toNat / 0x100)) (UInt8.ofNat word.toNat) = word := by
  apply UInt16.toNat.inj
  have bound := word.toNat_lt
  simp only [word16, UInt16.toNat_ofNat', UInt8.toNat_ofNat']
  omega

theorem ofWord16_word16 (high low : UInt8) : ofWord16 (word16 high low) = [high, low] := by
  have highBound := high.toNat_lt
  have lowBound := low.toNat_lt
  simp only [ofWord16, word16, UInt16.toNat_ofNat', List.cons.injEq, and_true]
  constructor <;> apply UInt8.toNat.inj <;> simp only [UInt8.toNat_ofNat'] <;> omega

theorem word32_ofWord32 (word : UInt32) :
    word32 (UInt8.ofNat (word.toNat / 0x1000000)) (UInt8.ofNat (word.toNat / 0x10000))
      (UInt8.ofNat (word.toNat / 0x100)) (UInt8.ofNat word.toNat) = word := by
  apply UInt32.toNat.inj
  have bound := word.toNat_lt
  simp only [word32, UInt32.toNat_ofNat', UInt8.toNat_ofNat']
  omega

theorem ofWord32_word32 (a b c d : UInt8) : ofWord32 (word32 a b c d) = [a, b, c, d] := by
  have := a.toNat_lt
  have := b.toNat_lt
  have := c.toNat_lt
  have := d.toNat_lt
  simp only [ofWord32, word32, UInt32.toNat_ofNat', List.cons.injEq, and_true]
  refine ⟨?_, ?_, ?_, ?_⟩ <;> apply UInt8.toNat.inj <;> simp only [UInt8.toNat_ofNat'] <;> omega

section Skip

variable (rest : Bytes) (index : Nat)

@[simp] theorem octet_cons_zero (first : UInt8) : octet (first :: rest) 0 = first := rfl

@[simp] theorem octet_cons_succ (first : UInt8) :
    octet (first :: rest) (index + 1) = octet rest index := rfl

@[simp] theorem octet_skip_word16 (word : UInt16) :
    octet (ofWord16 word ++ rest) (index + 2) = octet rest index := rfl

@[simp] theorem octet_skip_word32 (word : UInt32) :
    octet (ofWord32 word ++ rest) (index + 4) = octet rest index := rfl

@[simp] theorem word16At_ofWord16_append (word : UInt16) :
    word16At (ofWord16 word ++ rest) 0 = word := word16_ofWord16 word

@[simp] theorem word32At_ofWord32_append (word : UInt32) :
    word32At (ofWord32 word ++ rest) 0 = word := word32_ofWord32 word

@[simp] theorem word16At_cons_succ (first : UInt8) :
    word16At (first :: rest) (index + 1) = word16At rest index := rfl

@[simp] theorem word16At_skip_word16 (word : UInt16) :
    word16At (ofWord16 word ++ rest) (index + 2) = word16At rest index := rfl

@[simp] theorem word16At_skip_word32 (word : UInt32) :
    word16At (ofWord32 word ++ rest) (index + 4) = word16At rest index := rfl

@[simp] theorem word32At_cons_succ (first : UInt8) :
    word32At (first :: rest) (index + 1) = word32At rest index := rfl

@[simp] theorem word32At_skip_word16 (word : UInt16) :
    word32At (ofWord16 word ++ rest) (index + 2) = word32At rest index := rfl

@[simp] theorem word32At_skip_word32 (word : UInt32) :
    word32At (ofWord32 word ++ rest) (index + 4) = word32At rest index := rfl

end Skip

end Bytes

end NetStack
