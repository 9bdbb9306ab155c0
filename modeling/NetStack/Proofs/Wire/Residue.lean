import Mathlib.Data.Nat.ModEq
import NetStack.Ipv4.Packet
import NetStack.Proofs.Machine.Field
import NetStack.Proofs.Wire.Segment

namespace NetStack

namespace Bytes

theorem octet_eq (bytes : Bytes) (index : Nat) : bytes.octet index = bytes[index]?.getD 0 :=
  List.getD_eq_getElem?_getD

theorem octet_take_of_lt {index count : Nat} (before : index < count) (bytes : Bytes) :
    octet (bytes.take count) index = bytes.octet index := by
  rw [octet_eq, octet_eq, List.getElem?_take_of_lt before]

def withWord16 (bytes : Bytes) (start : Nat) (word : UInt16) : Bytes :=
  bytes.take start ++ ofWord16 word ++ bytes.drop (start + 2)

section WithWord

variable {bytes : Bytes} {start : Nat}

theorem overwrite?_ofWord16 (inside : start + 2 ≤ bytes.length) (word : UInt16) :
    bytes.overwrite? start (ofWord16 word) = some (bytes.withWord16 start word) :=
  if_pos inside

theorem withWord16_length (inside : start + 2 ≤ bytes.length) (word : UInt16) :
    (bytes.withWord16 start word).length = bytes.length := by
  rw [withWord16, List.length_append, List.length_append, List.length_take, List.length_drop,
    ofWord16_length]
  omega

theorem withWord16_withWord16 (inside : start + 2 ≤ bytes.length) (first second : UInt16) :
    (bytes.withWord16 start first).withWord16 start second = bytes.withWord16 start second := by
  have front : (bytes.take start).length = start := List.length_take_of_le (by omega)
  have back : (bytes.take start ++ ofWord16 first).length = start + 2 := by
    rw [List.length_append, front, ofWord16_length]
  have kept : (bytes.withWord16 start first).take start = bytes.take start := by
    rw [withWord16, List.append_assoc, List.take_left' front]
  have rest : (bytes.withWord16 start first).drop (start + 2) = bytes.drop (start + 2) :=
    List.drop_left' back
  rw [withWord16, kept, rest]
  rfl

theorem take_withWord16 {count : Nat} (inside : start + 2 ≤ bytes.length)
    (whole : start + 2 ≤ count) (word : UInt16) :
    (bytes.withWord16 start word).take count = withWord16 (bytes.take count) start word := by
  have back : (bytes.take start ++ ofWord16 word).length = start + 2 := by
    rw [List.length_append, List.length_take_of_le (by omega), ofWord16_length]
  rw [withWord16, withWord16, List.take_append, List.take_of_length_le (by omega), back,
    List.take_take, Nat.min_eq_left (by omega), List.drop_take]

theorem octet_withWord16_of_lt {index : Nat} (before : index < start)
    (inside : start + 2 ≤ bytes.length) (word : UInt16) :
    (bytes.withWord16 start word).octet index = bytes.octet index := by
  have front : (bytes.take start).length = start := List.length_take_of_le (by omega)
  rw [octet_eq, octet_eq, withWord16, List.append_assoc, List.getElem?_append_left (by omega),
    List.getElem?_take_of_lt before]

theorem word16At_withWord16 (inside : start + 2 ≤ bytes.length) (word : UInt16) :
    (bytes.withWord16 start word).word16At start = word := by
  have front : (bytes.take start).length = start := List.length_take_of_le (by omega)
  have read (offset : Nat) : (bytes.withWord16 start word).octet (start + offset) =
      octet (ofWord16 word ++ bytes.drop (start + 2)) offset := by
    rw [octet_eq, octet_eq, withWord16, List.append_assoc, List.getElem?_append_right (by omega),
      front, Nat.add_sub_cancel_left]
  rw [word16At, read 1, show (bytes.withWord16 start word).octet start = _ from read 0]
  exact word16_ofWord16 word

end WithWord

end Bytes

namespace Checksum

theorem fold_le (total : Nat) : fold total ≤ 0xffff := by
  unfold fold
  split <;> omega

theorem fold_modEq (total : Nat) : fold total ≡ total [MOD 0xffff] := by
  unfold fold Nat.ModEq
  split <;> omega

theorem fold_eq_zero_iff {total : Nat} : fold total = 0 ↔ total = 0 := by
  unfold fold
  split <;> omega

/-- All ones is the other zero: what is folded to it is a multiple of 0xffff, but not nothing. -/
theorem fold_eq_ones_iff {total : Nat} : fold total = 0xffff ↔ 0 < total ∧ 0xffff ∣ total := by
  unfold fold
  split <;> omega

theorem wordSum_eq_zero_iff {bytes : Bytes} : wordSum bytes = 0 ↔ ∀ octet ∈ bytes, octet = 0 := by
  have zero (octet : UInt8) : octet = 0 ↔ octet.toNat = 0 := UInt8.toNat_inj.symm
  fun_induction wordSum bytes with
  | case1 high low rest ih =>
    simp only [List.forall_mem_cons, ← ih]
    rw [zero, zero]
    omega
  | case2 high =>
    rw [List.forall_mem_singleton, zero]
    omega
  | case3 => simp

theorem wordSum_pos_of_octet {bytes : Bytes} {index : Nat} (something : bytes.octet index ≠ 0) :
    0 < wordSum bytes := by
  rw [Nat.pos_iff_ne_zero]
  intro nothing
  apply something
  rw [Bytes.octet_eq]
  cases found : bytes[index]? with
  | none => rfl
  | some octet => exact wordSum_eq_zero_iff.mp nothing octet (List.mem_of_getElem? found)

theorem wordSum_withWord16 {bytes : Bytes} {start : Nat} (even : start % 2 = 0)
    (inside : start + 2 ≤ bytes.length) (word : UInt16) :
    wordSum (bytes.withWord16 start word) = wordSum (bytes.withWord16 start 0) + word.toNat := by
  have front : (bytes.take start).length % 2 = 0 := by
    rw [List.length_take_of_le (by omega), even]
  have behind (value : UInt16) : (bytes.take start ++ Bytes.ofWord16 value).length % 2 = 0 := by
    rw [List.length_append, Bytes.ofWord16_length]
    omega
  rw [Bytes.withWord16, Bytes.withWord16, wordSum_append (behind word), wordSum_append (behind 0),
    wordSum_append front, wordSum_append front, wordSum_ofWord16, wordSum_ofWord16,
    UInt16.toNat_zero]
  omega

theorem combine_take_drop {bytes : Bytes} (short : bytes.length ≤ 0x20000) {cut : Nat}
    (even : cut % 2 = 0) : combine [sum (bytes.take cut), sum (bytes.drop cut)] = sum bytes := by
  have halves : wordSum (bytes.take cut) + wordSum (bytes.drop cut) = wordSum bytes := by
    by_cases within : cut ≤ bytes.length
    · rw [← wordSum_append (by rw [List.length_take_of_le within, even]), List.take_append_drop]
    · rw [List.take_of_length_le (by omega), List.drop_of_length_le (by omega), wordSum_nil,
        Nat.add_zero]
  have front : (bytes.take cut).length ≤ 0x20000 := Nat.le_trans (List.length_take_le' ..) short
  have back : (bytes.drop cut).length ≤ 0x20000 := by
    rw [List.length_drop]
    omega
  apply UInt16.toNat.inj
  rw [combine_toNat, sum_toNat front, sum_toNat back, sum_toNat short, fold_fold_add,
    fold_add_fold, halves]

theorem intact_iff_of_adds {total : UInt16 → UInt16} {rest : Nat} (something : 0 < rest)
    (adds : ∀ value, (total value).toNat = fold (rest + value.toNat)) (value : UInt16) :
    total value = intact ↔ value.toNat ≡ (~~~ total 0).toNat [MOD 0xffff] := by
  have blank := adds 0
  rw [UInt16.toNat_zero, Nat.add_zero] at blank
  have whole : total value = intact ↔ fold (rest + value.toNat) = 0xffff := by
    rw [← adds value]
    exact UInt16.toNat_inj.symm
  have residue := fold_modEq rest
  have bound := fold_le rest
  rw [whole, fold_eq_ones_iff, complement_toNat, blank]
  unfold Nat.ModEq at residue ⊢
  omega

/-- A checksum field that is added to something: the total holds once the field is filled in, and
    with another value in the field if that is congruent to the one filled in. -/
theorem intact_withWord16 {total : Bytes → UInt16} {bytes : Bytes} {start rest : Nat}
    (inside : start + 2 ≤ bytes.length) (something : 0 < rest)
    (adds : ∀ value : UInt16,
      (total (bytes.withWord16 start value)).toNat = fold (rest + value.toNat)) :
    let filled := bytes.withWord16 start (~~~ total (bytes.withWord16 start 0))
    total filled = intact ∧ ∀ value, total (filled.withWord16 start value) = intact ↔
      value.toNat ≡ (filled.word16At start).toNat [MOD 0xffff] := by
  intro filled
  have holds := @intact_iff_of_adds (fun value => total (bytes.withWord16 start value)) rest
    something adds
  refine ⟨(holds _).mpr (Nat.ModEq.refl _), fun value => ?_⟩
  rw [Bytes.withWord16_withWord16 inside, Bytes.word16At_withWord16 inside]
  exact holds value

end Checksum

namespace Ipv4.Packet

variable {packet : Packet}

theorem setChecksum?_eq (long : Ipv4.headerLength ≤ packet.bytes.length) (value : UInt16) :
    packet.setChecksum? value = some ⟨packet.bytes.withWord16 10 value⟩ := by
  have inside : 10 + 2 ≤ packet.bytes.length := Nat.le_trans (by decide) long
  rw [setChecksum?, put?, Bytes.overwrite?_ofWord16 inside, Option.map_some]

theorem headerLength_withChecksum (long : Ipv4.headerLength ≤ packet.bytes.length)
    (value : UInt16) : headerLength ⟨packet.bytes.withWord16 10 value⟩ = packet.headerLength := by
  have inside : 10 + 2 ≤ packet.bytes.length := Nat.le_trans (by decide) long
  unfold headerLength
  dsimp only
  rw [Bytes.octet_withWord16_of_lt (by decide) inside]

theorem headerSum_adds (fits : packet.Fits) : ∃ rest, 0 < rest ∧ ∀ value : UInt16,
    (headerSum ⟨packet.bytes.withWord16 10 value⟩).toNat = Checksum.fold (rest + value.toNat) := by
  obtain ⟨long, header, order, within⟩ := fits
  have inside : 10 + 2 ≤ packet.bytes.length := Nat.le_trans (by decide) long
  have whole : 10 + 2 ≤ packet.headerLength := Nat.le_trans (by decide) header
  have covered : 10 + 2 ≤ (packet.bytes.take packet.headerLength).length := by
    rw [List.length_take_of_le (Nat.le_trans order within)]
    exact whole
  refine ⟨Checksum.wordSum (Bytes.withWord16 (packet.bytes.take packet.headerLength) 10 0), ?_, ?_⟩
  · apply @Checksum.wordSum_pos_of_octet _ 0
    rw [Bytes.octet_withWord16_of_lt (by decide) covered]
    rw [Bytes.octet_take_of_lt (by omega)]
    intro nothing
    rw [headerLength, nothing] at header
    exact absurd header (by decide)
  · intro value
    have short : (Bytes.withWord16 (packet.bytes.take packet.headerLength) 10 value).length ≤
        0x20000 := by
      rw [Bytes.withWord16_length covered, List.length_take]
      unfold headerLength
      omega
    rw [headerSum, headerLength_withChecksum long, Bytes.take_withWord16 inside whole,
      Checksum.sum_toNat short, Checksum.wordSum_withWord16 (by decide) covered]

theorem fillChecksum?_eq (fits : packet.Fits) : packet.fillChecksum? =
    some ⟨packet.bytes.withWord16 10
      (~~~ headerSum ⟨packet.bytes.withWord16 10 0⟩)⟩ := by
  obtain ⟨long, _, order, within⟩ := fits
  have inside : 10 + 2 ≤ packet.bytes.length := Nat.le_trans (by decide) long
  have length := Bytes.withWord16_length inside 0
  have room : headerLength ⟨packet.bytes.withWord16 10 0⟩ ≤
      (packet.bytes.withWord16 10 0).length := by
    rw [headerLength_withChecksum long, length]
    exact Nat.le_trans order within
  have again := @setChecksum?_eq ⟨packet.bytes.withWord16 10 0⟩ (by rw [length]; exact long)
  rw [fillChecksum?, setChecksum?_eq long, Option.bind_eq_bind, Option.bind_some, guard,
    if_pos room, again, Bytes.withWord16_withWord16 inside]
  rfl

theorem sealed_of_fits (fits : packet.Fits) : ∃ filled, packet.fillChecksum? = some filled ∧
    packet.setChecksum? filled.checksum = some filled ∧ filled.checksumHolds ∧
    ∀ value, ∃ changed, filled.setChecksum? value = some changed ∧
      (changed.checksumHolds ↔ value.toNat ≡ filled.checksum.toNat [MOD 0xffff]) := by
  obtain ⟨rest, something, adds⟩ := headerSum_adds fits
  have inside : 10 + 2 ≤ packet.bytes.length := Nat.le_trans (by decide) fits.1
  obtain ⟨holds, others⟩ := @Checksum.intact_withWord16 (fun bytes => headerSum ⟨bytes⟩) _ _ _
    inside something adds
  refine ⟨_, fillChecksum?_eq fits, ?_, beq_iff_eq.mpr holds, fun value => ?_⟩
  · rw [setChecksum?_eq fits.1, checksum, Bytes.word16At_withWord16 inside]
  refine ⟨_, setChecksum?_eq ?_ value, ?_⟩
  · rw [Bytes.withWord16_length inside]
    exact fits.1
  · rw [checksumHolds, beq_iff_eq]
    exact others value

end Ipv4.Packet

namespace Tcp.Packet

variable {packet : Packet}

theorem setChecksum?_eq (long : Tcp.headerLength ≤ packet.bytes.length) (value : UInt16) :
    packet.setChecksum? value = some ⟨packet.bytes.withWord16 16 value⟩ := by
  have inside : 16 + 2 ≤ packet.bytes.length := Nat.le_trans (by decide) long
  rw [setChecksum?, put?, Bytes.overwrite?_ofWord16 inside, Option.map_some]

theorem sum_adds (fits : packet.Fits) (short : packet.bytes.length ≤ 0x20000)
    (source destination : Ipv4.Address) : ∃ rest, 0 < rest ∧ ∀ value : UInt16,
      (sum ⟨packet.bytes.withWord16 16 value⟩ source destination).toNat =
        Checksum.fold (rest + value.toNat) := by
  obtain ⟨long, header, _⟩ := fits
  have inside : 16 + 2 ≤ packet.bytes.length := Nat.le_trans (by decide) long
  refine ⟨(pseudoHeaderSum source destination packet.bytes.length).toNat +
    Checksum.wordSum (packet.bytes.withWord16 16 0), ?_, ?_⟩
  · apply Nat.add_pos_right
    apply @Checksum.wordSum_pos_of_octet _ 12
    rw [Bytes.octet_withWord16_of_lt (by decide) inside]
    intro nothing
    rw [headerLength, nothing] at header
    exact absurd header (by decide)
  · intro value
    rw [sum_toNat _ _ _ (by rw [Bytes.withWord16_length inside]; exact short)]
    dsimp only
    rw [Bytes.withWord16_length inside, Checksum.wordSum_withWord16 (by decide) inside,
      Nat.add_assoc]

theorem fillChecksum?_eq (long : Tcp.headerLength ≤ packet.bytes.length)
    (source destination : Ipv4.Address) : packet.fillChecksum? source destination =
      some ⟨packet.bytes.withWord16 16
        (~~~ sum ⟨packet.bytes.withWord16 16 0⟩ source destination)⟩ := by
  have inside : 16 + 2 ≤ packet.bytes.length := Nat.le_trans (by decide) long
  have length := Bytes.withWord16_length inside 0
  have again := @setChecksum?_eq ⟨packet.bytes.withWord16 16 0⟩ (by rw [length]; exact long)
  rw [fillChecksum?, setChecksum?_eq long, Option.bind_eq_bind, Option.bind_some, again,
    Bytes.withWord16_withWord16 inside]

theorem sealed_of_fits (fits : packet.Fits) (short : packet.bytes.length ≤ 0x20000)
    (source destination : Ipv4.Address) :
    ∃ filled, packet.fillChecksum? source destination = some filled ∧
      packet.setChecksum? filled.checksum = some filled ∧
      filled.checksumHolds source destination ∧
      ∀ value, ∃ changed, filled.setChecksum? value = some changed ∧
        (changed.checksumHolds source destination ↔
          value.toNat ≡ filled.checksum.toNat [MOD 0xffff]) := by
  obtain ⟨rest, something, adds⟩ := sum_adds fits short source destination
  have inside : 16 + 2 ≤ packet.bytes.length := Nat.le_trans (by decide) fits.1
  obtain ⟨holds, others⟩ := @Checksum.intact_withWord16
    (fun bytes => sum ⟨bytes⟩ source destination) _ _ _ inside something adds
  refine ⟨_, fillChecksum?_eq fits.1 source destination, ?_, beq_iff_eq.mpr holds,
    fun value => ?_⟩
  · rw [setChecksum?_eq fits.1, checksum, Bytes.word16At_withWord16 inside]
  refine ⟨_, setChecksum?_eq ?_ value, ?_⟩
  · rw [Bytes.withWord16_length inside]
    exact fits.1
  · rw [checksumHolds, beq_iff_eq]
    exact others value

end Tcp.Packet

namespace Checksum

/-- The checksum of a byte string that is not too long is counted without an overflow, and it is the
    sum of the words modulo 0xffff. Filled into a packet it holds, and what holds in its place is
    congruent to it. -/
theorem sums_modulo_and_seals :
    (∀ bytes : Bytes, bytes.length ≤ 0x20000 →
      Machine.sum bytes = some (sum bytes) ∧ (sum bytes).toNat ≤ 0xffff ∧
      (sum bytes).toNat ≡ wordSum bytes [MOD 0xffff] ∧
      (sum bytes = 0 → ∀ octet ∈ bytes, octet = 0) ∧
      ∀ cut, cut % 2 = 0 →
        Machine.combine [sum (bytes.take cut), sum (bytes.drop cut)] = some (sum bytes)) ∧
    (∀ packet : Ipv4.Packet, packet.Fits → ∃ filled, packet.fillChecksum? = some filled ∧
      packet.setChecksum? filled.checksum = some filled ∧ filled.checksumHolds ∧
      ∀ value, ∃ changed, filled.setChecksum? value = some changed ∧
        (changed.checksumHolds ↔ value.toNat ≡ filled.checksum.toNat [MOD 0xffff])) ∧
    ∀ packet : Tcp.Packet, packet.Fits → packet.bytes.length ≤ 0x20000 →
      ∀ source destination, ∃ filled, packet.fillChecksum? source destination = some filled ∧
        packet.setChecksum? filled.checksum = some filled ∧
        filled.checksumHolds source destination ∧
        ∀ value, ∃ changed, filled.setChecksum? value = some changed ∧
          (changed.checksumHolds source destination ↔
            value.toNat ≡ filled.checksum.toNat [MOD 0xffff]) := by
  refine ⟨fun bytes short => ?_, fun packet fits => Ipv4.Packet.sealed_of_fits fits,
    fun packet fits short => Tcp.Packet.sealed_of_fits fits short⟩
  have counted := sum_toNat short
  refine ⟨Machine.sum_eq short, ?_, ?_, fun nothing => ?_, fun cut even => ?_⟩
  · rw [counted]
    exact fold_le _
  · rw [counted]
    exact fold_modEq _
  · rw [nothing, UInt16.toNat_zero] at counted
    exact wordSum_eq_zero_iff.mp (fold_eq_zero_iff.mp counted.symm)
  · rw [Machine.combine_eq (by simp), combine_take_drop short even]

theorem sums_modulo_and_seals_odd :
    let header : Ipv4.Packet :=
      ⟨[0x45, 0, 0, 21, 0, 0, 0x40, 0, 64, 6, 1, 2, 10, 0, 0, 1, 10, 0, 0, 2, 7]⟩
    let segment : Tcp.Packet :=
      ⟨[0, 80, 0, 90, 0, 0, 0, 1, 0, 0, 0, 0, 0x50, 2, 0, 4, 0, 0, 0, 0, 7]⟩
    Machine.sum [0xff, 0xff, 0x02] = some (sum [0xff, 0xff, 0x02]) ∧
    (sum [0xff, 0xff, 0x02]).toNat ≡ wordSum [0xff, 0xff, 0x02] [MOD 0xffff] ∧
    Machine.combine [sum [0xff, 0xff], sum [0x02]] = some (sum [0xff, 0xff, 0x02]) ∧
    (∃ filled, header.fillChecksum? = some filled ∧ filled.checksumHolds) ∧
    ∃ filled, segment.fillChecksum? (.ofOctets 10 0 0 1) (.ofOctets 10 0 0 2) = some filled ∧
      filled.checksumHolds (.ofOctets 10 0 0 1) (.ofOctets 10 0 0 2) := by
  intro header segment
  obtain ⟨strings, headers, segments⟩ := sums_modulo_and_seals
  obtain ⟨counted, _, residue, _, parts⟩ := strings [0xff, 0xff, 0x02] (by decide)
  obtain ⟨filled, written, _, holds, _⟩ := headers header (by decide)
  obtain ⟨filled', written', _, holds', _⟩ := segments segment (by decide) (by decide)
    (.ofOctets 10 0 0 1) (.ofOctets 10 0 0 2)
  exact ⟨counted, residue, parts 2 rfl, ⟨filled, written, holds⟩, filled', written', holds'⟩

end Checksum

end NetStack
