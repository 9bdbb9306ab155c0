import NetStack.Proofs.Machine.Intake
import NetStack.Proofs.Wire.Reproduction
import NetStack.Proofs.Wire.Residue

namespace NetStack

namespace Bytes

/-- Other octets stand in an aligned word, or in an odd last octet. Where all of a word is changed,
    it is not from zero to all ones or back, which are the same to a sum. -/
structure AltersWord (bytes : Bytes) (start : Nat) (altered : Bytes) : Prop where
  length : altered.length = bytes.length
  aligned : start % 2 = 0
  elsewhere : ∀ index, index ≠ start → index ≠ start + 1 →
    altered.octet index = bytes.octet index
  differs : altered ≠ bytes
  not_raised : ¬ (bytes.word16At start = 0 ∧ altered.word16At start = 0xffff)
  not_cleared : ¬ (bytes.word16At start = 0xffff ∧ altered.word16At start = 0)

/-- The octets with one bit turned over, counted from the lowest of its octet. -/
def flip (bytes : Bytes) (index bit : Nat) : Bytes :=
  bytes.set index (bytes.octet index ^^^ UInt8.ofNat (2 ^ bit))

variable {bytes altered : Bytes} {start : Nat}

theorem ext_octet (length : altered.length = bytes.length)
    (same : ∀ index, altered.octet index = bytes.octet index) : altered = bytes := by
  apply List.ext_getElem length
  intro index left right
  have octets := same index
  rw [octet_eq, octet_eq, List.getElem?_eq_getElem left, List.getElem?_eq_getElem right] at octets
  exact octets

theorem octet_drop (bytes : Bytes) (count index : Nat) :
    octet (bytes.drop count) index = bytes.octet (count + index) := by
  rw [octet_eq, octet_eq, List.getElem?_drop]

theorem octet_set {index : Nat} (inside : index < bytes.length) (octet : UInt8) (other : Nat) :
    Bytes.octet (bytes.set index octet) other =
      if other = index then octet else bytes.octet other := by
  rw [octet_eq, octet_eq, List.getElem?_set]
  by_cases same : index = other
  · rw [if_pos same, if_pos (same ▸ inside), if_pos same.symm, Option.getD_some]
  · rw [if_neg same, if_neg (Ne.symm same)]

theorem word16_inj {high low high' low' : UInt8} :
    word16 high low = word16 high' low' ↔ high = high' ∧ low = low' := by
  constructor
  · intro same
    have octets := congrArg ofWord16 same
    rw [ofWord16_word16, ofWord16_word16] at octets
    simpa using octets
  · rintro ⟨rfl, rfl⟩
    rfl

theorem not_zero_and_ones {high low high' low' : UInt8} (shared : high = high' ∨ low = low') :
    ¬ (word16 high low = 0 ∧ word16 high' low' = 0xffff) := by
  rintro ⟨clear, full⟩
  have zero : high = 0 ∧ low = 0 := word16_inj.mp clear
  have ones : high' = 0xff ∧ low' = 0xff := word16_inj.mp full
  rw [zero.1, zero.2, ones.1, ones.2] at shared
  exact absurd shared (by decide)

theorem AltersWord.word_ne (alters : bytes.AltersWord start altered) :
    altered.word16At start ≠ bytes.word16At start := by
  intro same
  obtain ⟨high, low⟩ := word16_inj.mp same
  apply alters.differs
  apply ext_octet alters.length
  intro index
  by_cases first : index = start
  · rw [first, high]
  · by_cases second : index = start + 1
    · rw [second, low]
    · exact alters.elsewhere index first second

theorem altersWord_set {index : Nat} {octet : UInt8} (inside : index < bytes.length)
    (other : octet ≠ bytes.octet index) :
    bytes.AltersWord (index - index % 2) (bytes.set index octet) := by
  have at_index : Bytes.octet (bytes.set index octet) index = octet := by
    rw [octet_set inside, if_pos rfl]
  have elsewhere {position : Nat} (away : position ≠ index) :
      Bytes.octet (bytes.set index octet) position = bytes.octet position := by
    rw [octet_set inside, if_neg away]
  -- the octet of the word that is not at the index is the same in both
  have kept : Bytes.octet (bytes.set index octet) (index - index % 2) =
      bytes.octet (index - index % 2) ∨ Bytes.octet (bytes.set index octet)
        (index - index % 2 + 1) = bytes.octet (index - index % 2 + 1) := by
    by_cases even : index % 2 = 0
    · exact .inr (elsewhere (by omega))
    · exact .inl (elsewhere (by omega))
  constructor
  · exact List.length_set
  · omega
  · intro position first second
    exact elsewhere (by omega)
  · intro same
    rw [same] at at_index
    exact other at_index.symm
  · exact not_zero_and_ones (kept.imp Eq.symm Eq.symm)
  · exact fun ⟨full, clear⟩ => not_zero_and_ones kept ⟨clear, full⟩

theorem altersWord_flip {index bit : Nat} (inside : index < bytes.length) (small : bit < 8) :
    bytes.AltersWord (index - index % 2) (bytes.flip index bit) := by
  apply altersWord_set inside
  intro same
  have nothing : UInt8.ofNat (2 ^ bit) = 0 := by
    rw [← UInt8.xor_right_inj (bytes.octet index), same, UInt8.xor_zero]
  have bits : ∀ bit < 8, UInt8.ofNat (2 ^ bit) ≠ 0 := by decide
  exact bits bit small nothing

end Bytes

namespace Checksum

theorem wordSum_eq_word_add (bytes : Bytes) :
    wordSum bytes = (bytes.word16At 0).toNat + wordSum (bytes.drop 2) := by
  rcases bytes with _ | ⟨high, _ | ⟨low, rest⟩⟩
  · rfl
  · have word : Bytes.word16At [high] 0 = Bytes.word16 high 0 := rfl
    rw [word, Bytes.word16_toNat]
    rfl
  · have word : Bytes.word16At (high :: low :: rest) 0 = Bytes.word16 high low := rfl
    rw [word, Bytes.word16_toNat, wordSum_cons_cons]
    rfl

theorem wordSum_altered {bytes altered : Bytes} {start : Nat}
    (length : altered.length = bytes.length) (aligned : start % 2 = 0)
    (elsewhere : ∀ index, index ≠ start → index ≠ start + 1 →
      altered.octet index = bytes.octet index) :
    wordSum altered + (bytes.word16At start).toNat =
      wordSum bytes + (altered.word16At start).toNat := by
  obtain ⟨words, rfl⟩ : ∃ words, start = 2 * words := ⟨start / 2, by omega⟩
  induction words generalizing bytes altered with
  | zero =>
    have behind : altered.drop 2 = bytes.drop 2 := by
      apply Bytes.ext_octet (by rw [List.length_drop, List.length_drop, length])
      intro index
      rw [Bytes.octet_drop, Bytes.octet_drop]
      exact elsewhere _ (by omega) (by omega)
    rw [wordSum_eq_word_add bytes, wordSum_eq_word_add altered, behind, Nat.mul_zero]
    omega
  | succ words ih =>
    have first : altered.word16At 0 = bytes.word16At 0 := by
      rw [Bytes.word16At, Bytes.word16At, elsewhere 0 (by omega) (by omega),
        elsewhere (0 + 1) (by omega) (by omega)]
    have later (octets : Bytes) : Bytes.word16At (octets.drop 2) (2 * words) =
        octets.word16At (2 * (words + 1)) := by
      rw [Bytes.word16At, Bytes.word16At, Bytes.octet_drop, Bytes.octet_drop, Nat.mul_add_one,
        Nat.add_comm 2, Nat.add_right_comm, Nat.add_comm 2]
    have length' : (altered.drop 2).length = (bytes.drop 2).length := by
      rw [List.length_drop, List.length_drop, length]
    have rest := ih length' (by omega) fun index high low => by
      rw [Bytes.octet_drop, Bytes.octet_drop]
      exact elsewhere (2 + index) (by omega) (by omega)
    rw [later, later] at rest
    rw [wordSum_eq_word_add bytes, wordSum_eq_word_add altered, first]
    omega

theorem not_modEq_of_altersWord {bytes altered : Bytes} {start : Nat}
    (alters : bytes.AltersWord start altered) :
    ¬ wordSum altered ≡ wordSum bytes [MOD 0xffff] := by
  have sums := wordSum_altered alters.length alters.aligned alters.elsewhere
  have distinct : (altered.word16At start).toNat ≠ (bytes.word16At start).toNat := fun same =>
    alters.word_ne (UInt16.toNat.inj same)
  have raised : ¬ ((bytes.word16At start).toNat = 0 ∧ (altered.word16At start).toNat = 0xffff) :=
    fun ⟨clear, full⟩ => alters.not_raised ⟨UInt16.toNat.inj clear, UInt16.toNat.inj full⟩
  have cleared : ¬ ((bytes.word16At start).toNat = 0xffff ∧ (altered.word16At start).toNat = 0) :=
    fun ⟨full, clear⟩ => alters.not_cleared ⟨UInt16.toNat.inj full, UInt16.toNat.inj clear⟩
  have before := (bytes.word16At start).toNat_lt
  have after := (altered.word16At start).toNat_lt
  unfold Nat.ModEq
  omega

end Checksum

namespace Tcp

theorem Packet.not_checksumHolds_altered {bytes altered : Bytes} {start : Nat}
    {source destination : Ipv4.Address} (short : bytes.length ≤ 0x20000)
    (holds : checksumHolds ⟨bytes⟩ source destination)
    (alters : bytes.AltersWord start altered) : ¬ checksumHolds ⟨altered⟩ source destination := by
  intro holds'
  have whole := sum_toNat ⟨bytes⟩ source destination short
  have whole' := sum_toNat ⟨altered⟩ source destination (by rw [alters.length]; exact short)
  dsimp only at whole whole'
  rw [beq_iff_eq.mp holds] at whole
  rw [beq_iff_eq.mp holds', alters.length] at whole'
  obtain ⟨_, multiple⟩ := Checksum.fold_eq_ones_iff.mp whole.symm
  obtain ⟨_, multiple'⟩ := Checksum.fold_eq_ones_iff.mp whole'.symm
  apply Checksum.not_modEq_of_altersWord alters
  unfold Nat.ModEq
  omega

namespace Binding

variable {binding : Binding} {datagram : Ipv4.Datagram}

theorem accept_of_not_checksumHolds (verifies : binding.policy.tcp.verifies)
    (broken : ¬ Packet.checksumHolds ⟨datagram.payload⟩ datagram.source datagram.destination) :
    binding.accept datagram = (none, binding) := by
  rcases binding.accept_cases datagram with ⟨segment, admits, _⟩ | refused
  · obtain ⟨_, _, holds⟩ := Packet.carried_of_segment? admits.read
    exact absurd (holds verifies) broken
  · exact refused

theorem parcel_checksumHolds (computes : binding.policy.tcp.computes) (peer : Ipv4.Endpoint)
    {segment : Segment} (short : segment.payload.length ≤ longestPayload) :
    Packet.checksumHolds ⟨(binding.parcel peer segment).payload⟩ binding.own.address
      peer.address := by
  have bound : (segment.between binding.own peer).payload.length ≤ 0xffff :=
    Nat.le_trans short (by decide)
  unfold parcel
  rw [Segment.toBytes_eq, Segment.sentChecksum, if_pos computes]
  exact Segment.checksumHolds_filled _ _ _ bound

/-- What one binding sends arrives at the other. Once a word of it is altered, the other refuses it
    and stays as it is, and that is so for every single bit. -/
theorem corrupted_refused (sender receiver : Binding) (known : sender.peer = some receiver.own)
    (senderSet : sender.own.port ≠ 0) (receiverSet : receiver.own.port ≠ 0)
    (computes : sender.policy.tcp.computes) (verifies : receiver.policy.tcp.verifies)
    (segment : Segment) (short : segment.payload.length ≤ longestPayload) :
    ∃ datagram, sender.enclose? segment = some datagram ∧
      (receiver.arriving? datagram).isSome ∧
      (∀ start altered, datagram.payload.AltersWord start altered →
        Machine.accept receiver { datagram with payload := altered } = some (none, receiver) ∧
        receiver.accept { datagram with payload := altered } = (none, receiver)) ∧
      ∀ index < datagram.payload.length, ∀ bit < 8,
        receiver.accept { datagram with payload := datagram.payload.flip index bit } =
          (none, receiver) := by
  have length : (sender.parcel receiver.own segment).payload.length ≤ 0x20000 := by
    have fits := (sender.parcel_length_le receiver.own segment).mpr short
    unfold Ipv4.Datagram.length Ipv4.Datagram.maxLength at fits
    omega
  have refused {start : Nat} {altered : Bytes}
      (alters : (sender.parcel receiver.own segment).payload.AltersWord start altered) :
      receiver.accept { sender.parcel receiver.own segment with payload := altered } =
        (none, receiver) :=
    accept_of_not_checksumHolds verifies
      (Packet.not_checksumHolds_altered length (parcel_checksumHolds computes _ short) alters)
  refine ⟨_, enclose?_eq_parcel known segment, ?_, fun start altered alters => ?_,
    fun index inside bit small => refused (Bytes.altersWord_flip inside small)⟩
  · rw [arriving?_parcel sender receiver senderSet receiverSet short fun _ => computes]
    rfl
  · rw [Machine.accept_eq receiver (Nat.le_trans (Nat.le_of_eq alters.length) length),
      refused alters]
    exact ⟨rfl, rfl⟩

theorem corrupted_refused_twice :
    let sender : Binding :=
      { own := ⟨.ofOctets 10 0 0 1, 49152⟩, peer := some ⟨.ofOctets 10 0 0 2, 80⟩ }
    let receiver : Binding := { own := ⟨.ofOctets 10 0 0 2, 80⟩ }
    let segment : Segment := { seqno := ⟨7⟩, flags := { syn := true }, payload := [1, 2, 3] }
    ∃ datagram, sender.enclose? segment = some datagram ∧ (receiver.arriving? datagram).isSome ∧
      Machine.accept receiver { datagram with payload := datagram.payload.set 22 4 } =
        some (none, receiver) ∧
      receiver.accept { datagram with payload := datagram.payload.flip 12 6 } =
        (none, receiver) := by
  intro sender receiver segment
  obtain ⟨datagram, enclosed, arrives, altered, flipped⟩ := corrupted_refused sender receiver rfl
    (by decide) (by decide) rfl rfl segment (by decide)
  have length : datagram.payload.length = 23 := by
    cases enclosed
    rfl
  have last : datagram.payload.octet 22 = 3 := by
    cases enclosed
    rfl
  have other : (4 : UInt8) ≠ datagram.payload.octet 22 := by
    rw [last]
    decide
  have alters := Bytes.altersWord_set (by omega) other
  exact ⟨datagram, enclosed, arrives, (altered _ _ alters).1,
    flipped 12 (by omega) 6 (by decide)⟩

end Binding

end Tcp

end NetStack
