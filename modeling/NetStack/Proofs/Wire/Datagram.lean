import NetStack.Ipv4.Datagram
import NetStack.Proofs.Wire.OnesComplement

namespace NetStack.Ipv4

namespace Packet

section Image

variable (header : Header) (checksum : UInt16) (rest : Bytes)

theorem image_append : header.image checksum ++ rest = [0x45, 0] ++
    (Bytes.ofWord16 (.ofNat (Ipv4.headerLength + header.payloadLength)) ++ (Bytes.ofWord16 0 ++
      (Bytes.ofWord16 0x4000 ++ ([header.hopLimit, header.protocol.code] ++
        (Bytes.ofWord16 checksum ++ (Bytes.ofWord32 header.source.bits ++
          (Bytes.ofWord32 header.destination.bits ++ rest))))))) := by
  simp only [Header.image, Address.octets, List.append_assoc]

theorem version_image : version ⟨header.image checksum ++ rest⟩ = 4 := by
  simp [version, image_append]

theorem headerLength_image :
    headerLength ⟨header.image checksum ++ rest⟩ = Ipv4.headerLength := by
  simp [headerLength, image_append, Ipv4.headerLength]

theorem totalLength_image : totalLength ⟨header.image checksum ++ rest⟩ =
    (Ipv4.headerLength + header.payloadLength) % 0x10000 := by
  simp [totalLength, image_append]

theorem isFragment_image : isFragment ⟨header.image checksum ++ rest⟩ = false := by
  have word : fragmentWord ⟨header.image checksum ++ rest⟩ = 0x4000 := by
    simp [fragmentWord, image_append]
  rw [isFragment, word]
  rfl

theorem hopLimit_image : hopLimit ⟨header.image checksum ++ rest⟩ = header.hopLimit := by
  simp [hopLimit, image_append]

theorem protocol_image : protocol ⟨header.image checksum ++ rest⟩ = header.protocol := by
  simp [protocol, image_append]

theorem source_image : source ⟨header.image checksum ++ rest⟩ = header.source := by
  simp [source, image_append]

theorem destination_image :
    destination ⟨header.image checksum ++ rest⟩ = header.destination := by
  simp [destination, image_append]

theorem headerSum_image :
    headerSum ⟨header.image checksum ++ rest⟩ = Checksum.sum (header.image checksum) := by
  unfold headerSum
  rw [headerLength_image, List.take_left']
  rfl

end Image

end Packet

namespace Header

variable (header : Header)

theorem wordSum_image (checksum : UInt16) : Checksum.wordSum (header.image checksum) =
    Checksum.wordSum (header.image 0) + checksum.toNat := by
  simp only [image, Checksum.wordSum_append, List.length_append, List.length_cons, List.length_nil,
    Bytes.ofWord16_length, Address.octets_length, Checksum.wordSum_ofWord16]
  rw [UInt16.toNat_zero]
  omega

theorem sum_image_filled :
    Checksum.sum (header.image (~~~ Checksum.sum (header.image 0))) = Checksum.intact := by
  have short (checksum : UInt16) : (header.image checksum).length ≤ 0x20000 := by
    rw [image_length]
    decide
  apply UInt16.toNat.inj
  -- the sum with the checksum is the one without it and its complement
  rw [Checksum.sum_toNat (short _), wordSum_image, Checksum.complement_toNat,
    Checksum.sum_toNat (short 0), Checksum.fold_add_complement]
  rfl

end Header

namespace Datagram

variable {datagram : Datagram}

theorem toBytes_of_le (short : datagram.length ≤ maxLength)
    (policy : Checksum.Policy) :
    datagram.toBytes policy = .ok (datagram.header.toBytes policy ++ datagram.payload) :=
  if_pos short

theorem toBytes_of_lt (long : maxLength < datagram.length)
    (policy : Checksum.Policy) : datagram.toBytes policy = .error ⟨datagram.length⟩ :=
  if_neg (Nat.not_le_of_lt long)

theorem ofBytes?_image (short : datagram.length ≤ maxLength)
    (checksum : UInt16) (policy : Checksum.Policy) (tail : Bytes)
    (intact : policy.ipv4.verifies → Checksum.sum (datagram.header.image checksum) = Checksum.intact) :
    ofBytes? policy (datagram.header.image checksum ++ (datagram.payload ++ tail)) =
      some datagram := by
  have declared : (Ipv4.headerLength + datagram.header.payloadLength) % 0x10000 =
      datagram.length := by
    apply Nat.mod_eq_of_lt
    exact Nat.lt_succ_of_le short
  have shape : (Packet.mk (datagram.header.image checksum ++ (datagram.payload ++ tail))).payload =
      datagram.payload := by
    unfold Packet.payload
    rw [Packet.totalLength_image, Packet.headerLength_image, declared, ← List.append_assoc,
      List.take_left' (by simp [length]), List.drop_left' (by simp)]
  have fits : (Packet.mk (datagram.header.image checksum ++ (datagram.payload ++ tail))).Fits := by
    unfold Packet.Fits
    rw [Packet.totalLength_image, Packet.headerLength_image, declared]
    simp only [List.length_append, Header.image_length, length]
    omega
  have holds : policy.ipv4.verifies → (Packet.mk (datagram.header.image checksum ++
      (datagram.payload ++ tail))).checksumHolds = true := by
    intro verifies
    unfold Packet.checksumHolds
    rw [Packet.headerSum_image, intact verifies]
    rfl
  unfold ofBytes? Packet.header?
  dsimp only
  rw [if_pos ⟨fits, Packet.version_image .., holds, by simp [Packet.isFragment_image]⟩]
  simp only [Option.map_some, shape, Packet.source_image, Packet.destination_image,
    Packet.protocol_image, Packet.hopLimit_image]
  rfl

theorem ofBytes?_toBytes {outgoing incoming : Checksum.Policy} {bytes : Bytes}
    (written : datagram.toBytes outgoing = .ok bytes)
    (checked : incoming.ipv4.verifies → outgoing.ipv4.computes) (tail : Bytes) :
    ofBytes? incoming (bytes ++ tail) = some datagram := by
  by_cases short : datagram.length ≤ maxLength
  · rw [toBytes_of_le short] at written
    cases written
    rw [List.append_assoc]
    unfold Header.toBytes
    split
    · exact ofBytes?_image short _ incoming tail fun _ => datagram.header.sum_image_filled
    · rename_i unfilled
      exact ofBytes?_image short 0 incoming tail fun verifies => absurd (checked verifies) unfilled
  · rw [toBytes_of_lt (Nat.lt_of_not_le short)] at written
    cases written

end Datagram

end NetStack.Ipv4
