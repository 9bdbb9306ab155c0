import NetStack.Proofs.Wire.OnesComplement
import NetStack.Tcp.Packet

namespace NetStack.Tcp

namespace Packet

section Image

variable (segment : Segment) (checksum : UInt16) (rest : Bytes)

theorem image_append : segment.headerImage checksum ++ rest =
    Bytes.ofWord16 segment.sourcePort ++ (Bytes.ofWord16 segment.destinationPort ++
      (Bytes.ofWord32 segment.seqno.value ++ (Bytes.ofWord32 segment.ackno.value ++
        ([0x50, segment.flags.toByte] ++ (Bytes.ofWord16 segment.window ++
          (Bytes.ofWord16 checksum ++ (Bytes.ofWord16 segment.urgent ++ rest))))))) := by
  simp only [Segment.headerImage, List.append_assoc]

theorem sourcePort_image :
    sourcePort ⟨segment.headerImage checksum ++ rest⟩ = segment.sourcePort := by
  simp [sourcePort, image_append]

theorem destinationPort_image :
    destinationPort ⟨segment.headerImage checksum ++ rest⟩ = segment.destinationPort := by
  simp [destinationPort, image_append]

theorem seqno_image : seqno ⟨segment.headerImage checksum ++ rest⟩ = segment.seqno := by
  simp [seqno, image_append]

theorem ackno_image : ackno ⟨segment.headerImage checksum ++ rest⟩ = segment.ackno := by
  simp [ackno, image_append]

theorem headerLength_image :
    headerLength ⟨segment.headerImage checksum ++ rest⟩ = Tcp.headerLength := by
  simp [headerLength, image_append, Tcp.headerLength]

theorem flags_image : flags ⟨segment.headerImage checksum ++ rest⟩ = segment.flags := by
  simp [flags, image_append, Flags.ofByte_toByte]

theorem window_image : window ⟨segment.headerImage checksum ++ rest⟩ = segment.window := by
  simp [window, image_append]

theorem checksum_image : Packet.checksum ⟨segment.headerImage checksum ++ rest⟩ = checksum := by
  simp [Packet.checksum, image_append]

theorem urgent_image : urgent ⟨segment.headerImage checksum ++ rest⟩ = segment.urgent := by
  simp [urgent, image_append]

theorem payload_image : payload ⟨segment.headerImage checksum ++ rest⟩ = rest := by
  rw [payload, headerLength_image, List.drop_left' (by simp)]

theorem fits_image : Fits ⟨segment.headerImage checksum ++ rest⟩ := by
  unfold Fits
  rw [headerLength_image]
  simp

end Image

theorem segment?_image {segment : Segment} (sourceSet : segment.sourcePort ≠ 0)
    (destinationSet : segment.destinationPort ≠ 0) (checksum : UInt16)
    {source destination : Ipv4.Address} {policy : Checksum.Policy}
    (holds : policy.tcp.verifies →
      checksumHolds ⟨segment.headerImage checksum ++ segment.payload⟩ source destination) :
    segment? ⟨segment.headerImage checksum ++ segment.payload⟩ source destination policy =
      some { segment with checksum } := by
  unfold segment?
  rw [sourcePort_image, destinationPort_image, seqno_image, ackno_image, flags_image, window_image,
    checksum_image, urgent_image, payload_image,
    if_pos ⟨fits_image .., sourceSet, destinationSet, holds⟩]

theorem sum_toNat (packet : Packet) (source destination : Ipv4.Address)
    (bound : packet.bytes.length ≤ 0x20000) :
    (packet.sum source destination).toNat =
      Checksum.fold ((pseudoHeaderSum source destination packet.bytes.length).toNat +
        Checksum.wordSum packet.bytes) := by
  rw [sum, Checksum.combine_toNat, Checksum.sum_toNat bound, Checksum.fold_add_fold]

end Packet

namespace Segment

variable (segment : Segment)

theorem wordSum_headerImage (checksum : UInt16) (rest : Bytes) :
    Checksum.wordSum (segment.headerImage checksum ++ rest) =
      Checksum.wordSum (segment.headerImage 0 ++ rest) + checksum.toNat := by
  have even (filled : UInt16) : (segment.headerImage filled).length % 2 = 0 := by
    rw [headerImage_length]
    rfl
  have image : Checksum.wordSum (segment.headerImage checksum) =
      Checksum.wordSum (segment.headerImage 0) + checksum.toNat := by
    simp only [headerImage, Checksum.wordSum_append, List.length_append, List.length_cons,
      List.length_nil, Bytes.ofWord16_length, Bytes.ofWord32_length, Checksum.wordSum_ofWord16]
    rw [UInt16.toNat_zero]
    omega
  rw [Checksum.wordSum_append (even checksum), Checksum.wordSum_append (even 0), image]
  omega

theorem checksumHolds_filled (source destination : Ipv4.Address)
    (bound : segment.payload.length ≤ 0xffff) :
    Packet.checksumHolds ⟨segment.headerImage
      (~~~ Packet.sum ⟨segment.headerImage 0 ++ segment.payload⟩ source destination) ++
        segment.payload⟩ source destination := by
  have short (checksum : UInt16) :
      (segment.headerImage checksum ++ segment.payload).length ≤ 0x20000 := by
    rw [List.length_append, headerImage_length, headerLength]
    omega
  have same (checksum : UInt16) : (segment.headerImage checksum ++ segment.payload).length =
      (segment.headerImage 0 ++ segment.payload).length := by
    simp
  have total (checksum : UInt16) :
      (Packet.sum ⟨segment.headerImage checksum ++ segment.payload⟩ source destination).toNat =
        Checksum.fold ((pseudoHeaderSum source destination
          (segment.headerImage 0 ++ segment.payload).length).toNat +
            Checksum.wordSum (segment.headerImage 0 ++ segment.payload) + checksum.toNat) := by
    rw [Packet.sum_toNat _ _ _ (short checksum)]
    dsimp only
    rw [same, wordSum_headerImage, Nat.add_assoc]
  -- what is filled in is the complement of the sum that it is added to, whatever that was
  have blank := total 0
  rw [UInt16.toNat_zero, Nat.add_zero] at blank
  unfold Packet.checksumHolds
  rw [beq_iff_eq]
  apply UInt16.toNat.inj
  rw [total, Checksum.complement_toNat, blank, Checksum.fold_add_complement]
  rfl

def sentChecksum (source destination : Ipv4.Address) (policy : Checksum.Policy) : UInt16 :=
  if policy.tcp.computes then
    ~~~ Packet.sum ⟨segment.headerImage 0 ++ segment.payload⟩ source destination
  else 0

theorem toBytes_eq (source destination : Ipv4.Address) (policy : Checksum.Policy) :
    segment.toBytes source destination policy =
      segment.headerImage (segment.sentChecksum source destination policy) ++ segment.payload := by
  unfold toBytes sentChecksum
  split <;> rfl

theorem toBytes_length (source destination : Ipv4.Address) (policy : Checksum.Policy) :
    (segment.toBytes source destination policy).length = segment.wireLength := by
  rw [toBytes_eq, List.length_append, headerImage_length]
  rfl

variable {segment}

theorem segment?_toBytes (sourceSet : segment.sourcePort ≠ 0)
    (destinationSet : segment.destinationPort ≠ 0) (bound : segment.payload.length ≤ 0xffff)
    {outgoing incoming : Checksum.Policy} (checked : incoming.tcp.verifies → outgoing.tcp.computes)
    (source destination : Ipv4.Address) :
    Packet.segment? ⟨segment.toBytes source destination outgoing⟩ source destination incoming =
      some { segment with checksum := segment.sentChecksum source destination outgoing } := by
  rw [toBytes_eq]
  apply Packet.segment?_image sourceSet destinationSet
  intro verifies
  unfold sentChecksum
  rw [if_pos (checked verifies)]
  exact segment.checksumHolds_filled source destination bound

end Segment

end NetStack.Tcp
