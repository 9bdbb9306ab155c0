import NetStack.Proofs.Machine.Format
import NetStack.Proofs.Wire.Segment

namespace NetStack

theorem Checksum.complement_of_fold {total word : Nat} (something : 0 < total)
    (canonical : word < 0xffff) (intact : fold (total + word) = 0xffff) :
    0xffff - fold total = word := by
  unfold fold at *
  rw [if_neg (by omega)] at *
  omega

theorem Bytes.exists_front {bytes : Bytes} {count : Nat} (long : count ≤ bytes.length) :
    ∃ front rest, bytes = front ++ rest ∧ front.length = count :=
  ⟨bytes.take count, bytes.drop count, (List.take_append_drop count bytes).symm,
    List.length_take_of_le long⟩

theorem Bytes.overwrite?_whole {bytes patch : Bytes} (same : patch.length = bytes.length) :
    bytes.overwrite? 0 patch = some patch := by
  simp [overwrite?, same]

namespace Tcp

theorem Flags.toByte_ofByte {octet : UInt8} (clear : octet.toNat < 0x40) :
    (ofByte octet).toByte = octet := by
  have all : ∀ bits < 0x40, (ofByte (.ofNat bits)).toByte.toNat = bits := by decide
  apply UInt8.toNat.inj
  simpa using all octet.toNat clear

theorem Segment.wordSum_pos (segment : Segment) (rest : Bytes) :
    0 < Checksum.wordSum (segment.headerImage 0 ++ rest) := by
  have even : (segment.headerImage 0).length % 2 = 0 := by
    rw [headerImage_length]
    rfl
  rw [Checksum.wordSum_append even]
  simp only [headerImage, Checksum.wordSum_append, List.length_append, List.length_cons,
    List.length_nil, Bytes.ofWord16_length, Bytes.ofWord32_length, Checksum.wordSum_cons_cons]
  have offset : (0x50 : UInt8).toNat = 0x50 := rfl
  omega

namespace Packet

/-- A header without options whose reserved bits are clear. -/
structure Plain (packet : Packet) : Prop where
  offset : packet.headerLength = Tcp.headerLength
  low : (packet.bytes.octet 12).toNat % 0x10 = 0
  high : (packet.bytes.octet 13).toNat < 0x40

def carried (packet : Packet) : Segment where
  sourcePort := packet.sourcePort
  destinationPort := packet.destinationPort
  seqno := packet.seqno
  ackno := packet.ackno
  flags := packet.flags
  window := packet.window
  urgent := packet.urgent
  checksum := packet.checksum
  payload := packet.payload

variable {packet : Packet} {segment : Segment} {source destination : Ipv4.Address}
  {policy : Checksum.Policy}

theorem carried_of_segment? (read : packet.segment? source destination policy = some segment) :
    segment = packet.carried ∧ packet.Fits ∧
      (policy.tcp.verifies → packet.checksumHolds source destination) := by
  unfold segment? at read
  split at read
  · rename_i admitted
    obtain ⟨fits, _, _, holds⟩ := admitted
    exact ⟨(Option.some.inj read).symm, fits, holds⟩
  · cases read

theorem image_carried (plain : packet.Plain) (fits : packet.Fits) :
    packet.carried.headerImage packet.checksum ++ packet.carried.payload = packet.bytes := by
  obtain ⟨bytes⟩ := packet
  obtain ⟨offset, low, high⟩ := plain
  obtain ⟨long, -, -⟩ := fits
  obtain ⟨header, rest, rfl, length⟩ := Bytes.exists_front long
  have payload : (carried ⟨header ++ rest⟩).payload = rest := by
    show List.drop (headerLength ⟨header ++ rest⟩) (header ++ rest) = rest
    rw [offset]
    exact List.drop_left' length
  rw [payload]
  congr 1
  match header, length with
  | [a, b, c, d, e, f, g, h, i, j, k, l, m, n, o, p, q, r, s, t], _ =>
    have words : m.toNat / 0x10 * 4 = 20 := offset
    have version : m = 0x50 := by
      apply UInt8.toNat.inj
      show m.toNat = 0x50
      have nothing : m.toNat % 0x10 = 0 := low
      omega
    have control : (Flags.ofByte n).toByte = n := Flags.toByte_ofByte high
    simp [Segment.headerImage, carried, sourcePort, destinationPort, seqno, ackno, flags, window,
      checksum, urgent, Bytes.word16At, Bytes.word32At, Bytes.ofWord16_word16,
      Bytes.ofWord32_word32, version, control]

/-- The checksum that holds is the one that would be computed, as long as it is not the second way
    to say zero. -/
theorem sentChecksum_carried (plain : packet.Plain) (fits : packet.Fits)
    (short : packet.bytes.length ≤ 0x20000) (holds : packet.checksumHolds source destination)
    (canonical : packet.checksum ≠ 0xffff) (computes : policy.tcp.computes) :
    packet.carried.sentChecksum source destination policy = packet.checksum := by
  have image := image_carried plain fits
  have length : (packet.carried.headerImage 0 ++ packet.carried.payload).length =
      packet.bytes.length := by
    rw [← image, List.length_append, List.length_append, Segment.headerImage_length,
      Segment.headerImage_length]
  have whole := packet.sum_toNat source destination short
  rw [beq_iff_eq.mp holds, ← image, Segment.wordSum_headerImage, image, ← Nat.add_assoc] at whole
  have below : packet.checksum.toNat < 0xffff := by
    have bound := packet.checksum.toNat_lt
    have distinct : packet.checksum.toNat ≠ 0xffff := fun same =>
      canonical (UInt16.toNat.inj same)
    omega
  have something := packet.carried.wordSum_pos packet.carried.payload
  apply UInt16.toNat.inj
  rw [Segment.sentChecksum, if_pos computes, Checksum.complement_toNat,
    Packet.sum_toNat _ _ _ (Nat.le_trans (Nat.le_of_eq length) short)]
  dsimp only
  rw [length]
  exact Checksum.complement_of_fold (by omega) below whole.symm

theorem toBytes_carried (plain : packet.Plain) (fits : packet.Fits)
    (short : packet.bytes.length ≤ 0x20000) (holds : packet.checksumHolds source destination)
    (canonical : packet.checksum ≠ 0xffff) (computes : policy.tcp.computes) :
    packet.carried.toBytes source destination policy = packet.bytes := by
  rw [Segment.toBytes_eq, sentChecksum_carried plain fits short holds canonical computes]
  exact image_carried plain fits

end Packet

end Tcp

namespace Machine

open Tcp

/-- The fields of a header in the order in which they are written, the checksum left out. The data
    offset says that there are no options. -/
def segmentPieces (segment : Segment) : List (Nat × Nat × Bytes) :=
  [(0, 2, .ofWord16 segment.sourcePort), (2, 4, .ofWord16 segment.destinationPort),
    (4, 8, .ofWord32 segment.seqno.value), (8, 12, .ofWord32 segment.ackno.value),
    (12, 13, [0x50]), (13, 14, [segment.flags.toByte]), (14, 16, .ofWord16 segment.window),
    (18, 20, .ofWord16 segment.urgent)]

def fillSegmentChecksum (source destination : Ipv4.Address) (buffer : Bytes) : Option Bytes := do
  let cleared ← copy buffer 16 18 (.ofWord16 0)
  let total ← combine [← pseudoHeaderSum source destination cleared.length, ← sum cleared]
  copy cleared 16 18 (.ofWord16 (~~~ total))

def writeSegment (segment : Segment) (source destination : Ipv4.Address) (policy : Checksum.Policy)
    (buffer : Bytes) : Option Bytes := do
  let headed ← copyAll buffer (segmentPieces segment)
  let start ← dataOffsetAt headed
  let written ← copy headed start (start + segment.payload.length) segment.payload
  if policy.tcp.computes then fillSegmentChecksum source destination written
  else copy written 16 18 (.ofWord16 0)

theorem copyAll_segmentPieces (segment : Segment) {header : Bytes} (length : header.length = 20)
    (rest : Bytes) : ∃ checksum, copyAll (header ++ rest) (segmentPieces segment) =
      some (segment.headerImage checksum ++ rest) := by
  match header, length with
  | [a, b, c, d, e, f, g, h, i, j, k, l, m, n, o, p, q, r, s, t], _ =>
    refine ⟨Bytes.word16 q r, ?_⟩
    rw [Segment.headerImage, Bytes.ofWord16_word16]
    simp [copyAll, segmentPieces, copy, splice, Bytes.ofWord16, Bytes.ofWord32]

theorem copy_checksum (segment : Segment) (checksum filled : UInt16) (rest : Bytes) :
    copy (segment.headerImage checksum ++ rest) 16 18 (.ofWord16 filled) =
      some (segment.headerImage filled ++ rest) := by
  simp [copy, splice, Segment.headerImage, Bytes.ofWord16, Bytes.ofWord32]

theorem fillSegmentChecksum_eq (segment : Segment) (checksum : UInt16)
    (source destination : Ipv4.Address) (short : segment.wireLength ≤ 0x20000) :
    fillSegmentChecksum source destination (segment.headerImage checksum ++ segment.payload) =
      some (segment.headerImage
        (~~~ Packet.sum ⟨segment.headerImage 0 ++ segment.payload⟩ source destination) ++
          segment.payload) := by
  have length : (segment.headerImage 0 ++ segment.payload).length = segment.wireLength := by
    rw [List.length_append, Segment.headerImage_length]
    rfl
  unfold fillSegmentChecksum
  simp only [copy_checksum, Option.bind_eq_bind, Option.bind_some, pseudoHeaderSum_eq]
  rw [sum_eq (Nat.le_trans (Nat.le_of_eq length) short)]
  simp only [Option.bind_some]
  rw [combine_eq (by simp)]
  exact copy_checksum segment 0 _ segment.payload

theorem writeSegment_eq (segment : Segment) (source destination : Ipv4.Address)
    (policy : Checksum.Policy) {buffer : Bytes} (size : buffer.length = segment.wireLength)
    (short : segment.wireLength ≤ 0x20000) :
    writeSegment segment source destination policy buffer =
      some (segment.toBytes source destination policy) := by
  have whole : segment.wireLength = 20 + segment.payload.length := rfl
  have long : 20 ≤ buffer.length := by omega
  obtain ⟨header, old, rfl, length⟩ := Bytes.exists_front long
  rw [List.length_append] at size
  obtain ⟨checksum, headed⟩ := copyAll_segmentPieces segment length old
  have reached : 13 ≤ (segment.headerImage checksum ++ old).length := by
    rw [List.length_append, Segment.headerImage_length, Tcp.headerLength]
    omega
  have same : segment.payload.length = old.length := by omega
  have written := copy_behind (segment.headerImage_length checksum)
    (congrArg (Tcp.headerLength + ·) same.symm) same
  unfold writeSegment
  simp only [headed, dataOffsetAt_eq reached, Packet.headerLength_image, written,
    Option.bind_eq_bind, Option.bind_some]
  rw [Segment.toBytes_eq, Segment.sentChecksum]
  split
  · exact fillSegmentChecksum_eq segment checksum source destination short
  · exact copy_checksum segment checksum 0 segment.payload

end Machine

theorem Tcp.Segment.emit?_eq_toBytes (segment : Segment) (source destination : Ipv4.Address)
    (policy : Checksum.Policy) {buffer : Bytes} (size : buffer.length = segment.wireLength) :
    segment.emit? source destination policy buffer =
      some (segment.toBytes source destination policy) := by
  have covers (checksum : UInt16) :
      buffer.overwrite? 0 (segment.headerImage checksum ++ segment.payload) =
        some (segment.headerImage checksum ++ segment.payload) := by
    apply Bytes.overwrite?_whole
    rw [List.length_append, Segment.headerImage_length, size]
    rfl
  unfold Segment.emit? Segment.toBytes
  rw [covers]
  simp only [Option.bind_eq_bind, Option.bind_some, covers]
  split <;> rfl

namespace Tcp.Packet

/-- A packet that was read with its checksum verified, that has no options and no reserved bits set,
    and whose checksum is not 0xffff is written again as it was, its checksum included, field by
    field over whatever the buffer held. -/
theorem emit_restores (source destination : Ipv4.Address) {bytes : Bytes} {segment : Segment}
    (reading writing : Checksum.Policy) (short : bytes.length ≤ 0x20000)
    (verifies : reading.tcp.verifies) (computes : writing.tcp.computes)
    (read : segment? ⟨bytes⟩ source destination reading = some segment) (plain : Plain ⟨bytes⟩)
    (canonical : checksum ⟨bytes⟩ ≠ 0xffff) :
    segment.wireLength = bytes.length ∧
      ∀ buffer : Bytes, buffer.length = segment.wireLength →
        segment.emit? source destination writing buffer = some bytes ∧
          Machine.writeSegment segment source destination writing buffer = some bytes := by
  obtain ⟨rfl, fits, holds⟩ := carried_of_segment? read
  have restored :=
    toBytes_carried plain fits short (holds verifies) canonical computes
  have length : (carried ⟨bytes⟩).wireLength = bytes.length := by
    rw [← (carried ⟨bytes⟩).toBytes_length source destination writing, restored]
  refine ⟨length, fun buffer size => ⟨?_, ?_⟩⟩
  · rw [Segment.emit?_eq_toBytes _ _ _ _ size, restored]
  · rw [Machine.writeSegment_eq _ _ _ _ size (Nat.le_trans (Nat.le_of_eq length) short), restored]

theorem emit_restores_odd :
    let source := Ipv4.Address.ofOctets 10 0 0 1
    let destination := Ipv4.Address.ofOctets 10 0 0 2
    let bytes : Bytes :=
      [192, 0, 0, 80, 255, 255, 255, 254, 0, 0, 0, 7, 80, 56, 2, 1, 213, 75, 0, 2, 1, 2, 3]
    ∃ segment, segment? ⟨bytes⟩ source destination {} = some segment ∧ segment.urgent = 2 ∧
      segment.emit? source destination {} (List.replicate 23 0xff) = some bytes ∧
      Machine.writeSegment segment source destination {} (List.replicate 23 0xff) =
        some bytes := by
  intro source destination bytes
  have read : segment? ⟨bytes⟩ source destination {} = some (carried ⟨bytes⟩) := by decide
  have plain : Plain ⟨bytes⟩ := ⟨by decide, by decide, by decide⟩
  obtain ⟨_, restored⟩ := emit_restores source destination {} {} (by decide) (by decide) (by decide)
    read plain (by decide)
  exact ⟨_, read, by decide, restored (List.replicate 23 0xff) (by decide)⟩

end Tcp.Packet

end NetStack
