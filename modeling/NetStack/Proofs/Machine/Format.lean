import NetStack.Link.Packet
import NetStack.Proofs.Machine.Field
import NetStack.Proofs.Wire.Datagram
import NetStack.Tcp.Packet

namespace NetStack.Machine

section Read

def isPairing (buffer : Bytes) : Option Bool :=
  (return (← word16At buffer 0) == Arp.ethernetHardware) <&&>
    (return (← word16At buffer 2) == Ethernet.EtherType.ipv4.code) <&&>
    (return (← octetAt buffer 4) == 6) <&&> (return (← octetAt buffer 5) == 4)

def readMessage (buffer : Bytes) : Option (Option Arp.Message) := do
  if buffer.length < Arp.Message.length then return none
  else if !(← isPairing buffer) then return none
  else
    return some {
      operation := ⟨← word16At buffer 6⟩
      senderHardware := ← hardwareAt buffer 8
      senderAddress := ⟨← word32At buffer 14⟩
      targetHardware := ← hardwareAt buffer 18
      targetAddress := ⟨← word32At buffer 24⟩ }

def headerLengthAt (buffer : Bytes) : Option Nat := do
  octetsOf ((← octetAt buffer 0).toNat % 0x10)

def isContained (buffer : Bytes) : Option Bool := do
  if buffer.length < Ipv4.headerLength then return false
  else
    let header ← headerLengthAt buffer
    let total := (← word16At buffer 2).toNat
    return !(header < Ipv4.headerLength || total < header || buffer.length < total)

def isHeaderIntact (buffer : Bytes) : Option Bool := do
  return (← sum (← slice buffer 0 (← headerLengthAt buffer))) == Checksum.intact

def isFragment (buffer : Bytes) : Option Bool := do
  let word ← word16At buffer 6
  return word &&& 0x2000 != 0 || word &&& 0x1fff != 0

def passes (asked : Bool) (check : Option Bool) : Option Bool := if asked then check else some true

def readDatagram (policy : Checksum.Policy) (buffer : Bytes) :
    Option (Option Ipv4.Datagram) := do
  if !(← isContained buffer) then return none
  else if (← octetAt buffer 0).toNat / 0x10 ≠ 4 then return none
  else if !(← passes policy.ipv4.verifies (isHeaderIntact buffer)) then return none
  else if ← isFragment buffer then return none
  else
    return some {
      source := ⟨← word32At buffer 12⟩
      destination := ⟨← word32At buffer 16⟩
      protocol := ⟨← octetAt buffer 9⟩
      hopLimit := ← octetAt buffer 8
      payload := ← slice buffer (← headerLengthAt buffer) (← word16At buffer 2).toNat }

def dataOffsetAt (buffer : Bytes) : Option Nat := do
  octetsOf ((← octetAt buffer 12).toNat / 0x10)

def isHeaded (buffer : Bytes) : Option Bool := do
  if buffer.length < Tcp.headerLength then return false
  else
    let header ← dataOffsetAt buffer
    return !(header < Tcp.headerLength || buffer.length < header)

def pseudoHeaderSum (source destination : Ipv4.Address) (length : Nat) : Option UInt16 := do
  combine [← sum source.octets, ← sum destination.octets,
    ← sum ([0, Ipv4.Protocol.tcp.code] ++ Bytes.ofWord16 (.ofNat length))]

def isSegmentIntact (source destination : Ipv4.Address) (buffer : Bytes) : Option Bool := do
  let total ← combine [← pseudoHeaderSum source destination buffer.length, ← sum buffer]
  return total == Checksum.intact

def lacksPort (buffer : Bytes) : Option Bool :=
  (return (← word16At buffer 0) == 0) <||> return (← word16At buffer 2) == 0

def readSegment (source destination : Ipv4.Address) (policy : Checksum.Policy) (buffer : Bytes) :
    Option (Option Tcp.Segment) := do
  if !(← isHeaded buffer) then return none
  else if ← lacksPort buffer then return none
  else if !(← passes policy.tcp.verifies (isSegmentIntact source destination buffer)) then
    return none
  else
    return some {
      sourcePort := ← word16At buffer 0
      destinationPort := ← word16At buffer 2
      seqno := ⟨← word32At buffer 4⟩
      ackno := ⟨← word32At buffer 8⟩
      flags := .ofByte (← octetAt buffer 13)
      window := ← word16At buffer 14
      urgent := ← word16At buffer 18
      checksum := ← word16At buffer 16
      payload := ← slice buffer (← dataOffsetAt buffer) buffer.length }

def readPacket (policy : Checksum.Policy) (type : Ethernet.EtherType) (payload : Bytes) :
    Option (Option Link.Packet) := do
  if type = .arp then return (← readMessage payload).map .arp
  else if type = .ipv4 then return (← readDatagram policy payload).map .ipv4
  else return none

section Message

variable {buffer : Bytes}

theorem word16_eq_iff {high low : UInt8} {word : UInt16} :
    Bytes.word16 high low = word ↔ [high, low] = Bytes.ofWord16 word := by
  constructor
  · rintro rfl
    exact (Bytes.ofWord16_word16 high low).symm
  · intro same
    cases same
    exact Bytes.word16_ofWord16 word

theorem isPairing_eq (long : Arp.Message.length ≤ buffer.length) :
    isPairing buffer = some (Arp.Message.hasPairing buffer) := by
  unfold Arp.Message.length at long
  have front := @slice_octets buffer 0 6 (by omega)
  rw [slice_eq (by omega) (by omega), List.drop_zero, Option.some.injEq] at front
  have words : Arp.Message.hasPairing buffer = (buffer.word16At 0 == Arp.ethernetHardware &&
      (buffer.word16At 2 == Ethernet.EtherType.ipv4.code &&
        (buffer.octet 4 == 6 && buffer.octet 5 == 4))) := by
    rw [Bool.eq_iff_iff]
    unfold Arp.Message.hasPairing Arp.Message.pairing Bytes.word16At
    simp only [beq_iff_eq, Bool.and_eq_true, word16_eq_iff]
    rw [front]
    simp [List.range_succ, Bytes.ofWord16, and_assoc]
  unfold isPairing
  simp (disch := omega) only [word16At_eq, octetAt_eq, Option.bind_eq_bind, Option.bind_some]
  rw [words]
  cases buffer.word16At 0 == Arp.ethernetHardware <;>
    cases buffer.word16At 2 == Ethernet.EtherType.ipv4.code <;> cases buffer.octet 4 == 6 <;> rfl

theorem readMessage_eq (buffer : Bytes) :
    readMessage buffer = some (Arp.Message.ofBytes? buffer) := by
  unfold readMessage Arp.Message.ofBytes? Arp.Message.Fits
  by_cases long : Arp.Message.length ≤ buffer.length
  · rw [if_neg (Nat.not_lt.mpr long), isPairing_eq long]
    unfold Arp.Message.length at long ⊢
    cases paired : Arp.Message.hasPairing buffer with
    | false => simp
    | true =>
      simp (disch := omega) only [word16At_eq, word32At_eq, hardwareAt_eq, Option.bind_eq_bind,
        Option.bind_some]
      simp [long]
  · rw [if_pos (Nat.lt_of_not_le long), if_neg (fun fits => long fits.1)]
    rfl

end Message

section Datagram

variable {buffer : Bytes} {policy : Checksum.Policy}

theorem headerLengthAt_eq (long : 1 ≤ buffer.length) :
    headerLengthAt buffer = some (Ipv4.Packet.headerLength ⟨buffer⟩) := by
  unfold headerLengthAt
  rw [octetAt_eq (by omega), Option.bind_eq_bind, Option.bind_some, octetsOf_eq (by omega)]
  rfl

theorem isContained_eq (buffer : Bytes) :
    isContained buffer = some (decide (Ipv4.Packet.Fits ⟨buffer⟩)) := by
  unfold isContained Ipv4.Packet.Fits
  by_cases long : Ipv4.headerLength ≤ buffer.length
  · rw [if_neg (Nat.not_lt.mpr long)]
    unfold Ipv4.headerLength at long ⊢
    rw [headerLengthAt_eq (by omega), word16At_eq (by omega)]
    simp only [Option.bind_eq_bind, Option.bind_some, Option.pure_def, Option.some.injEq]
    rw [Bool.eq_iff_iff]
    simp only [Bool.not_eq_true', Bool.or_eq_false_iff, decide_eq_false_iff_not, Nat.not_lt,
      decide_eq_true_eq, Ipv4.Packet.totalLength, long, true_and, and_assoc]
  · rw [if_pos (Nat.lt_of_not_le long)]
    simp [long]

theorem isHeaderIntact_eq (fits : Ipv4.Packet.Fits ⟨buffer⟩) :
    isHeaderIntact buffer = some (Ipv4.Packet.checksumHolds ⟨buffer⟩) := by
  obtain ⟨long, header, order, inside⟩ := fits
  have covered : (buffer.take (Ipv4.Packet.headerLength ⟨buffer⟩)).length ≤ 0x20000 := by
    rw [List.length_take]
    unfold Ipv4.Packet.headerLength
    omega
  unfold isHeaderIntact
  simp only [headerLengthAt_eq (Nat.le_trans (by decide) long), Option.bind_eq_bind,
    Option.bind_some, slice_eq (Nat.zero_le _) (Nat.le_trans order inside), List.drop_zero]
  rw [sum_eq covered]
  rfl

theorem isFragment_eq (long : 8 ≤ buffer.length) :
    isFragment buffer = some (Ipv4.Packet.isFragment ⟨buffer⟩) := by
  unfold isFragment
  rw [word16At_eq long]
  rfl

theorem passes_eq (asked holds : Bool) : passes asked (some holds) = some (!asked || holds) := by
  cases asked <;> rfl

theorem readDatagram_eq (policy : Checksum.Policy) (buffer : Bytes) :
    readDatagram policy buffer = some (Ipv4.Datagram.ofBytes? policy buffer) := by
  unfold readDatagram Ipv4.Datagram.ofBytes? Ipv4.Packet.header?
  by_cases fits : Ipv4.Packet.Fits ⟨buffer⟩
  · have ⟨long, header, order, inside⟩ := fits
    have long : 20 ≤ buffer.length := long
    have payload : slice buffer (Ipv4.Packet.headerLength ⟨buffer⟩) (buffer.word16At 2).toNat =
      some (Ipv4.Packet.payload ⟨buffer⟩) := slice_eq order inside
    simp (disch := omega) only [isContained_eq, fits, isHeaderIntact_eq fits, isFragment_eq,
      octetAt_eq, word16At_eq, word32At_eq, headerLengthAt_eq, passes_eq, payload,
      Option.bind_eq_bind, Option.bind_some, decide_true]
    have version : (buffer.octet 0).toNat / 16 = Ipv4.Packet.version ⟨buffer⟩ := rfl
    rw [version]
    by_cases four : Ipv4.Packet.version ⟨buffer⟩ = 4
    · cases policy.ipv4.verifies <;> cases Ipv4.Packet.checksumHolds ⟨buffer⟩ <;>
        cases Ipv4.Packet.isFragment ⟨buffer⟩ <;> simp [four] <;> exact ⟨rfl, rfl, rfl, rfl⟩
    · simp [four]
  · simp [fits, isContained_eq]

end Datagram

section Segment

variable {buffer : Bytes} {policy : Checksum.Policy}

theorem dataOffsetAt_eq (long : 13 ≤ buffer.length) :
    dataOffsetAt buffer = some (Tcp.Packet.headerLength ⟨buffer⟩) := by
  have octet := (buffer.octet 12).toNat_lt
  unfold dataOffsetAt
  rw [octetAt_eq (by omega), Option.bind_eq_bind, Option.bind_some, octetsOf_eq (by omega)]
  rfl

theorem isHeaded_eq (buffer : Bytes) :
    isHeaded buffer = some (decide (Tcp.Packet.Fits ⟨buffer⟩)) := by
  unfold isHeaded Tcp.Packet.Fits
  by_cases long : Tcp.headerLength ≤ buffer.length
  · rw [if_neg (Nat.not_lt.mpr long)]
    unfold Tcp.headerLength at long ⊢
    rw [dataOffsetAt_eq (by omega)]
    simp only [Option.bind_eq_bind, Option.bind_some, Option.pure_def, Option.some.injEq]
    rw [Bool.eq_iff_iff]
    simp only [Bool.not_eq_true', Bool.or_eq_false_iff, decide_eq_false_iff_not, Nat.not_lt,
      decide_eq_true_eq, long, true_and]
  · rw [if_pos (Nat.lt_of_not_le long)]
    simp [long]

theorem pseudoHeaderSum_eq (source destination : Ipv4.Address) (length : Nat) :
    pseudoHeaderSum source destination length =
      some (Tcp.pseudoHeaderSum source destination length) := by
  unfold pseudoHeaderSum Tcp.pseudoHeaderSum
  rw [sum_eq (by simp), sum_eq (by simp), sum_eq (by simp)]
  simp only [Option.bind_eq_bind, Option.bind_some]
  rw [combine_eq (by simp)]

theorem isSegmentIntact_eq (source destination : Ipv4.Address) (short : buffer.length ≤ 0x20000) :
    isSegmentIntact source destination buffer =
      some (Tcp.Packet.checksumHolds ⟨buffer⟩ source destination) := by
  unfold isSegmentIntact
  rw [pseudoHeaderSum_eq, sum_eq short]
  simp only [Option.bind_eq_bind, Option.bind_some]
  rw [combine_eq (by simp)]
  rfl

theorem lacksPort_eq (long : 4 ≤ buffer.length) : lacksPort buffer =
    some (Tcp.Packet.sourcePort ⟨buffer⟩ == 0 || Tcp.Packet.destinationPort ⟨buffer⟩ == 0) := by
  unfold lacksPort
  rw [word16At_eq (by omega), word16At_eq (by omega)]
  unfold Tcp.Packet.sourcePort
  cases h : buffer.word16At 0 == 0 <;> simp [h] <;> rfl

theorem readSegment_eq (source destination : Ipv4.Address) (policy : Checksum.Policy)
    (short : buffer.length ≤ 0x20000) : readSegment source destination policy buffer =
      some (Tcp.Packet.segment? ⟨buffer⟩ source destination policy) := by
  unfold readSegment Tcp.Packet.segment?
  by_cases fits : Tcp.Packet.Fits ⟨buffer⟩
  · have ⟨long, header, inside⟩ := fits
    have long : 20 ≤ buffer.length := long
    have payload : slice buffer (Tcp.Packet.headerLength ⟨buffer⟩) buffer.length =
      some (Tcp.Packet.payload ⟨buffer⟩) := slice_rest inside
    simp (disch := omega) only [isHeaded_eq, fits, lacksPort_eq, isSegmentIntact_eq, octetAt_eq,
      word16At_eq, word32At_eq, dataOffsetAt_eq, passes_eq, payload, Option.bind_eq_bind,
      Option.bind_some, decide_true]
    by_cases sourceSet : Tcp.Packet.sourcePort ⟨buffer⟩ = 0
    · simp [sourceSet]
    by_cases destinationSet : Tcp.Packet.destinationPort ⟨buffer⟩ = 0
    · simp [destinationSet]
    cases policy.tcp.verifies <;> cases Tcp.Packet.checksumHolds ⟨buffer⟩ source destination <;>
      simp [sourceSet, destinationSet] <;> exact ⟨rfl, rfl, rfl, rfl, rfl, rfl, rfl, rfl⟩
  · simp [fits, isHeaded_eq]

end Segment

theorem readPacket_eq (policy : Checksum.Policy) (frame : Ethernet.Frame) :
    readPacket policy frame.type frame.payload = some (Link.Packet.ofFrame? policy frame) := by
  unfold readPacket Link.Packet.ofFrame?
  rw [readMessage_eq, readDatagram_eq]
  split
  · rfl
  · split <;> rfl

end Read

section Write

def copyAll (buffer : Bytes) (pieces : List (Nat × Nat × Bytes)) : Option Bytes :=
  pieces.foldlM (fun buffer (start, stop, piece) => copy buffer start stop piece) buffer

def messagePieces (message : Arp.Message) : List (Nat × Nat × Bytes) :=
  [(0, 2, .ofWord16 Arp.ethernetHardware), (2, 4, .ofWord16 Ethernet.EtherType.ipv4.code),
    (4, 5, [6]), (5, 6, [4]), (6, 8, .ofWord16 message.operation.code),
    (8, 14, message.senderHardware.octets), (14, 18, message.senderAddress.octets),
    (18, 24, message.targetHardware.octets), (24, 28, message.targetAddress.octets)]

/-- The checksum is cleared first, and filled in where it is computed. -/
def headerPieces (header : Ipv4.Header) (total : Nat) : List (Nat × Nat × Bytes) :=
  [(0, 1, [0x45]), (1, 2, [0]), (2, 4, .ofWord16 (.ofNat total)), (4, 6, .ofWord16 0),
    (6, 8, .ofWord16 0x4000), (8, 9, [header.hopLimit]), (9, 10, [header.protocol.code]),
    (12, 16, header.source.octets), (16, 20, header.destination.octets), (10, 12, .ofWord16 0)]

def fillHeaderChecksum (buffer : Bytes) : Option Bytes := do
  let total ← sum (← slice buffer 0 (← headerLengthAt buffer))
  copy buffer 10 12 (.ofWord16 (~~~ total))

def writeHeader (header : Ipv4.Header) (policy : Checksum.Policy) (buffer : Bytes) :
    Option Bytes := do
  let total ← add Ipv4.headerLength header.payloadLength
  let written ← copyAll buffer (headerPieces header total)
  if policy.ipv4.computes then fillHeaderChecksum written else return written

/-- The payload goes where the header says that it is. -/
def writeDatagram (datagram : Ipv4.Datagram) (policy : Checksum.Policy) (buffer : Bytes) :
    Option Bytes := do
  let written ← writeHeader datagram.header policy buffer
  copy written (← headerLengthAt written) (← word16At written 2).toNat datagram.payload

def lengthOf : Link.Packet → Option Nat
  | .arp _ => some Arp.Message.length
  | .ipv4 datagram => add Ipv4.headerLength datagram.payload.length

def writePacket (policy : Checksum.Policy) (buffer : Bytes) : Link.Packet → Option Bytes
  | .arp message => copyAll buffer (messagePieces message)
  | .ipv4 datagram => writeDatagram datagram policy buffer

def writeFrame (packet : Link.Packet) (policy : Checksum.Policy)
    (source destination : Ethernet.Address) : Option Bytes := do
  let length ← add Ethernet.Frame.headerLength (← lengthOf packet)
  let framed ← copyAll (List.replicate length 0)
    [(6, 12, source.octets), (0, 6, destination.octets), (12, 14, .ofWord16 packet.type.code)]
  let payload ← slice framed Ethernet.Frame.headerLength length
  copy framed Ethernet.Frame.headerLength length (← writePacket policy payload packet)

theorem copyAll_messagePieces (message : Arp.Message) :
    copyAll (List.replicate 28 0) (messagePieces message) = some message.toBytes := by
  simp [copyAll, messagePieces, copy, splice, Arp.Message.toBytes, Arp.Message.pairing,
    Bytes.ofWord16, Bytes.ofWord32, Ipv4.Address.octets, Ethernet.Address.octets, List.replicate]

theorem copyAll_headerPieces (header : Ipv4.Header) (rest : Bytes) :
    copyAll (List.replicate 20 0 ++ rest)
        (headerPieces header (Ipv4.headerLength + header.payloadLength)) =
      some (header.image 0 ++ rest) := by
  simp [copyAll, headerPieces, copy, splice, Ipv4.Header.image, Bytes.ofWord16, Bytes.ofWord32,
    Ipv4.Address.octets, List.replicate]

theorem fillHeaderChecksum_eq (header : Ipv4.Header) (rest : Bytes) :
    fillHeaderChecksum (header.image 0 ++ rest) =
      some (header.image (~~~ Checksum.sum (header.image 0)) ++ rest) := by
  have length : (header.image 0).length = 20 := header.image_length 0
  have whole : 20 ≤ (header.image 0 ++ rest).length := by
    rw [List.length_append]
    omega
  have covered : slice (header.image 0 ++ rest) 0 20 = some (header.image 0) := by
    rw [slice_eq (by omega) whole, List.drop_zero, List.take_left' length]
  unfold fillHeaderChecksum
  simp only [headerLengthAt_eq (Nat.le_trans (by decide) whole), Ipv4.Packet.headerLength_image,
    Option.bind_eq_bind, Option.bind_some, covered, Ipv4.headerLength,
    sum_eq (Nat.le_trans (Nat.le_of_eq length) (by decide))]
  rw [copy_eq (by rw [Bytes.ofWord16_length]) (Nat.le_trans (by decide) whole)]
  simp [splice, Ipv4.Header.image, Bytes.ofWord16, Bytes.ofWord32, Ipv4.Address.octets]

theorem writeHeader_eq (header : Ipv4.Header) (policy : Checksum.Policy) (rest : Bytes)
    (small : Ipv4.headerLength + header.payloadLength < wordLimit) :
    writeHeader header policy (List.replicate 20 0 ++ rest) =
      some (header.toBytes policy ++ rest) := by
  unfold writeHeader Ipv4.Header.toBytes
  rw [add_eq small]
  simp only [Option.bind_eq_bind, Option.bind_some, copyAll_headerPieces]
  split
  · exact fillHeaderChecksum_eq header rest
  · rfl

theorem copy_behind {front old source : Bytes} {start stop : Nat} (at_start : front.length = start)
    (at_stop : start + old.length = stop) (same : source.length = old.length) :
    copy (front ++ old) start stop source = some (front ++ source) := by
  subst at_start at_stop
  rw [copy_eq (by rw [same]) (by simp), splice, same]
  simp

theorem writeDatagram_eq (datagram : Ipv4.Datagram) (policy : Checksum.Policy)
    (small : datagram.length < wordLimit) :
    writeDatagram datagram policy (List.replicate datagram.length 0) =
      (datagram.toBytes policy).toOption := by
  let rest : Bytes := List.replicate datagram.payload.length 0
  have blank : List.replicate datagram.length 0 = List.replicate 20 0 ++ rest := by
    rw [List.replicate_append_replicate]
    rfl
  obtain ⟨checksum, image⟩ : ∃ checksum,
      datagram.header.toBytes policy = datagram.header.image checksum := by
    unfold Ipv4.Header.toBytes
    split <;> exact ⟨_, rfl⟩
  have long : 4 ≤ (datagram.header.image checksum ++ rest).length := by
    rw [List.length_append, Ipv4.Header.image_length]
    exact Nat.le_trans (by decide) (Nat.le_add_right _ _)
  have total : ((datagram.header.image checksum ++ rest).word16At 2).toNat =
      datagram.length % 0x10000 := Ipv4.Packet.totalLength_image _ _ _
  unfold writeDatagram
  rw [blank, writeHeader_eq datagram.header policy _ small, image]
  simp (disch := omega) only [headerLengthAt_eq, word16At_eq, Ipv4.Packet.headerLength_image,
    Option.bind_eq_bind, Option.bind_some, total]
  by_cases short : datagram.length ≤ Ipv4.Datagram.maxLength
  · rw [Ipv4.Datagram.toBytes, if_pos short, image]
    unfold Ipv4.Datagram.maxLength at short
    rw [Nat.mod_eq_of_lt (by omega)]
    have behind : Ipv4.headerLength + rest.length = datagram.length := by
      rw [List.length_replicate]
      rfl
    exact copy_behind (Ipv4.Header.image_length ..) behind List.length_replicate.symm
  · rw [Ipv4.Datagram.toBytes, if_neg short, copy, if_neg]
    · rfl
    · unfold Ipv4.Datagram.maxLength at short
      have length : datagram.length = 20 + datagram.payload.length := rfl
      have header : Ipv4.headerLength = 20 := rfl
      omega

variable {packet : Link.Packet} {policy : Checksum.Policy} {length : Nat}

theorem writePacket_eq (known : lengthOf packet = some length) :
    writePacket policy (List.replicate length 0) packet = (packet.toBytes policy).toOption := by
  cases packet with
  | arp message =>
    cases known
    exact copyAll_messagePieces message
  | ipv4 datagram =>
    obtain ⟨rfl, small⟩ := eq_of_add known
    exact writeDatagram_eq datagram policy small

theorem toBytes_length {payload : Bytes} (known : lengthOf packet = some length)
    (written : packet.toBytes policy = .ok payload) : payload.length = length := by
  cases packet with
  | arp message =>
    cases known
    cases written
    rfl
  | ipv4 datagram =>
    obtain ⟨rfl, -⟩ := eq_of_add known
    unfold Link.Packet.toBytes Ipv4.Datagram.toBytes at written
    dsimp only at written
    split at written
    · cases written
      rw [List.length_append, Ipv4.Header.toBytes_length]
    · cases written

/-- A packet whose frame is longer than a machine can count is too long in any case. -/
theorem toBytes_of_overflow
    (overflow : (lengthOf packet).bind (add Ethernet.Frame.headerLength) = none) :
    (packet.toBytes policy).toOption = none := by
  cases packet with
  | arp message => cases overflow
  | ipv4 datagram =>
    have long : Ipv4.Datagram.maxLength < datagram.length := by
      apply Nat.lt_of_not_le
      intro short
      unfold Ipv4.Datagram.maxLength Ipv4.Datagram.length at short
      unfold lengthOf Ethernet.Frame.headerLength at overflow
      dsimp only at overflow
      rw [add_eq (by unfold wordLimit; omega), Option.bind_some,
        add_eq (by unfold wordLimit; omega)] at overflow
      cases overflow
    unfold Link.Packet.toBytes Ipv4.Datagram.toBytes
    dsimp only
    rw [if_neg (Nat.not_le_of_lt long)]
    rfl

theorem copyAll_framePieces (source destination : Ethernet.Address) (type : Ethernet.EtherType)
    (rest : Bytes) : copyAll (List.replicate 14 0 ++ rest)
        [(6, 12, source.octets), (0, 6, destination.octets), (12, 14, .ofWord16 type.code)] =
      some (destination.octets ++ source.octets ++ Bytes.ofWord16 type.code ++ rest) := by
  simp [copyAll, copy, splice, Bytes.ofWord16, Ethernet.Address.octets, List.replicate]

theorem toFrame_toOption (packet : Link.Packet) (policy : Checksum.Policy)
    (source destination : Ethernet.Address) :
    (packet.toFrame policy source destination).toOption.map Ethernet.Frame.toBytes =
      (packet.toBytes policy).toOption.map fun payload =>
        destination.octets ++ source.octets ++ Bytes.ofWord16 packet.type.code ++ payload := by
  unfold Link.Packet.toFrame
  cases packet.toBytes policy <;> rfl

theorem writeFrame_eq (packet : Link.Packet) (policy : Checksum.Policy)
    (source destination : Ethernet.Address) : writeFrame packet policy source destination =
      (packet.toFrame policy source destination).toOption.map Ethernet.Frame.toBytes := by
  rw [toFrame_toOption]
  unfold writeFrame
  cases counted : (lengthOf packet).bind (add Ethernet.Frame.headerLength) with
  | none =>
    rw [toBytes_of_overflow counted, Option.bind_eq_bind, ← Option.bind_assoc, counted]
    rfl
  | some whole =>
    obtain ⟨length, known, added⟩ := Option.bind_eq_some_iff.mp counted
    obtain ⟨rfl, -⟩ := eq_of_add added
    let front := destination.octets ++ source.octets ++ Bytes.ofWord16 packet.type.code
    have start : front.length = Ethernet.Frame.headerLength := rfl
    have blank : slice (front ++ List.replicate length 0) Ethernet.Frame.headerLength
        (Ethernet.Frame.headerLength + length) = some (List.replicate length 0) := by
      rw [slice_eq (Nat.le_add_right _ _) (by simp [start]),
        List.take_of_length_le (by simp [start]), List.drop_left' start]
    have framed : copyAll (List.replicate (Ethernet.Frame.headerLength + length) 0)
        [(6, 12, source.octets), (0, 6, destination.octets), (12, 14, .ofWord16 packet.type.code)] =
          some (front ++ List.replicate length 0) := by
      rw [← List.replicate_append_replicate]
      exact copyAll_framePieces source destination packet.type _
    rw [known]
    simp only [Option.bind_eq_bind, Option.bind_some, added, framed, blank, writePacket_eq known]
    cases written : packet.toBytes policy with
    | error refusal => rfl
    | ok payload =>
      have size := toBytes_length known written
      exact copy_behind start (by simp) (by simp [size])

end Write

end NetStack.Machine
