import NetStack.Proofs.Link.Handover
import NetStack.Proofs.Link.Inquiry

namespace NetStack.Link

namespace Packet

variable {packet : Packet}

def frame (packet : Packet) (policy : Checksum.Policy) (source destination : Ethernet.Address) :
    Bytes :=
  match packet.toFrame policy source destination with
  | .ok frame => frame.toBytes
  | .error _ => []

theorem toFrame_of_fits (fits : packet.Fits) (policy : Checksum.Policy)
    (source destination : Ethernet.Address) :
    ∃ payload, packet.toBytes policy = .ok payload ∧
      packet.toFrame policy source destination =
        .ok { destination, source, type := packet.type, payload } := by
  obtain ⟨payload, written⟩ := exists_toBytes fits policy
  exact ⟨payload, written, toFrame_eq_ok_iff.mpr ⟨payload, written, rfl⟩⟩

end Packet

namespace Interface

variable {interface : Interface} {packet : Packet} {destination : Ethernet.Address}

def frame (interface : Interface) (packet : Packet) (destination : Ethernet.Address) : Bytes :=
  packet.frame interface.policy interface.hardware destination

theorem emit_of_fits (fits : packet.Fits) (destination : Ethernet.Address) :
    interface.emit packet destination = .ok
      { interface with frames := interface.frames ++ [interface.frame packet destination] } := by
  obtain ⟨payload, _, framed⟩ :=
    Packet.toFrame_of_fits fits interface.policy interface.hardware destination
  unfold emit frame Packet.frame
  rw [framed]
  rfl

theorem arriving?_frame {sender : Interface} (fits : packet.Fits)
    (checked : interface.policy.ipv4.verifies → sender.policy.ipv4.computes)
    (addressed : destination = interface.hardware ∨ destination = .broadcast) :
    interface.arriving? (sender.frame packet destination) = some packet := by
  obtain ⟨payload, written, framed⟩ :=
    Packet.toFrame_of_fits fits sender.policy sender.hardware destination
  have found := Packet.ofFrame?_written written checked sender.hardware destination []
  rw [List.append_nil] at found
  unfold arriving? frame Packet.frame
  rw [framed]
  dsimp only
  rw [Ethernet.Frame.ofBytes?_toBytes]
  dsimp only [Option.bind_eq_bind, Option.bind_some]
  have passes : (guard (destination = interface.hardware ∨ destination.isBroadcast) : Option Unit) =
      some () := if_pos (addressed.imp_right beq_iff_eq.mpr)
  rw [passes, found]
  rfl

theorem foldlM_emit_of_fits {ready : List Waiting}
    (fits : ∀ waiting ∈ ready, waiting.datagram.length ≤ Ipv4.Datagram.maxLength)
    (destination : Ethernet.Address) :
    ready.foldlM (fun current waiting => current.emit (.ipv4 waiting.datagram) destination)
        interface =
      .ok { interface with
        frames := interface.frames ++
          ready.map fun waiting => interface.frame (.ipv4 waiting.datagram) destination } := by
  induction ready generalizing interface with
  | nil =>
    rw [List.map_nil, List.append_nil]
    rfl
  | cons first rest ih =>
    have short : (Packet.ipv4 first.datagram).Fits := fits first List.mem_cons_self
    rw [List.foldlM_cons, emit_of_fits short]
    refine (ih fun waiting member => fits waiting (List.mem_cons_of_mem _ member)).trans ?_
    rw [List.map_cons, List.append_assoc]
    rfl

def heeding (interface : Interface) (message : Arp.Message) : Interface :=
  { interface.learn message with
    waiting := interface.waiting.filter fun waiting =>
      decide (waiting.nextHop ≠ message.senderAddress)
    frames := interface.frames ++
      (interface.answers message).map fun answer => interface.frame answer.2 answer.1 }

theorem heed_eq_heeding {message : Arp.Message} (credible : isCredible message = true)
    (fits : interface.Fits) : interface.heed message = .ok (interface.heeding message) := by
  have ready : ∀ waiting ∈ interface.waiting.filter fun waiting =>
      decide (waiting.nextHop = message.senderAddress),
      waiting.datagram.length ≤ Ipv4.Datagram.maxLength := fun waiting member =>
    fits waiting (List.mem_filter.mp member).1
  have released : (interface.learn message).release message.senderAddress message.senderHardware =
      .ok _ := (release_eq ..).trans (foldlM_emit_of_fits ready message.senderHardware)
  rw [heed_of_credible credible, released]
  unfold heeding answers
  rw [List.map_append, List.map_map, ← List.append_assoc]
  by_cases asked : message.operation = .request ∧ message.targetAddress = interface.address
  · have fitting : (Packet.arp (message.replyTo interface.hardware)).Fits := trivial
    rw [if_pos asked]
    exact (if_pos asked).trans (emit_of_fits fitting _)
  · rw [if_neg asked]
    refine (if_neg asked).trans ?_
    rw [List.map_nil, List.append_nil]
    rfl

theorem receive_of_arp {bytes : Bytes} {message : Arp.Message}
    (arrived : interface.arriving? bytes = some (.arp message))
    (credible : isCredible message = true) (fits : interface.Fits) :
    interface.receive bytes = .ok (none, interface.heeding message) := by
  unfold receive
  rw [arrived]
  dsimp only
  rw [heed_eq_heeding credible fits]
  rfl

theorem receive_of_ipv4 {bytes : Bytes} {datagram : Ipv4.Datagram}
    (arrived : interface.arriving? bytes = some (.ipv4 datagram)) :
    interface.receive bytes = .ok (some datagram, interface) := by
  unfold receive
  rw [arrived]

/-- An interface as it is put on a link: it has sent nothing, heard nothing and been asked for
    nothing, and it sees to all checksums. -/
structure Blank (interface : Interface) : Prop where
  unicast : interface.hardware.isUnicast
  specified : interface.address ≠ .unspecified
  policy : interface.policy = {}
  /-- The clock is not close to the last instant, where a mapping would run out at once. It begins at
      zero. -/
  early : interface.now.millis < 2 ^ 63
  neighbors : interface.neighbors = .empty
  waiting : interface.waiting = []
  frames : interface.frames = []

/-- An interface that has been given some datagrams for a next hop that nobody has told it about. It
    has asked for the next hop once. -/
def asking (interface : Interface) (nextHop : Ipv4.Address) (datagrams : List Ipv4.Datagram) :
    Interface :=
  { interface with
    neighbors := interface.neighbors.noteAsked nextHop interface.now
    waiting := datagrams.map fun datagram => ⟨nextHop, interface.now, datagram⟩
    frames := [interface.frame (.arp (.request interface.hardware interface.address nextHop))
      .broadcast] }

theorem foldlM_send_of_askedLately {nextHop : Ipv4.Address} {datagrams : List Ipv4.Datagram}
    (asked : interface.neighbors.lookup nextHop interface.now = .askedLately)
    (room : interface.waiting.length + datagrams.length ≤ 32) :
    datagrams.foldlM (fun current datagram => current.send datagram nextHop) interface =
      .ok { interface with
        waiting := interface.waiting ++
          datagrams.map fun datagram => ⟨nextHop, interface.now, datagram⟩ } := by
  induction datagrams generalizing interface with
  | nil =>
    rw [List.map_nil, List.append_nil]
    rfl
  | cons first rest ih =>
    rw [List.length_cons] at room
    have vacant : interface.waiting.length < maxWaiting := by
      unfold maxWaiting
      omega
    have queued : interface.send first nextHop = .ok (interface.enqueue first nextHop) := by
      unfold send
      rw [asked]
    rw [List.foldlM_cons, queued]
    unfold enqueue
    rw [if_pos vacant]
    refine (ih (by exact asked) ?_).trans ?_
    · dsimp only
      rw [List.length_append, List.length_singleton]
      omega
    · rw [List.map_cons, List.append_assoc]
      rfl

theorem Blank.foldlM_send (blank : interface.Blank) (nextHop : Ipv4.Address)
    (first : Ipv4.Datagram) (rest : List Ipv4.Datagram) (few : rest.length + 1 ≤ 32) :
    (first :: rest).foldlM (fun current datagram => current.send datagram nextHop) interface =
      .ok (interface.asking nextHop (first :: rest)) := by
  have fitting : (Packet.arp (.request interface.hardware interface.address nextHop)).Fits :=
    trivial
  have unknown : interface.neighbors.lookup nextHop interface.now = .unknown := by
    rw [blank.neighbors]
    rfl
  have sent : interface.send first nextHop = .ok (interface.asking nextHop [first]) := by
    unfold send
    rw [unknown]
    dsimp only
    rw [emit_of_fits fitting]
    dsimp only [bind, Except.bind]
    unfold enqueue asking
    dsimp only
    rw [blank.waiting, blank.frames]
    rfl
  have silent : (interface.asking nextHop [first]).neighbors.lookup nextHop interface.now =
      .askedLately := by
    refine (NeighborCache.lookup_of_none ?_).trans (if_pos ?_)
    · show interface.neighbors.hardwareOf? nextHop interface.now = none
      rw [blank.neighbors]
      rfl
    · refine NeighborCache.isSilent_iff.mpr ⟨interface.now + NeighborCache.silence, ?_, ?_⟩
      · show (interface.neighbors.noteAsked nextHop interface.now).asked.get? nextHop = _
        rw [blank.neighbors]
        exact NeighborCache.asked_noteAsked_self NeighborCache.sound_empty
      · rw [Instant.lt_iff, NeighborCache.millis_add_silence blank.early]
        omega
  rw [List.foldlM_cons, sent]
  refine (foldlM_send_of_askedLately silent ?_).trans rfl
  unfold asking
  rw [List.length_map, List.length_singleton]
  omega

section Resolution

variable {hardware : Ethernet.Address} {address : Ipv4.Address}

theorem isCredible_request (unicast : hardware.isUnicast) (specified : address ≠ .unspecified)
    (target : Ipv4.Address) : isCredible (.request hardware address target) = true :=
  isCredible_iff.mpr ⟨.inl rfl, unicast, specified⟩

theorem isCredible_replyTo {message : Arp.Message} (unicast : hardware.isUnicast)
    (specified : message.targetAddress ≠ .unspecified) :
    isCredible (message.replyTo hardware) = true :=
  isCredible_iff.mpr ⟨.inr rfl, unicast, specified⟩

theorem Blank.heeding_request (blank : interface.Blank) (hardware : Ethernet.Address)
    (address : Ipv4.Address) :
    interface.heeding (.request hardware address interface.address) =
      { interface.learn (.request hardware address interface.address) with
        frames := [interface.frame (.arp (Arp.Message.replyTo
          (.request hardware address interface.address) interface.hardware)) hardware] } := by
  have answers : interface.answers (.request hardware address interface.address) =
      [(hardware, .arp (Arp.Message.replyTo (.request hardware address interface.address)
        interface.hardware))] := by
    unfold Interface.answers
    rw [blank.waiting, if_pos ⟨rfl, rfl⟩]
    rfl
  unfold heeding learn
  rw [answers, blank.waiting, blank.frames]
  rfl

theorem heeding_of_awaited {message : Arp.Message} {datagrams : List Ipv4.Datagram}
    (waits : interface.waiting = datagrams.map fun datagram =>
      ⟨message.senderAddress, interface.now, datagram⟩)
    (silent : interface.frames = []) (reply : message.operation = .reply) :
    interface.heeding message =
      { interface.learn message with
        waiting := []
        frames := datagrams.map fun datagram =>
          interface.frame (.ipv4 datagram) message.senderHardware } := by
  have unanswered : ¬ (message.operation = .request ∧
      message.targetAddress = interface.address) := by
    rw [reply]
    rintro ⟨asked, _⟩
    cases asked
  have nobody : (interface.waiting.filter fun waiting =>
      decide (waiting.nextHop ≠ message.senderAddress)) = [] := by
    rw [waits]
    refine List.filter_eq_nil_iff.mpr fun waiting member other => of_decide_eq_true other ?_
    obtain ⟨_, _, rfl⟩ := List.mem_map.mp member
    rfl
  have everything : (interface.waiting.filter fun waiting =>
      decide (waiting.nextHop = message.senderAddress)) = interface.waiting := by
    rw [waits]
    refine List.filter_eq_self.mpr fun waiting member => decide_eq_true ?_
    obtain ⟨_, _, rfl⟩ := List.mem_map.mp member
    rfl
  unfold heeding answers
  rw [if_neg unanswered, nobody, everything, silent, waits, List.append_nil, List.nil_append,
    List.map_map, List.map_map]
  rfl

def question (asker asked : Interface) : Arp.Message :=
  .request asker.hardware asker.address asked.address

def answer (asked asker : Interface) : Arp.Message :=
  (asker.question asked).replyTo asked.hardware

def answering (asked asker : Interface) : Interface :=
  { asked.learn (asker.question asked) with
    frames := [asked.frame (.arp (asked.answer asker)) asker.hardware] }

/-- An interface that has asked another, has been answered and has sent what waited. -/
def informed (asker asked : Interface) (datagrams : List Ipv4.Datagram) : Interface :=
  { { asker.asking asked.address datagrams with frames := [] }.learn (asked.answer asker) with
    waiting := []
    frames := datagrams.map fun datagram => asker.frame (.ipv4 datagram) asked.hardware }

variable {asker asked : Interface} {datagrams : List Ipv4.Datagram}

theorem Blank.fits (blank : interface.Blank) : interface.Fits := by
  intro waiting member
  rw [blank.waiting] at member
  cases member

theorem Blank.receive_question (asks : asker.Blank) (hears : asked.Blank) :
    asked.receive (asker.frame (.arp (asker.question asked)) .broadcast) =
      .ok (none, asked.answering asker) := by
  have arrived : asked.arriving? (asker.frame (.arp (asker.question asked)) .broadcast) =
      some (.arp (asker.question asked)) :=
    arriving?_frame trivial (by rw [hears.policy, asks.policy]; exact id) (.inr rfl)
  have credible : isCredible (asker.question asked) = true :=
    isCredible_request asks.unicast asks.specified _
  have heard : asked.heeding (asker.question asked) = asked.answering asker :=
    hears.heeding_request ..
  rw [receive_of_arp arrived credible hears.fits, heard]

theorem Blank.receive_answer (asks : asker.Blank) (hears : asked.Blank)
    (fits : ∀ datagram ∈ datagrams, datagram.length ≤ Ipv4.Datagram.maxLength) :
    { asker.asking asked.address datagrams with frames := [] }.receive
        (asked.frame (.arp (asked.answer asker)) asker.hardware) =
      .ok (none, asker.informed asked datagrams) := by
  have arrived : { asker.asking asked.address datagrams with frames := [] }.arriving?
      (asked.frame (.arp (asked.answer asker)) asker.hardware) =
        some (.arp (asked.answer asker)) := by
    refine arriving?_frame trivial ?_ (.inl rfl)
    show asker.policy.ipv4.verifies → asked.policy.ipv4.computes
    rw [hears.policy, asks.policy]
    exact id
  have credible : isCredible (asked.answer asker) = true :=
    isCredible_replyTo hears.unicast hears.specified
  have waits : Fits { asker.asking asked.address datagrams with frames := [] } := by
    intro waiting member
    obtain ⟨datagram, given, rfl⟩ := List.mem_map.mp member
    exact fits datagram given
  have heard : heeding { asker.asking asked.address datagrams with frames := [] }
      (asked.answer asker) = asker.informed asked datagrams := heeding_of_awaited rfl rfl rfl
  rw [receive_of_arp arrived credible waits, heard]

theorem arriving?_informed {neighbor : Interface} (policy : asker.policy = {})
    (alike : neighbor.hardware = asked.hardware ∧ neighbor.policy = {})
    (fits : ∀ datagram ∈ datagrams, datagram.length ≤ Ipv4.Datagram.maxLength) :
    (asker.informed asked datagrams).frames.map neighbor.arriving? =
      datagrams.map fun datagram => some (.ipv4 datagram) := by
  unfold informed
  rw [List.map_map]
  refine List.map_congr_left fun datagram member => ?_
  refine arriving?_frame (fits datagram member) ?_ (.inl alike.1.symm)
  rw [policy, alike.2]
  exact id

end Resolution

end Interface

end NetStack.Link
