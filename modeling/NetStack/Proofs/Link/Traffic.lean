import Mathlib.Data.List.Induction
import Mathlib.Data.Option.Basic
import NetStack.Link.Interface
import NetStack.Proofs.Link.NeighborCache
import NetStack.Proofs.Wire.Frame

namespace NetStack.Link

open Ipv4.Datagram (TooLong)

theorem exists_of_bind_eq_ok {ε α β : Type} {first : Except ε α} {rest : α → Except ε β}
    {result : β} (done : first >>= rest = .ok result) :
    ∃ value, first = .ok value ∧ rest value = .ok result := by
  cases first with
  | error refusal => cases done
  | ok value => exact ⟨value, rfl, done⟩

namespace Packet

/-- What anyone on the link finds in a frame: whom it is for, and what it carries. -/
def read? (bytes : Bytes) : Option (Ethernet.Address × Packet) := do
  let frame ← Ethernet.Frame.ofBytes? bytes
  let packet ← ofFrame? .ignored frame
  return (frame.destination, packet)

theorem read?_framed {packet : Packet} {policy : Checksum.Policy}
    {source destination : Ethernet.Address} {frame : Ethernet.Frame}
    (framed : packet.toFrame policy source destination = .ok frame) :
    read? frame.toBytes = some (destination, packet) := by
  obtain ⟨payload, written, rfl⟩ := toFrame_eq_ok_iff.mp framed
  have unchecked : Checksum.Policy.ignored.ipv4.verifies → policy.ipv4.computes := nofun
  have found := ofFrame?_written written unchecked source destination []
  rw [List.append_nil] at found
  unfold read?
  rw [Ethernet.Frame.ofBytes?_toBytes]
  dsimp only [Option.bind_eq_bind, Option.bind_some]
  rw [found]
  rfl

def datagram? : Ethernet.Address × Packet → Option (Ethernet.Address × Ipv4.Datagram)
  | (destination, ipv4 datagram) => some (destination, datagram)
  | (_, arp _) => none

/-- The address whose owner a message asks for. -/
def question? : Ethernet.Address × Packet → Option Ipv4.Address
  | (_, arp message) => if message.operation = .request then some message.targetAddress else none
  | (_, ipv4 _) => none

def datagramsIn (frames : List Bytes) : List (Ethernet.Address × Ipv4.Datagram) :=
  (frames.filterMap read?).filterMap datagram?

def questionsIn (frames : List Bytes) : List Ipv4.Address :=
  (frames.filterMap read?).filterMap question?

theorem datagramsIn_singleton {frame : Bytes} {sent : Ethernet.Address × Packet}
    (reads : read? frame = some sent) : datagramsIn [frame] = (datagram? sent).toList := by
  unfold datagramsIn
  rw [List.filterMap_cons_some reads, List.filterMap_nil, List.filterMap_cons]
  cases datagram? sent <;> rfl

theorem questionsIn_singleton {frame : Bytes} {sent : Ethernet.Address × Packet}
    (reads : read? frame = some sent) : questionsIn [frame] = (question? sent).toList := by
  unfold questionsIn
  rw [List.filterMap_cons_some reads, List.filterMap_nil, List.filterMap_cons]
  cases question? sent <;> rfl

theorem filterMap_read? {frames : List Bytes} {packets : List (Ethernet.Address × Packet)}
    (reads : frames.map read? = packets.map some) : frames.filterMap read? = packets := by
  have whole : frames.filterMap read? = (frames.map read?).filterMap id := by
    rw [List.filterMap_map]
    rfl
  rw [whole, reads, List.filterMap_map]
  exact List.filterMap_some

theorem ofFrame?_eq_arp_iff {policy : Checksum.Policy} {frame : Ethernet.Frame}
    {message : Arp.Message} : ofFrame? policy frame = some (arp message) ↔
      frame.type = .arp ∧ Arp.Message.ofBytes? frame.payload = some message := by
  unfold ofFrame?
  split
  · rename_i type
    simp [type]
  · rename_i other
    simp only [other, false_and, iff_false]
    split
    · simp
    · exact nofun

end Packet

namespace Interface

variable {interface : Interface}

/-- The message in a frame that is for this interface or for everyone, if it asks or answers and a
    proper sender tells its own address. -/
def heeds? (interface : Interface) (bytes : Bytes) : Option Arp.Message := do
  let frame ← Ethernet.Frame.ofBytes? bytes
  guard (frame.destination = interface.hardware ∨ frame.destination = .broadcast)
  guard (frame.type = .arp)
  let message ← Arp.Message.ofBytes? frame.payload
  guard (message.operation = .request ∨ message.operation = .reply)
  guard (message.senderHardware.isUnicast ∧ message.senderAddress ≠ .unspecified)
  return message

/-- What an interface sends on hearing a message: the datagrams that waited for its sender, and the
    answer if it is asked for. -/
def answers (interface : Interface) (message : Arp.Message) :
    List (Ethernet.Address × Packet) :=
  (interface.waiting.filter fun waiting => decide (waiting.nextHop = message.senderAddress)).map
      (fun waiting => (message.senderHardware, .ipv4 waiting.datagram)) ++
    if message.operation = .request ∧ message.targetAddress = interface.address then
      [(message.senderHardware, .arp (message.replyTo interface.hardware))]
    else []

def learn (interface : Interface) (message : Arp.Message) : Interface :=
  { interface with
    neighbors :=
      interface.neighbors.fill message.senderAddress message.senderHardware interface.now }

/-- All that a step can do, with the frames that it puts out. -/
inductive Proceeds (before : Interface) : Op → List Bytes → Interface → Prop where
  | sent {datagram : Ipv4.Datagram} {nextHop : Ipv4.Address} {hardware : Ethernet.Address}
      {frame : Bytes} (known : before.neighbors.hardwareOf? nextHop before.now = some hardware)
      (reads : Packet.read? frame = some (hardware, .ipv4 datagram)) :
      Proceeds before (.send datagram nextHop) [frame]
        { before with frames := before.frames ++ [frame] }
  | asked {datagram : Ipv4.Datagram} {nextHop : Ipv4.Address} {frame : Bytes}
      (unknown : before.neighbors.hardwareOf? nextHop before.now = none)
      (unasked : before.neighbors.isSilent nextHop before.now = false)
      (reads : Packet.read? frame =
        some (.broadcast, .arp (.request before.hardware before.address nextHop))) :
      Proceeds before (.send datagram nextHop) [frame]
        ({ before with
          neighbors := before.neighbors.noteAsked nextHop before.now
          frames := before.frames ++ [frame] }.enqueue datagram nextHop)
  | held {datagram : Ipv4.Datagram} {nextHop : Ipv4.Address}
      (unknown : before.neighbors.hardwareOf? nextHop before.now = none)
      (silent : before.neighbors.isSilent nextHop before.now = true) :
      Proceeds before (.send datagram nextHop) [] (before.enqueue datagram nextHop)
  | heard {bytes : Bytes} {message : Arp.Message} {frames : List Bytes}
      (heeds : before.heeds? bytes = some message)
      (reads : frames.map Packet.read? = (before.answers message).map some) :
      Proceeds before (.receive bytes) frames
        { before.learn message with
          waiting := before.waiting.filter fun waiting =>
            decide (waiting.nextHop ≠ message.senderAddress)
          frames := before.frames ++ frames }
  | ignored {bytes : Bytes} (ignores : before.heeds? bytes = none) :
      Proceeds before (.receive bytes) [] before
  | tick (span : Duration) : Proceeds before (.tick span) [] (before.tick span)
  | setPolicy (policy : Checksum.Policy) :
      Proceeds before (.setPolicy policy) [] { before with policy }
  | drain : Proceeds before .drain [] { before with frames := [] }

section Enqueue

variable (interface) (datagram : Ipv4.Datagram) (nextHop : Ipv4.Address)

@[simp] theorem frames_enqueue :
    (interface.enqueue datagram nextHop).frames = interface.frames := by
  unfold enqueue
  split <;> rfl

@[simp] theorem neighbors_enqueue :
    (interface.enqueue datagram nextHop).neighbors = interface.neighbors := by
  unfold enqueue
  split <;> rfl

@[simp] theorem now_enqueue : (interface.enqueue datagram nextHop).now = interface.now := by
  unfold enqueue
  split <;> rfl

theorem waiting_enqueue : (interface.enqueue datagram nextHop).waiting =
    interface.waiting ++ if interface.waiting.length < maxWaiting then
      [⟨nextHop, interface.now, datagram⟩] else [] := by
  unfold enqueue
  split
  · rfl
  · rw [List.append_nil]

end Enqueue

section Emit

variable {packet : Packet} {destination : Ethernet.Address} {after : Interface}

theorem emit_eq_ok (emitted : interface.emit packet destination = .ok after) :
    ∃ frame, after = { interface with frames := interface.frames ++ [frame] } ∧
      Packet.read? frame = some (destination, packet) := by
  obtain ⟨frame, framed, rest⟩ := exists_of_bind_eq_ok emitted
  cases rest
  exact ⟨frame.toBytes, rfl, Packet.read?_framed framed⟩

theorem exists_emit (interface : Interface) (packet : Packet) (fits : packet.Fits)
    (destination : Ethernet.Address) : ∃ after, interface.emit packet destination = .ok after := by
  obtain ⟨payload, written⟩ := Packet.exists_toBytes fits interface.policy
  have framed := Packet.toFrame_eq_ok_iff.mpr
    ⟨payload, written, (rfl : _ = Ethernet.Frame.mk destination interface.hardware _ _)⟩
  unfold emit
  rw [framed]
  exact ⟨_, rfl⟩

theorem foldlM_emit_eq_ok {ready : List Waiting}
    (emitted : ready.foldlM (fun current waiting =>
      current.emit (.ipv4 waiting.datagram) destination) interface = .ok after) :
    ∃ frames, after = { interface with frames := interface.frames ++ frames } ∧
      frames.map Packet.read? =
        ready.map fun waiting => some (destination, .ipv4 waiting.datagram) := by
  induction ready generalizing interface with
  | nil =>
    cases emitted
    exact ⟨[], by rw [List.append_nil], rfl⟩
  | cons first rest ih =>
    rw [List.foldlM_cons] at emitted
    obtain ⟨between, sent, others⟩ := exists_of_bind_eq_ok emitted
    obtain ⟨frame, rfl, reads⟩ := emit_eq_ok sent
    obtain ⟨frames, rfl, later⟩ := ih others
    refine ⟨frame :: frames, by simp, ?_⟩
    rw [List.map_cons, List.map_cons, reads, later]

theorem exists_foldlM_emit {ready : List Waiting} (interface : Interface)
    (fit : ∀ waiting ∈ ready, waiting.datagram.length ≤ Ipv4.Datagram.maxLength)
    (destination : Ethernet.Address) : ∃ after, ready.foldlM (fun current waiting =>
      current.emit (.ipv4 waiting.datagram) destination) interface = .ok after := by
  induction ready generalizing interface with
  | nil => exact ⟨interface, rfl⟩
  | cons first rest ih =>
    obtain ⟨between, sent⟩ := interface.exists_emit (.ipv4 first.datagram)
      (fit first List.mem_cons_self) destination
    obtain ⟨after, later⟩ := ih between fun waiting member =>
      fit waiting (List.mem_cons_of_mem _ member)
    refine ⟨after, ?_⟩
    rw [List.foldlM_cons, sent]
    exact later

end Emit

section Receive

variable {bytes : Bytes} {message : Arp.Message}

theorem isCredible_iff : isCredible message = true ↔
    (message.operation = .request ∨ message.operation = .reply) ∧
      (message.senderHardware.isUnicast ∧ message.senderAddress ≠ .unspecified) := by
  unfold isCredible Arp.Operation.isKnown Ipv4.Address.isUnspecified
  simp [and_assoc]

theorem heeds?_eq_some_iff : interface.heeds? bytes = some message ↔
    interface.arriving? bytes = some (.arp message) ∧ isCredible message = true := by
  unfold heeds? arriving? Ethernet.Address.isBroadcast
  rw [isCredible_iff]
  simp only [Option.bind_eq_bind, Option.bind_eq_some_iff, Option.guard_eq_some', beq_iff_eq,
    Packet.ofFrame?_eq_arp_iff]
  constructor
  · rintro ⟨frame, framed, _, addressed, _, type, _, read, _, operation, _, sender, ⟨⟩⟩
    exact ⟨⟨frame, framed, (), addressed, type, read⟩, operation, sender⟩
  · rintro ⟨⟨frame, framed, _, addressed, type, read⟩, operation, sender⟩
    exact ⟨frame, framed, (), addressed, (), type, message, read, (), operation, (), sender, rfl⟩

theorem heed_of_not_credible (incredible : ¬ isCredible message = true) :
    interface.heed message = .ok interface := if_neg incredible

/-- A frame either brings a message that is heeded or leaves the interface as it is. -/
theorem receive_cases (interface : Interface) (bytes : Bytes) :
    (∃ message, interface.heeds? bytes = some message ∧ isCredible message = true ∧
      interface.receive bytes = do return (none, ← interface.heed message)) ∨
    interface.heeds? bytes = none ∧
      ∃ delivered, interface.receive bytes = .ok (delivered, interface) := by
  unfold receive
  cases arrived : interface.arriving? bytes with
  | none =>
    refine .inr ⟨Option.eq_none_iff_forall_ne_some.mpr fun message heeds => ?_, none, rfl⟩
    simp [heeds?_eq_some_iff, arrived] at heeds
  | some packet =>
    cases packet with
    | ipv4 datagram =>
      refine .inr ⟨Option.eq_none_iff_forall_ne_some.mpr fun message heeds => ?_, datagram, rfl⟩
      simp [heeds?_eq_some_iff, arrived] at heeds
    | arp message =>
      by_cases credible : isCredible message = true
      · exact .inl ⟨message, heeds?_eq_some_iff.mpr ⟨arrived, credible⟩, credible, rfl⟩
      · refine .inr ⟨Option.eq_none_iff_forall_ne_some.mpr fun other heeds => ?_, none, ?_⟩
        · obtain ⟨same, heeded⟩ := heeds?_eq_some_iff.mp heeds
          rw [arrived] at same
          cases same
          exact credible heeded
        · dsimp only
          rw [heed_of_not_credible credible]
          rfl

theorem release_eq (address : Ipv4.Address) (hardware : Ethernet.Address) :
    interface.release address hardware =
      (interface.waiting.filter fun waiting => decide (waiting.nextHop = address)).foldlM
        (fun current waiting => current.emit (.ipv4 waiting.datagram) hardware)
        { interface with
          waiting :=
            interface.waiting.filter fun waiting => decide (waiting.nextHop ≠ address) } := by
  have others : interface.waiting.filter (not ∘ fun waiting => decide (waiting.nextHop = address)) =
      interface.waiting.filter fun waiting => decide (waiting.nextHop ≠ address) :=
    List.filter_congr fun waiting _ => by simp
  unfold release
  rw [List.partition_eq_filter_filter, others]

theorem heed_of_credible (credible : isCredible message = true) : interface.heed message = do
    let released ←
      (interface.learn message).release message.senderAddress message.senderHardware
    if message.operation = .request ∧ message.targetAddress = interface.address then
      released.emit (.arp (message.replyTo interface.hardware)) message.senderHardware
    else
      return released :=
  if_pos credible

theorem heed_eq_ok {after : Interface} (credible : isCredible message = true)
    (heeded : interface.heed message = .ok after) :
    ∃ frames, frames.map Packet.read? = (interface.answers message).map some ∧
      after = { interface.learn message with
        waiting := interface.waiting.filter fun waiting =>
          decide (waiting.nextHop ≠ message.senderAddress)
        frames := interface.frames ++ frames } := by
  rw [heed_of_credible credible] at heeded
  obtain ⟨between, released, answered⟩ := exists_of_bind_eq_ok heeded
  rw [release_eq] at released
  obtain ⟨frames, rfl, reads⟩ := foldlM_emit_eq_ok released
  unfold answers
  split at answered
  · rename_i asked
    obtain ⟨frame, rfl, answer⟩ := emit_eq_ok answered
    refine ⟨frames ++ [frame], ?_, ?_⟩
    · rw [if_pos asked, List.map_append, reads, List.map_append, List.map_map, List.map_singleton,
        answer]
      rfl
    · unfold learn
      rw [List.append_assoc]
  · rename_i unasked
    cases answered
    refine ⟨frames, ?_, rfl⟩
    rw [if_neg unasked, reads, List.append_nil, List.map_map]
    rfl

theorem exists_heed (message : Arp.Message)
    (fit : ∀ waiting ∈ interface.waiting,
      waiting.datagram.length ≤ Ipv4.Datagram.maxLength) :
    ∃ after, interface.heed message = .ok after := by
  by_cases credible : isCredible message = true
  · obtain ⟨between, released⟩ : ∃ between, (interface.learn message).release
        message.senderAddress message.senderHardware = .ok between := by
      rw [release_eq]
      exact exists_foldlM_emit _ (fun waiting member => fit waiting (List.mem_filter.mp member).1) _
    rw [heed_of_credible credible, released]
    show ∃ after, ite _ _ _ = _
    split
    · exact between.exists_emit (.arp _) trivial _
    · exact ⟨between, rfl⟩
  · exact ⟨interface, heed_of_not_credible credible⟩

end Receive

section Step

variable {op : Op} {reply : Reply} {after : Interface}

/-- The interface after an operation. An operation that fails leaves it as it was. -/
def next (interface : Interface) (op : Op) : Interface :=
  match interface.step op with
  | .ok (_, after) => after
  | .error _ => interface

def putOut (interface : Interface) (op : Op) : List Bytes :=
  (interface.next op).frames.drop interface.frames.length

theorem next_of_ok (stepped : interface.step op = .ok (reply, after)) :
    interface.next op = after := by
  unfold next
  rw [stepped]

theorem step_proceeds (stepped : interface.step op = .ok (reply, after)) :
    interface.Proceeds op (interface.putOut op) (interface.next op) := by
  unfold putOut
  rw [next_of_ok stepped]
  cases op with
  | send datagram nextHop =>
    obtain ⟨handed, sent, rest⟩ := exists_of_bind_eq_ok stepped
    cases rest
    unfold send at sent
    cases known : interface.neighbors.hardwareOf? nextHop interface.now with
    | some hardware =>
      rw [NeighborCache.lookup_eq_found_iff.mpr known] at sent
      obtain ⟨frame, rfl, reads⟩ := emit_eq_ok sent
      rw [List.drop_left]
      exact .sent known reads
    | none =>
      rw [NeighborCache.lookup_of_none known] at sent
      cases silent : interface.neighbors.isSilent nextHop interface.now with
      | true =>
        rw [silent] at sent
        cases sent
        rw [frames_enqueue, List.drop_length]
        exact .held known silent
      | false =>
        rw [silent] at sent
        obtain ⟨between, emitted, rest⟩ := exists_of_bind_eq_ok sent
        cases rest
        obtain ⟨frame, rfl, reads⟩ := emit_eq_ok emitted
        rw [frames_enqueue, List.drop_left]
        exact .asked known silent reads
  | receive bytes =>
    obtain ⟨handed, received, rest⟩ := exists_of_bind_eq_ok stepped
    cases rest
    rcases interface.receive_cases bytes with
      ⟨message, heeds, credible, hears⟩ | ⟨ignores, delivered, same⟩
    · rw [hears] at received
      obtain ⟨between, heeded, rest⟩ := exists_of_bind_eq_ok received
      cases rest
      obtain ⟨frames, reads, rfl⟩ := heed_eq_ok credible heeded
      rw [List.drop_left]
      exact .heard heeds reads
    · rw [same] at received
      cases received
      rw [List.drop_length]
      exact .ignored ignores
  | tick span =>
    cases stepped
    rw [show (interface.tick span).frames = interface.frames from rfl, List.drop_length]
    exact .tick span
  | setPolicy policy =>
    cases stepped
    rw [List.drop_length]
    exact .setPolicy policy
  | drain =>
    cases stepped
    show interface.Proceeds .drain (List.drop _ []) _
    rw [List.drop_nil]
    exact .drain

def Op.millis : Op → Nat
  | .tick span => span.millis
  | _ => 0

theorem Proceeds.now_eq {frames : List Bytes} (proceeds : interface.Proceeds op frames after) :
    after.now.millis = min (interface.now.millis + op.millis) maxMillis := by
  have bound := interface.now.bounded
  cases proceeds with
  | tick span => rfl
  | sent | heard | ignored | setPolicy | drain =>
    show interface.now.millis = min (interface.now.millis + 0) maxMillis
    omega
  | asked | held =>
    rw [now_enqueue]
    show interface.now.millis = min (interface.now.millis + 0) maxMillis
    omega

theorem Proceeds.now_le {frames : List Bytes} (proceeds : interface.Proceeds op frames after) :
    interface.now ≤ after.now := by
  have bound := interface.now.bounded
  rw [Instant.le_iff, proceeds.now_eq]
  omega

theorem Proceeds.now_of_tick {span : Duration} {frames : List Bytes}
    (proceeds : interface.Proceeds (.tick span) frames after) :
    after.now = interface.now + span := by
  cases proceeds
  rfl

theorem now_next (interface : Interface) (op : Op) :
    (interface.next op).now.millis = min (interface.now.millis + op.millis) maxMillis := by
  cases stepped : interface.step op with
  | error refusal =>
    have untimed : op.millis = 0 := by
      cases op with
      | tick => cases stepped
      | send | receive | setPolicy | drain => rfl
    have bound := interface.now.bounded
    unfold next
    rw [stepped, untimed]
    dsimp only
    omega
  | ok outcome => exact (step_proceeds stepped).now_eq

theorem exists_step (interface : Interface)
    (fit : ∀ waiting ∈ interface.waiting, waiting.datagram.length ≤ Ipv4.Datagram.maxLength)
    (fits : ∀ datagram nextHop, op = .send datagram nextHop →
      datagram.length ≤ Ipv4.Datagram.maxLength) :
    ∃ reply after, interface.step op = .ok (reply, after) := by
  cases op with
  | send datagram nextHop =>
    obtain ⟨after, sent⟩ : ∃ after, interface.send datagram nextHop = .ok after := by
      unfold send
      split
      · exact interface.exists_emit (.ipv4 _) (fits _ _ rfl) _
      · exact ⟨_, rfl⟩
      · obtain ⟨between, asked⟩ := interface.exists_emit
          (.arp (.request interface.hardware interface.address nextHop)) trivial .broadcast
        dsimp only
        rw [asked]
        exact ⟨_, rfl⟩
    unfold step
    dsimp only
    rw [sent]
    exact ⟨_, _, rfl⟩
  | receive bytes =>
    unfold step
    dsimp only
    rcases interface.receive_cases bytes with ⟨message, _, _, hears⟩ | ⟨_, delivered, same⟩
    · obtain ⟨after, heeded⟩ := exists_heed message fit
      rw [hears, heeded]
      exact ⟨_, _, rfl⟩
    · rw [same]
      exact ⟨_, _, rfl⟩
  | tick | setPolicy | drain => exact ⟨_, _, rfl⟩

end Step

section Run

def fresh (hardware : Ethernet.Address) (address : Ipv4.Address) : Interface :=
  { hardware, address }

def course (interface : Interface) (ops : List Op) : Interface := ops.foldl next interface

variable (start : Interface)

@[simp] theorem course_nil : start.course [] = start := rfl

theorem course_append (front back : List Op) :
    start.course (front ++ back) = (start.course front).course back :=
  List.foldl_append

/-- The time that passes in a run, in milliseconds. -/
def elapsed (ops : List Op) : Nat := (ops.map Op.millis).sum

theorem now_course (ops : List Op) :
    (start.course ops).now.millis = min (start.now.millis + elapsed ops) maxMillis := by
  induction ops generalizing start with
  | nil =>
    have bound := start.now.bounded
    show start.now.millis = min (start.now.millis + 0) maxMillis
    omega
  | cons op rest ih =>
    show ((start.next op).course rest).now.millis = min (_ + (op.millis + elapsed rest)) _
    rw [ih, now_next]
    omega

theorem now_le_of_isPrefix {front ops : List Op} (before : front <+: ops) :
    (start.course front).now ≤ (start.course ops).now := by
  obtain ⟨back, rfl⟩ := before
  have bound := (start.course front).now.bounded
  rw [course_append, Instant.le_iff, now_course _ back]
  omega

variable {start}

theorem run_eq_ok {ops : List Op} {after : Interface} (ran : start.run ops = .ok after) :
    after = start.course ops ∧ ∀ front op back, ops = front ++ op :: back →
      (start.course front).Proceeds op ((start.course front).putOut op)
        (start.course (front ++ [op])) := by
  induction ops generalizing start with
  | nil =>
    cases ran
    exact ⟨rfl, fun front op back split => by simp at split⟩
  | cons first rest ih =>
    obtain ⟨between, once, later⟩ := exists_of_bind_eq_ok ran
    obtain ⟨⟨reply, _⟩, stepped, rest⟩ := exists_of_bind_eq_ok once
    cases rest
    have next := next_of_ok stepped
    obtain ⟨ends, proceeds⟩ := ih later
    refine ⟨by rw [ends, ← next]; rfl, ?_⟩
    intro front op back split
    cases front with
    | nil =>
      cases split
      exact step_proceeds stepped
    | cons _ front =>
      cases split
      have onward := proceeds front op back rfl
      rw [← next] at onward
      exact onward

theorem run_take {ops : List Op} {after : Interface} (ran : start.run ops = .ok after)
    (moment : Nat) : start.run (ops.take moment) = .ok (start.course (ops.take moment)) := by
  unfold run at ran
  rw [← List.take_append_drop moment ops, List.foldlM_append] at ran
  obtain ⟨between, sooner, _⟩ := exists_of_bind_eq_ok ran
  have first : start.run (ops.take moment) = .ok between := sooner
  rw [first, (run_eq_ok first).1]

/-- Before the last instant, the clock of a new interface shows how much time has passed. -/
theorem now_eq_elapsed {hardware : Ethernet.Address} {address : Ipv4.Address} {front ops : List Op}
    {after : Interface} (ran : (fresh hardware address).run ops = .ok after)
    (early : after.now.millis < 2 ^ 63) (before : front <+: ops) :
    ((fresh hardware address).course front).now.millis = elapsed front := by
  have le := now_le_of_isPrefix (fresh hardware address) before
  rw [← (run_eq_ok ran).1, Instant.le_iff] at le
  have shown := (fresh hardware address).now_course front
  have zero : (fresh hardware address).now.millis = 0 := rfl
  unfold maxMillis at shown
  omega

/-- What holds at the start and is kept by whatever a step can do holds after a run. -/
theorem run_induction {P : List Op → Prop} {ops : List Op} {after : Interface}
    (ran : start.run ops = .ok after) (early : after.now.millis < 2 ^ 63) (begins : P [])
    (stepped : ∀ front op, front ++ [op] <+: ops →
      (start.course (front ++ [op])).now.millis < 2 ^ 63 →
      (start.course front).Proceeds op ((start.course front).putOut op)
        (start.course (front ++ [op])) → P front → P (front ++ [op])) : P ops := by
  obtain ⟨rfl, proceeds⟩ := run_eq_ok ran
  have within (front : List Op) (before : front <+: ops) : P front := by
    induction front using List.reverseRecOn with
    | nil => exact begins
    | append_singleton front op ih =>
      have shorter : front <+: ops := (List.prefix_append front [op]).trans before
      obtain ⟨back, split⟩ := before
      refine stepped front op ⟨back, split⟩ ?_ ?_ (ih shorter)
      · exact Nat.lt_of_le_of_lt (start.now_le_of_isPrefix ⟨back, split⟩) early
      · exact proceeds front op back (by rw [← split, List.append_assoc]; rfl)
  exact within ops List.prefix_rfl

end Run

end Interface

end NetStack.Link
