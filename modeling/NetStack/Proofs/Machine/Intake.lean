import NetStack.Proofs.Link.Arrival
import NetStack.Proofs.Link.Custody
import NetStack.Proofs.Machine.Format
import NetStack.Proofs.Tcp.Admission

namespace NetStack

namespace Machine

open Link (Interface Waiting)

def emit (interface : Interface) (packet : Link.Packet) (destination : Ethernet.Address) :
    Option Interface := do
  let frame ← writeFrame packet interface.policy interface.hardware destination
  return { interface with frames := interface.frames ++ [frame] }

def requeue (interface : Interface) (waiting : Waiting) : Interface :=
  if interface.waiting.length < Interface.maxWaiting then
    { interface with waiting := interface.waiting ++ [waiting] }
  else interface

/-- Take datagrams from a queue one by one: those for the address are sent. -/
def releaseEach (address : Ipv4.Address) (hardware : Ethernet.Address) :
    List Waiting → Interface → Option Interface
  | [], interface => some interface
  | first :: rest, interface =>
    if first.nextHop = address then do
      releaseEach address hardware rest (← emit interface (.ipv4 first.datagram) hardware)
    else releaseEach address hardware rest (requeue interface first)

def release (interface : Interface) (address : Ipv4.Address) (hardware : Ethernet.Address) :
    Option Interface :=
  releaseEach address hardware interface.waiting { interface with waiting := [] }

def heed (interface : Interface) (message : Arp.Message) : Option Interface := do
  if !message.operation.isKnown then return interface
  else if !message.senderHardware.isUnicast || message.senderAddress.isUnspecified then
    return interface
  else
    let released ←
      release (interface.learn message) message.senderAddress message.senderHardware
    if message.operation = .request ∧ message.targetAddress = interface.address then
      emit released (.arp (message.replyTo interface.hardware)) message.senderHardware
    else return released

def receive (interface : Interface) (buffer : Bytes) :
    Option (Option Ipv4.Datagram × Interface) := do
  if buffer.length < Ethernet.Frame.headerLength then return (none, interface)
  else
    let destination ← hardwareAt buffer 0
    if destination ≠ interface.hardware ∧ !destination.isBroadcast then return (none, interface)
    else
      let payload ← slice buffer Ethernet.Frame.headerLength buffer.length
      match ← readPacket interface.policy ⟨← word16At buffer 12⟩ payload with
      | none => return (none, interface)
      | some (.ipv4 datagram) => return (some datagram, interface)
      | some (.arp message) => return (none, ← heed interface message)

open Tcp (Binding Segment)

def checkPeer (binding : Binding) (source : Ipv4.Endpoint) (segment : Segment) :
    Option Segment × Binding :=
  match binding.peer with
  | some peer => if peer = source then (some segment, binding) else (none, binding)
  | none =>
    if segment.flags.syn then (some segment, { binding with peer := some source })
    else (none, binding)

def accept (binding : Binding) (datagram : Ipv4.Datagram) : Option (Option Segment × Binding) := do
  if datagram.protocol ≠ .tcp ∨ datagram.destination ≠ binding.own.address then
    return (none, binding)
  else
    match ← readSegment datagram.source datagram.destination binding.policy datagram.payload with
    | none => return (none, binding)
    | some segment =>
      if segment.destinationPort ≠ binding.own.port then return (none, binding)
      else return checkPeer binding ⟨datagram.source, segment.sourcePort⟩ segment

section Interface

variable {interface : Interface}

theorem emit_eq (interface : Interface) (packet : Link.Packet) (destination : Ethernet.Address) :
    emit interface packet destination = (interface.emit packet destination).toOption := by
  unfold emit Interface.emit
  rw [writeFrame_eq]
  cases packet.toFrame interface.policy interface.hardware destination <;> rfl

theorem toOption_bind {ε α β : Type} (first : Except ε α) (rest : α → Except ε β) :
    (first >>= rest).toOption = first.toOption >>= fun value => (rest value).toOption := by
  cases first <;> rfl

theorem releaseEach_eq (address : Ipv4.Address) (hardware : Ethernet.Address)
    (queue : List Waiting) (interface : Interface)
    (room : interface.waiting.length + queue.length ≤ Interface.maxWaiting) :
    releaseEach address hardware queue interface =
      Except.toOption ((queue.filter fun waiting => decide (waiting.nextHop = address)).foldlM
        (fun current waiting => Interface.emit current (.ipv4 waiting.datagram) hardware)
        { interface with
          waiting := interface.waiting ++
            queue.filter fun waiting => decide (waiting.nextHop ≠ address) }) := by
  induction queue generalizing interface with
  | nil =>
    rw [List.filter_nil, List.filter_nil, List.append_nil]
    rfl
  | cons first rest ih =>
    rw [List.length_cons] at room
    unfold releaseEach
    by_cases same : first.nextHop = address
    · rw [if_pos same, emit_eq]
      simp only [List.filter_cons, same, ne_eq, not_true, decide_true, decide_false, if_true,
        Bool.false_eq_true, if_false]
      rw [List.foldlM_cons, toOption_bind]
      unfold Interface.emit
      dsimp only
      cases Link.Packet.toFrame (.ipv4 first.datagram) interface.policy interface.hardware
        hardware with
      | error refusal => rfl
      | ok frame => exact ih _ (by dsimp only; omega)
    · have put : requeue interface first =
          { interface with waiting := interface.waiting ++ [first] } := if_pos (by omega)
      have later : (interface.waiting ++ [first]).length + rest.length ≤ Interface.maxWaiting := by
        rw [List.length_append, List.length_singleton]
        omega
      rw [if_neg same, put, ih _ later]
      simp only [List.filter_cons, same, ne_eq, not_false_eq_true, decide_true, decide_false,
        if_true, Bool.false_eq_true, if_false, List.append_assoc, List.singleton_append]

theorem release_eq (bounded : interface.waiting.length ≤ Interface.maxWaiting)
    (address : Ipv4.Address) (hardware : Ethernet.Address) :
    release interface address hardware = (interface.release address hardware).toOption := by
  rw [Interface.release_eq]
  have room : ([] : List Waiting).length + interface.waiting.length ≤ Interface.maxWaiting := by
    rwa [List.length_nil, Nat.zero_add]
  exact releaseEach_eq address hardware interface.waiting { interface with waiting := [] } room

theorem heed_eq (bounded : interface.waiting.length ≤ Interface.maxWaiting)
    (message : Arp.Message) : heed interface message = (interface.heed message).toOption := by
  by_cases credible : Interface.isCredible message = true
  · have learned : (interface.learn message).waiting.length ≤ Interface.maxWaiting := bounded
    have released := release_eq learned message.senderAddress message.senderHardware
    rw [Interface.heed_of_credible credible, toOption_bind, ← released]
    unfold Interface.isCredible at credible
    rw [Bool.and_eq_true, Bool.and_eq_true] at credible
    obtain ⟨⟨known, unicast⟩, specified⟩ := credible
    rw [Bool.not_eq_true'] at specified
    unfold heed
    rw [known, unicast, specified]
    show release _ _ _ >>= _ = release _ _ _ >>= _
    congr 1
    funext between
    split
    · exact emit_eq between _ _
    · rfl
  · rw [Interface.heed_of_not_credible credible]
    unfold Interface.isCredible at credible
    unfold heed
    cases known : message.operation.isKnown with
    | false => rfl
    | true =>
      rw [known, Bool.true_and] at credible
      have refused : (!message.senderHardware.isUnicast ||
          message.senderAddress.isUnspecified) = true := by
        cases unicast : message.senderHardware.isUnicast with
        | false => rfl
        | true => simpa [unicast] using credible
      rw [refused]
      rfl

theorem receive_eq (bounded : interface.waiting.length ≤ Interface.maxWaiting) (bytes : Bytes) :
    receive interface bytes = (interface.receive bytes).toOption := by
  unfold receive Interface.receive Interface.arriving? Ethernet.Frame.ofBytes?
  by_cases long : Ethernet.Frame.headerLength ≤ bytes.length
  · have inside : 14 ≤ bytes.length := long
    have read := readPacket_eq interface.policy
      ⟨.readAt bytes 0, .readAt bytes 6, ⟨bytes.word16At 12⟩,
        bytes.drop Ethernet.Frame.headerLength⟩
    dsimp only at read
    rw [if_neg (Nat.not_lt.mpr long), if_pos long, hardwareAt_eq (by omega),
      word16At_eq (by omega), slice_rest long]
    simp only [Option.bind_eq_bind, Option.bind_some, read]
    by_cases addressed : Ethernet.Address.readAt bytes 0 = interface.hardware ∨
        (Ethernet.Address.readAt bytes 0).isBroadcast = true
    · have stays : ¬ (Ethernet.Address.readAt bytes 0 ≠ interface.hardware ∧
          (!(Ethernet.Address.readAt bytes 0).isBroadcast) = true) := by
        simpa [or_iff_not_imp_left] using addressed
      rw [if_neg stays, guard, if_pos addressed]
      dsimp only [pure, Option.bind_some]
      cases Link.Packet.ofFrame? interface.policy _ with
      | none => rfl
      | some packet =>
        cases packet with
        | ipv4 datagram => rfl
        | arp message =>
          dsimp only
          rw [heed_eq bounded, toOption_bind]
          rfl
    · have leaves : Ethernet.Address.readAt bytes 0 ≠ interface.hardware ∧
          (!(Ethernet.Address.readAt bytes 0).isBroadcast) = true := by
        simpa using addressed
      rw [if_pos leaves, guard, if_neg addressed]
      rfl
  · rw [if_pos (Nat.lt_of_not_le long), if_neg long]
    rfl

end Interface

section Binding

variable (binding : Binding) {datagram : Ipv4.Datagram}

theorem accept_eq (short : datagram.payload.length ≤ 0x20000) :
    accept binding datagram = some (binding.accept datagram) := by
  unfold accept Binding.accept Binding.arriving?
  rw [readSegment_eq _ _ _ short]
  by_cases ours : datagram.protocol = .tcp ∧ datagram.destination = binding.own.address
  · have stays : ¬ (datagram.protocol ≠ .tcp ∨ datagram.destination ≠ binding.own.address) := by
      rw [not_or, not_not, not_not]
      exact ours
    rw [if_neg stays, guard, if_pos ours]
    simp only [Option.bind_eq_bind, Option.bind_some, Option.pure_def]
    cases Tcp.Packet.segment? ⟨datagram.payload⟩ datagram.source datagram.destination
      binding.policy with
    | none => rfl
    | some segment =>
      dsimp only [Option.bind_some]
      by_cases port : segment.destinationPort = binding.own.port
      · rw [if_neg (not_not.mpr port), guard, if_pos port]
        unfold checkPeer
        dsimp only [Option.pure_def, Option.bind_some]
        cases binding.peer with
        | none => rfl
        | some peer =>
          dsimp only
          split <;> rfl
      · rw [if_pos port, guard, if_neg port]
        rfl
  · have leaves : datagram.protocol ≠ .tcp ∨ datagram.destination ≠ binding.own.address :=
      not_and_or.mp ours
    rw [if_pos leaves, guard, if_neg ours]
    rfl

end Binding

end Machine

namespace Link.Interface

open Tcp (Binding)

variable {interface : Interface}

theorem holds_of_run {P : Interface → Prop} {start after : Interface} {ops : List Op}
    (ran : start.run ops = .ok after) (begins : P start)
    (kept : ∀ {before op frames after}, Proceeds before op frames after → P before → P after) :
    P after := by
  induction ops generalizing start with
  | nil =>
    cases ran
    exact begins
  | cons op rest ih =>
    obtain ⟨between, once, later⟩ := exists_of_bind_eq_ok ran
    obtain ⟨⟨reply, _⟩, stepped, rest⟩ := exists_of_bind_eq_ok once
    cases rest
    have proceeds := step_proceeds stepped
    rw [next_of_ok stepped] at proceeds
    exact ih later (kept proceeds begins)

/-- An interface takes any octets from the link. Only a message that it heeds changes it, and only a
    proper datagram for it is handed on, which any binding takes as well. -/
theorem receive_without_fault (hardware : Ethernet.Address) (address : Ipv4.Address)
    (ops : List Op) {interface : Interface}
    (ran : (fresh hardware address).run ops = .ok interface)
    (short : ∀ waiting ∈ interface.waiting, waiting.datagram.payload.length ≤ 65515)
    (bytes : Bytes) :
    ∃ delivered after, Machine.receive interface bytes = some (delivered, after) ∧
      interface.receive bytes = .ok (delivered, after) ∧
      (interface.heeds? bytes = none → after = interface) ∧
      ∀ datagram, delivered = some datagram →
        (∃ frame, Ethernet.Frame.ofBytes? bytes = some frame ∧ interface.Brings frame datagram) ∧
        ∀ binding : Binding, ∃ segment next,
          Machine.accept binding datagram = some (segment, next) ∧
            binding.accept datagram = (segment, next) ∧ (segment = none → next = binding) := by
  have orderly := holds_of_run ran (orderly_fresh hardware address) Proceeds.orderly
  have fit : ∀ waiting ∈ interface.waiting, waiting.datagram.length ≤ Ipv4.Datagram.maxLength := by
    intro waiting member
    have bound := short waiting member
    unfold Ipv4.Datagram.length Ipv4.headerLength Ipv4.Datagram.maxLength
    omega
  have machine := Machine.receive_eq orderly.bounded bytes
  have ⟨delivered, after, received, same⟩ : ∃ delivered after,
      interface.receive bytes = .ok (delivered, after) ∧
        (interface.heeds? bytes = none → after = interface) := by
    rcases interface.receive_cases bytes with ⟨message, heeds, _, hears⟩ | ⟨_, delivered, ignored⟩
    · obtain ⟨after, heeded⟩ := exists_heed message fit
      rw [heeded] at hears
      exact ⟨none, after, hears, fun ignores => by rw [heeds] at ignores; cases ignores⟩
    · exact ⟨delivered, interface, ignored, fun _ => rfl⟩
  rw [received] at machine
  refine ⟨delivered, after, machine, received, same, ?_⟩
  rintro datagram rfl
  obtain ⟨frame, framed, brings⟩ :=
    arriving?_eq_ipv4_iff.mp (brought?_eq_some_iff.mp (brought?_of_receive received))
  refine ⟨⟨frame, framed, brings⟩, fun binding =>
    ⟨(binding.accept datagram).1, (binding.accept datagram).2, ?_, rfl, fun refused => ?_⟩⟩
  · have short : datagram.payload.length ≤ 0x20000 := by
      have bound := brings.length_le
      unfold Ipv4.Datagram.length Ipv4.Datagram.maxLength at bound
      omega
    exact Machine.accept_eq binding short
  · exact congrArg Prod.snd (Binding.accept_of_refused refused)

/-- A SYN with one octet of payload arrives while a datagram waits for another neighbor. -/
theorem receive_without_fault_syn :
    let start := fresh ⟨2, 0, 0, 0, 0, 1⟩ (.ofOctets 10 0 0 1)
    let sent : Ipv4.Datagram :=
      { source := .ofOctets 10 0 0 1, destination := .ofOctets 10 0 0 9, protocol := .udp,
        payload := [1, 2] }
    let octets : Bytes := [0, 80, 0, 90, 0, 0, 0, 0, 0, 0, 0, 0, 80, 2, 0, 0, 148, 53, 0, 0, 7]
    let syn : Ipv4.Datagram :=
      { source := .ofOctets 10 0 0 2, destination := .ofOctets 10 0 0 1, protocol := .tcp,
        hopLimit := 1, payload := octets }
    let frame : Bytes := [2, 0, 0, 0, 0, 1, 2, 0, 0, 0, 0, 2, 8, 0, 69, 0, 0, 41, 0, 0, 64, 0, 1, 6,
      101, 205, 10, 0, 0, 2, 10, 0, 0, 1] ++ octets
    let listening : Binding := { own := ⟨.ofOctets 10 0 0 1, 90⟩ }
    let heard : Tcp.Segment :=
      { sourcePort := 80, destinationPort := 90, flags := { syn := true }, checksum := 0x9435,
        payload := [7] }
    ∃ interface, start.run [.send sent sent.destination] = .ok interface ∧
      interface.waiting.length = 1 ∧
      Machine.receive interface frame = some (some syn, interface) ∧
      Machine.accept listening syn =
        some (some heard, { listening with peer := some ⟨.ofOctets 10 0 0 2, 80⟩ }) := by
  intro start sent octets syn frame listening heard
  let interface := start.course [.send sent sent.destination]
  have ran : start.run [.send sent sent.destination] = .ok interface := rfl
  have short : ∀ waiting ∈ interface.waiting, waiting.datagram.payload.length ≤ 65515 := by
    decide +kernel
  obtain ⟨delivered, after, machine, received, _, taken⟩ :=
    receive_without_fault ⟨2, 0, 0, 0, 0, 1⟩ (.ofOctets 10 0 0 1) _ ran short frame
  have arrived : interface.arriving? frame = some (.ipv4 syn) := by decide +kernel
  have brought : interface.receive frame = .ok (some syn, interface) := by
    unfold receive
    rw [arrived]
  cases received.symm.trans brought
  obtain ⟨segment, next, accepted, model, _⟩ := (taken syn rfl).2 listening
  have let_in : listening.accept syn =
      (some heard, { listening with peer := some ⟨.ofOctets 10 0 0 2, 80⟩ }) := by
    decide +kernel
  rw [← model, let_in] at accepted
  exact ⟨interface, ran, rfl, machine, accepted⟩

end Link.Interface

end NetStack
