import NetStack.Simulation.Pair

namespace NetStack.Simulation

open Tcp

@[simp] theorem Side.other_other (side : Side) : side.other.other = side := by
  cases side <;> rfl

theorem Side.eq_other_of_ne {side other : Side} (distinct : side ≠ other) : side = other.other := by
  cases side <;> cases other <;> simp_all [Side.other]

inductive Call where
  | connect
  | write (data : Bytes)
  | finish
  | read (count : Nat)
  | tick (span : Duration)
  | abort
  deriving DecidableEq

def Call.op : Call → Connection.Op
  | connect => .connect
  | write data => .write data
  | finish => .finish
  | read count => .read count
  | tick span => .tick span
  | abort => .abort

def acceptedBy : Connection.Op → Connection.Reply → Bytes
  | .write data, .count written => data.take written
  | _, _ => []

def takenBy : Connection.Reply → Bytes
  | .bytes data => data
  | _ => []

def heardBy : Connection.Op → List Segment
  | .receive segment => [segment]
  | _ => []

/-- A connection with a record of all that passed through it. -/
structure Party where
  connection : Connection
  sent : List Segment := []
  heard : List Segment := []
  accepted : Bytes := []
  taken : Bytes := []
  deriving DecidableEq

namespace Party

def received (p : Party) : Bytes := p.taken ++ p.connection.inbound.toList

/-- Let the connection perform an operation, and move what it queues to the log. -/
def act (p : Party) (op : Connection.Op) : Party :=
  let (reply, next) := p.connection.step op
  { connection := { next with queue := [] }
    sent := p.sent ++ next.queue
    heard := p.heard ++ heardBy op
    accepted := p.accepted ++ acceptedBy op reply
    taken := p.taken ++ takenBy reply }

end Party

structure Setup where
  config : Config
  inbound : Array UInt8
  outbound : Array UInt8
  deriving DecidableEq

def Setup.ofConfig (config : Config) : Setup where
  config := config
  inbound := Array.replicate config.receiveCapacity 0
  outbound := Array.replicate config.sendCapacity 0

def Setup.party (setup : Setup) : Party :=
  { connection := .ofStorage setup.config setup.inbound setup.outbound }

structure Session where
  a : Party
  b : Party
  deriving DecidableEq

namespace Session

def start (a b : Setup) : Session := ⟨a.party, b.party⟩

def party (session : Session) : Side → Party
  | .a => session.a
  | .b => session.b

def withParty (session : Session) (party : Party) : Side → Session
  | .a => { session with a := party }
  | .b => { session with b := party }

inductive Event where
  | call (side : Side) (call : Call)
  /-- Hand the segment that a side queued as its `index`-th one to the other side. -/
  | deliver (side : Side) (index : Nat)
  deriving DecidableEq

def step (session : Session) : Event → Session
  | .call side call => session.withParty ((session.party side).act call.op) side
  | .deliver side index =>
    match (session.party side).sent[index]? with
    | some segment =>
      session.withParty ((session.party side.other).act (.receive segment)) side.other
    | none => session

def run (session : Session) (events : List Event) : Session :=
  events.foldl step session

@[simp] theorem party_withParty (session : Session) (party : Party) (side : Side) :
    (session.withParty party side).party side = party := by
  cases side <;> rfl

@[simp] theorem party_other_withParty (session : Session) (party : Party) (side : Side) :
    (session.withParty party side).party side.other = session.party side.other := by
  cases side <;> rfl

theorem run_append (session : Session) (first second : List Event) :
    session.run (first ++ second) = (session.run first).run second := List.foldl_append

theorem step_cases (session : Session) (event : Event) :
    session.step event = session ∨
    ∃ side op, session.step event = session.withParty ((session.party side).act op) side ∧
      (∀ segment, op = .receive segment → segment ∈ (session.party side.other).sent) ∧
      (op = .finish → event = .call side .finish) := by
  cases event with
  | call side call =>
    refine .inr ⟨side, call.op, rfl, ?_, ?_⟩ <;> cases call <;> simp [Call.op]
  | deliver side index =>
    cases found : (session.party side).sent[index]? with
    | some segment =>
      refine .inr ⟨side.other, .receive segment, by simp [step, found], ?_, by simp⟩
      rintro _ ⟨⟩
      rw [Side.other_other]
      exact List.mem_of_getElem? found
    | none => exact .inl (by simp [step, found])

theorem run_induction {P : Session → Prop} {session : Session} {events : List Event}
    (start : P session) (stepped : ∀ before event, P before → P (before.step event)) :
    P (session.run events) := by
  induction events generalizing session with
  | nil => exact start
  | cons event rest ih => exact ih (stepped session event start)

theorem step_party (session : Session) (event : Event) (side : Side) :
    (session.step event).party side = session.party side ∨
    ∃ op, (session.step event).party side = (session.party side).act op ∧
      (∀ segment, op = .receive segment → segment ∈ (session.party side.other).sent) ∧
      (op = .finish → event = .call side .finish) := by
  rcases session.step_cases event with same | ⟨actor, op, acted, heard, finishes⟩
  · exact .inl (by rw [same])
  · by_cases own : side = actor
    · subst own
      exact .inr ⟨op, by rw [acted, party_withParty], heard, finishes⟩
    · rw [acted, Side.eq_other_of_ne own, party_other_withParty]
      exact .inl rfl

theorem step_grows (session : Session) (event : Event) (side : Side) :
    (session.party side).accepted <+: ((session.step event).party side).accepted ∧
      (session.party side).sent <+: ((session.step event).party side).sent := by
  rcases session.step_party event side with same | ⟨op, acted, _⟩
  · rw [same]
    exact ⟨List.prefix_rfl, List.prefix_rfl⟩
  · rw [acted]
    exact ⟨List.prefix_append _ _, List.prefix_append _ _⟩

end Session

end NetStack.Simulation
