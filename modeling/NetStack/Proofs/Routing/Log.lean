import Mathlib.Data.List.Induction
import NetStack.Proofs.Routing.Ports

namespace NetStack.Routing

open Link (Interface)

/-- A datagram in a frame that was put out: in which step, on which port, and for whom. -/
structure Departure where
  step : Nat
  port : Nat
  hardware : Ethernet.Address
  datagram : Ipv4.Datagram
  deriving DecidableEq

namespace Router

section Course

def next (router : Router) (op : Op) : Router :=
  match router.step op with
  | .ok (_, after) => after
  | .error _ => router

theorem next_of_ok {router after : Router} {op : Op} {reply : Reply}
    (stepped : router.step op = .ok (reply, after)) : router.next op = after := by
  unfold next
  rw [stepped]

def course (start : Router) (ops : List Op) : Router := ops.foldl next start

theorem course_append_singleton (start : Router) (ops : List Op) (op : Op) :
    start.course (ops ++ [op]) = (start.course ops).next op := by
  unfold course
  rw [List.foldl_append]
  rfl

theorem run_append_singleton {start : Router} {ops : List Op} {op : Op} {reply : Reply}
    {after : Router} (ran : start.run ops = .ok (start.course ops))
    (stepped : (start.course ops).step op = .ok (reply, after)) :
    start.run (ops ++ [op]) = .ok (start.course (ops ++ [op])) := by
  have last : (start.course ops).run [op] = .ok after := by
    unfold run
    rw [List.foldlM_cons, stepped]
    rfl
  rw [course_append_singleton, next_of_ok stepped]
  unfold run at ran last ⊢
  rw [List.foldlM_append, ran]
  exact last

end Course

section Records

variable {β : Type}

/-- What is recorded of a run, step by step. The first step has the number `step`. -/
def logFrom (record : Router → Nat → Op → List β) (router : Router) (step : Nat) :
    List Op → List β
  | [] => []
  | op :: rest => record router step op ++ (router.next op).logFrom record (step + 1) rest

theorem logFrom_append_singleton (record : Router → Nat → Op → List β) (router : Router)
    (step : Nat) (ops : List Op) (op : Op) :
    router.logFrom record step (ops ++ [op]) =
      router.logFrom record step ops ++ record (router.course ops) (step + ops.length) op := by
  induction ops generalizing router step with
  | nil => exact List.append_nil _
  | cons first rest ih =>
    rw [List.cons_append, logFrom, ih, logFrom, List.append_assoc, List.length_cons,
      Nat.add_right_comm, Nat.add_assoc]
    rfl

end Records

def arrivingAt (router : Router) (step : Nat) (op : Op) : List Arrival :=
  (router.arriving? op).toList.map fun arriving => ⟨step, arriving.1, arriving.2⟩

def arrivals (start : Router) (ops : List Op) : List Arrival := start.logFrom arrivingAt 0 ops

def framesOn (router : Router) (port : Nat) : List Bytes :=
  (router.interface? port).elim [] (·.frames)

def putOut (router : Router) (op : Op) (port : Nat) : List Bytes :=
  ((router.next op).framesOn port).drop (router.framesOn port).length

def emitted (start : Router) (port : Nat) (ops : List Op) : List Bytes :=
  start.logFrom (fun router _ op => router.putOut op port) 0 ops

def departingAt (port : Nat) (router : Router) (step : Nat) (op : Op) : List Departure :=
  (Link.Packet.datagramsIn (router.putOut op port)).map fun sent => ⟨step, port, sent.1, sent.2⟩

def departures (start : Router) (port : Nat) (ops : List Op) : List Departure :=
  start.logFrom (departingAt port) 0 ops

section Logs

variable (start : Router) (ops : List Op) (op : Op)

theorem arrivals_append_singleton : start.arrivals (ops ++ [op]) =
    start.arrivals ops ++ (start.course ops).arrivingAt ops.length op := by
  unfold arrivals
  rw [logFrom_append_singleton, Nat.zero_add]

theorem emitted_append_singleton (port : Nat) : start.emitted port (ops ++ [op]) =
    start.emitted port ops ++ (start.course ops).putOut op port :=
  logFrom_append_singleton ..

theorem departures_append_singleton (port : Nat) : start.departures port (ops ++ [op]) =
    start.departures port ops ++ (start.course ops).departingAt port ops.length op := by
  unfold departures
  rw [logFrom_append_singleton, Nat.zero_add]

end Logs

section Arrivals

variable {start : Router} {ops : List Op} {arrival : Arrival}

theorem mem_arrivingAt {router : Router} {step : Nat} {op : Op} :
    arrival ∈ router.arrivingAt step op ↔
      arrival.step = step ∧ router.arriving? op = some (arrival.port, arrival.datagram) := by
  unfold arrivingAt
  rw [List.mem_map]
  constructor
  · rintro ⟨arriving, member, rfl⟩
    exact ⟨rfl, Option.mem_toList.mp member⟩
  · rintro ⟨rfl, arrives⟩
    exact ⟨_, Option.mem_toList.mpr arrives, rfl⟩

theorem map_datagram_arrivingAt (router : Router) (step : Nat) (op : Op) (port : Nat) :
    ((router.arrivingAt step op).filter fun arrival => decide (arrival.port = port)).map
      Arrival.datagram = router.arrivingOn op port := by
  unfold arrivingAt arrivingOn
  cases router.arriving? op with
  | none => rfl
  | some arriving =>
    by_cases here : arriving.1 = port <;> simp [Option.filter, here]

theorem step_lt_of_mem_arrivals (member : arrival ∈ start.arrivals ops) :
    arrival.step < ops.length := by
  induction ops using List.reverseRecOn with
  | nil => cases member
  | append_singleton ops op ih =>
    rw [List.length_append, List.length_singleton]
    rw [arrivals_append_singleton] at member
    rcases List.mem_append.mp member with old | new
    · exact Nat.lt_succ_of_lt (ih old)
    · rw [(mem_arrivingAt.mp new).1]
      exact Nat.lt_succ_self _

theorem length_le_of_mem_arrivals (member : arrival ∈ start.arrivals ops) :
    arrival.datagram.length ≤ Ipv4.Datagram.maxLength := by
  induction ops using List.reverseRecOn with
  | nil => cases member
  | append_singleton ops op ih =>
    rw [arrivals_append_singleton] at member
    rcases List.mem_append.mp member with old | new
    · exact ih old
    · obtain ⟨_, _, _, _, brought⟩ := arriving?_eq_some_iff.mp (mem_arrivingAt.mp new).2
      exact Interface.length_le_of_brought? brought

/-- Arrivals are in the order of the steps, and no step brings more than one. -/
theorem pairwise_arrivals (start : Router) (ops : List Op) :
    (start.arrivals ops).Pairwise fun sooner later => sooner.step < later.step := by
  induction ops using List.reverseRecOn with
  | nil => exact .nil
  | append_singleton ops op ih =>
    rw [arrivals_append_singleton, List.pairwise_append]
    refine ⟨ih, ?_, fun sooner old later new => ?_⟩
    · unfold arrivingAt
      cases (start.course ops).arriving? op with
      | none => exact .nil
      | some arriving => exact List.pairwise_singleton ..
    · rw [(mem_arrivingAt.mp new).1]
      exact step_lt_of_mem_arrivals old

theorem nodup_arrivals (start : Router) (ops : List Op) : (start.arrivals ops).Nodup :=
  (start.pairwise_arrivals ops).imp fun before same => by
    rw [same] at before
    exact Nat.lt_irrefl _ before

end Arrivals

end Router

end NetStack.Routing
