import Mathlib.Data.List.Infix
import Mathlib.Data.List.ReduceOption
import Mathlib.Data.Option.Basic
import NetStack.Proofs.Wire.Carriage

namespace NetStack.Tcp

theorem Packet.ports_of_segment? {packet : Packet} {source destination : Ipv4.Address}
    {policy : Checksum.Policy} {segment : Segment}
    (read : packet.segment? source destination policy = some segment) :
    segment.sourcePort = packet.sourcePort ∧ segment.destinationPort = packet.destinationPort := by
  unfold segment? at read
  split at read
  · cases read
    exact ⟨rfl, rfl⟩
  · cases read

namespace Binding

open Ipv4 (Datagram Endpoint)

/-- The endpoint that a datagram gives as its sender, whether or not it carries a segment. -/
def senderOf (datagram : Datagram) : Endpoint :=
  ⟨datagram.source, Packet.sourcePort ⟨datagram.payload⟩⟩

def targetOf (datagram : Datagram) : Endpoint :=
  ⟨datagram.destination, Packet.destinationPort ⟨datagram.payload⟩⟩

/-- The datagram does not go from one endpoint to the other, or not by this protocol. -/
def Stray (own peer : Endpoint) (datagram : Datagram) : Prop :=
  datagram.protocol ≠ .tcp ∨ targetOf datagram ≠ own ∨ senderOf datagram ≠ peer

/-- The second sequence is the first one with others inserted anywhere. -/
inductive Interspersed (other : Datagram → Prop) : List Datagram → List Datagram → Prop where
  | nil : Interspersed other [] []
  | kept (datagram : Datagram) {few many : List Datagram} (rest : Interspersed other few many) :
      Interspersed other (datagram :: few) (datagram :: many)
  | inserted {datagram : Datagram} (foreign : other datagram) {few many : List Datagram}
      (rest : Interspersed other few many) : Interspersed other few (datagram :: many)

def course (binding : Binding) (datagrams : List Datagram) : Binding :=
  datagrams.foldl (fun current datagram => (current.accept datagram).2) binding

def verdicts (binding : Binding) : List Datagram → List (Option Segment)
  | [] => []
  | datagram :: rest =>
    (binding.accept datagram).1 :: (binding.accept datagram).2.verdicts rest

def admitted (binding : Binding) (datagrams : List Datagram) : List Segment :=
  (binding.verdicts datagrams).reduceOption

/-- The datagrams that are left when those that bring nothing are taken out. -/
def bearers (binding : Binding) (datagrams : List Datagram) : List Datagram :=
  ((datagrams.zip (binding.verdicts datagrams)).filter (·.2.isSome)).map Prod.fst

variable {binding : Binding} {datagram : Datagram} {segment : Segment}

section Accept

theorem arriving?_eq_some_iff {source : Endpoint} :
    binding.arriving? datagram = some (source, segment) ↔
      datagram.protocol = .tcp ∧ targetOf datagram = binding.own ∧ source = senderOf datagram ∧
        Packet.segment? ⟨datagram.payload⟩ datagram.source datagram.destination binding.policy =
          some segment := by
  unfold arriving? targetOf senderOf
  simp only [Option.bind_eq_bind, Option.bind_eq_some_iff, Option.guard_eq_some', Option.pure_def,
    Option.some.injEq, Prod.mk.injEq]
  constructor
  · rintro ⟨_, ⟨tcp, address⟩, _, read, _, port, rfl, rfl⟩
    obtain ⟨source, destination⟩ := Packet.ports_of_segment? read
    rw [address, ← destination, port, ← source]
    exact ⟨tcp, rfl, rfl, address ▸ read⟩
  · rintro ⟨tcp, target, rfl, read⟩
    obtain ⟨source, destination⟩ := Packet.ports_of_segment? read
    rw [← target, ← source]
    exact ⟨(), ⟨tcp, rfl⟩, segment, read, (), destination, rfl, rfl⟩

/-- The datagram brings a segment from the peer, or the SYN that makes its sender the peer. -/
structure Admits (binding : Binding) (datagram : Datagram) (segment : Segment) : Prop where
  tcp : datagram.protocol = .tcp
  target : targetOf datagram = binding.own
  read : Packet.segment? ⟨datagram.payload⟩ datagram.source datagram.destination binding.policy =
    some segment
  sender : binding.peer = some (senderOf datagram) ∨ binding.peer = none ∧ segment.flags.syn = true

theorem accept_cases (binding : Binding) (datagram : Datagram) :
    (∃ segment, binding.Admits datagram segment ∧ binding.accept datagram =
      (some segment, { binding with peer := some (senderOf datagram) })) ∨
    binding.accept datagram = (none, binding) := by
  unfold accept
  cases arrived : binding.arriving? datagram with
  | none => exact .inr rfl
  | some arrival =>
    obtain ⟨source, segment⟩ := arrival
    obtain ⟨tcp, target, rfl, read⟩ := arriving?_eq_some_iff.mp arrived
    dsimp only
    cases known : binding.peer with
    | some peer =>
      dsimp only
      by_cases same : peer = senderOf datagram
      · refine .inl ⟨segment, ⟨tcp, target, read, .inl (same ▸ known)⟩, ?_⟩
        rw [if_pos same, ← same, ← known]
      · exact .inr (by rw [if_neg same])
    | none =>
      by_cases syn : segment.flags.syn = true
      · exact .inl ⟨segment, ⟨tcp, target, read, .inr ⟨known, syn⟩⟩, if_pos syn⟩
      · exact .inr (if_neg syn)

theorem accept_of_admits (accepts : (binding.accept datagram).1 = some segment) :
    binding.Admits datagram segment ∧
      (binding.accept datagram).2 = { binding with peer := some (senderOf datagram) } := by
  rcases binding.accept_cases datagram with ⟨other, admits, accepted⟩ | refused
  · rw [accepted] at accepts ⊢
    cases accepts
    exact ⟨admits, rfl⟩
  · rw [refused] at accepts
    cases accepts

theorem accept_of_refused (refused : (binding.accept datagram).1 = none) :
    binding.accept datagram = (none, binding) := by
  rcases binding.accept_cases datagram with ⟨segment, _, accepted⟩ | same
  · rw [accepted] at refused
    cases refused
  · exact same

theorem accept_of_known {peer : Endpoint} (known : binding.peer = some peer)
    (datagram : Datagram) : (binding.accept datagram).2 = binding := by
  rcases binding.accept_cases datagram with ⟨segment, admits, accepted⟩ | refused
  · rw [accepted]
    rcases admits.sender with from_peer | ⟨unknown, _⟩
    · rw [← from_peer]
    · cases unknown.symm.trans known
  · rw [refused]

theorem accept_of_stray {peer : Endpoint} (known : binding.peer = some peer)
    (stray : Stray binding.own peer datagram) : binding.accept datagram = (none, binding) := by
  rcases binding.accept_cases datagram with ⟨segment, admits, _⟩ | refused
  · have sender : senderOf datagram = peer := by
      rcases admits.sender with from_peer | ⟨unknown, _⟩
      · exact Option.some.inj (from_peer.symm.trans known)
      · cases unknown.symm.trans known
    rcases stray with other | elsewhere | stranger
    · exact absurd admits.tcp other
    · exact absurd admits.target elsewhere
    · exact absurd sender stranger
  · exact refused

end Accept

section Course

@[simp] theorem course_nil (binding : Binding) : binding.course [] = binding := rfl

@[simp] theorem course_cons (binding : Binding) (datagram : Datagram) (rest : List Datagram) :
    binding.course (datagram :: rest) = (binding.accept datagram).2.course rest := rfl

theorem course_append (binding : Binding) (front back : List Datagram) :
    binding.course (front ++ back) = (binding.course front).course back :=
  List.foldl_append

theorem course_of_known {peer : Endpoint} (known : binding.peer = some peer)
    (datagrams : List Datagram) : binding.course datagrams = binding := by
  induction datagrams with
  | nil => rfl
  | cons datagram rest ih => rw [course_cons, accept_of_known known, ih]

theorem course_eq (binding : Binding) (datagrams : List Datagram) :
    binding.course datagrams = { binding with peer := (binding.course datagrams).peer } := by
  induction datagrams generalizing binding with
  | nil => rfl
  | cons datagram rest ih =>
    rw [course_cons]
    rcases binding.accept_cases datagram with ⟨segment, _, accepted⟩ | refused
    · rw [accepted]
      exact ih _
    · rw [refused]
      exact ih _

theorem verdicts_append (binding : Binding) (front back : List Datagram) :
    binding.verdicts (front ++ back) =
      binding.verdicts front ++ (binding.course front).verdicts back := by
  induction front generalizing binding with
  | nil => rfl
  | cons datagram rest ih => rw [List.cons_append, verdicts, ih, verdicts, List.cons_append,
      course_cons]

theorem admitted_append (binding : Binding) (front back : List Datagram) :
    binding.admitted (front ++ back) =
      binding.admitted front ++ (binding.course front).admitted back := by
  rw [admitted, verdicts_append, List.reduceOption_append]
  rfl

theorem admitted_cons (binding : Binding) (datagram : Datagram) (rest : List Datagram) :
    binding.admitted (datagram :: rest) =
      (binding.accept datagram).1.toList ++ (binding.accept datagram).2.admitted rest := by
  unfold admitted
  rw [verdicts]
  cases (binding.accept datagram).1 with
  | none => exact List.reduceOption_cons_of_none _
  | some segment => exact List.reduceOption_cons_of_some _ _

theorem course_of_admitted_nil {datagrams : List Datagram}
    (nothing : binding.admitted datagrams = []) : binding.course datagrams = binding := by
  induction datagrams with
  | nil => rfl
  | cons datagram rest ih =>
    rw [admitted_cons, List.append_eq_nil_iff, Option.toList_eq_nil_iff] at nothing
    have refused := accept_of_refused nothing.1
    rw [refused] at nothing
    rw [course_cons, refused]
    exact ih nothing.2

theorem exists_first_admitted {datagrams : List Datagram}
    (something : binding.admitted datagrams ≠ []) : ∃ front datagram back segment,
      datagrams = front ++ datagram :: back ∧ binding.admitted front = [] ∧
        (binding.accept datagram).1 = some segment := by
  induction datagrams with
  | nil => exact absurd rfl something
  | cons datagram rest ih =>
    cases verdict : (binding.accept datagram).1 with
    | some segment => exact ⟨[], datagram, rest, segment, rfl, rfl, verdict⟩
    | none =>
      have refused := accept_of_refused verdict
      have later (tail : List Datagram) :
          binding.admitted (datagram :: tail) = binding.admitted tail := by
        rw [admitted_cons, refused]
        rfl
      rw [later] at something
      obtain ⟨front, first, back, segment, rfl, before, accepts⟩ := ih something
      exact ⟨datagram :: front, first, back, segment, rfl, by rw [later, before], accepts⟩

theorem bearers_cons (binding : Binding) (datagram : Datagram) (rest : List Datagram) :
    binding.bearers (datagram :: rest) =
      (if (binding.accept datagram).1.isSome then [datagram] else []) ++
        (binding.accept datagram).2.bearers rest := by
  unfold bearers
  rw [verdicts, List.zip_cons_cons, List.filter_cons]
  split <;> rfl

/-- What brings nothing can as well be left out. -/
theorem bearers_suffice (binding : Binding) (datagrams : List Datagram) :
    binding.admitted (binding.bearers datagrams) = binding.admitted datagrams ∧
      binding.course (binding.bearers datagrams) = binding.course datagrams := by
  induction datagrams generalizing binding with
  | nil => exact ⟨rfl, rfl⟩
  | cons datagram rest ih =>
    have later := ih (binding.accept datagram).2
    rw [bearers_cons]
    cases verdict : (binding.accept datagram).1 with
    | some segment =>
      rw [Option.isSome_some, if_pos rfl, List.singleton_append, admitted_cons, admitted_cons,
        course_cons, course_cons, later.1, later.2]
      exact ⟨rfl, rfl⟩
    | none =>
      rw [Option.isSome_none, if_neg Bool.false_ne_true, List.nil_append, admitted_cons, verdict,
        course_cons]
      rw [accept_of_refused verdict] at later ⊢
      exact later

theorem Interspersed.admitted_eq {peer : Endpoint} {few many : List Datagram}
    (interspersed : Interspersed (Stray binding.own peer) few many)
    (known : binding.peer = some peer) : binding.admitted many = binding.admitted few := by
  induction interspersed with
  | nil => rfl
  | kept datagram _ ih => rw [admitted_cons, admitted_cons, accept_of_known known, ih]
  | inserted foreign _ ih =>
    rw [admitted_cons, accept_of_stray known foreign, ih]
    rfl

end Course

/-- What a binding lets in comes from its peer, which it has from the beginning or takes from the
    first segment, a SYN, and keeps. What it refuses makes no difference. Once there is a peer,
    neither does anything that does not come from there, go to the own endpoint and carry a
    segment. -/
theorem admitted_from_peer (binding : Binding) (datagrams : List Datagram) :
    let last := binding.course datagrams
    (∀ peer, binding.peer = some peer → ∀ front, front <+: datagrams →
      binding.course front = binding) ∧
    (binding.peer = none → binding.admitted datagrams = [] → ∀ front, front <+: datagrams →
      binding.course front = binding) ∧
    (binding.peer = none → binding.admitted datagrams ≠ [] → ∃ front datagram back segment,
      datagrams = front ++ datagram :: back ∧ binding.admitted front = [] ∧
        (binding.accept datagram).1 = some segment ∧ segment.flags.syn = true ∧
        (∀ sooner, sooner <+: front → binding.course sooner = binding) ∧
        ∀ more, more <+: back → binding.course (front ++ datagram :: more) =
          { binding with peer := some ⟨datagram.source, segment.sourcePort⟩ }) ∧
    (∀ front datagram back segment, datagrams = front ++ datagram :: back →
      ((binding.course front).accept datagram).1 = some segment →
        datagram.protocol = .tcp ∧
        last.peer = some ⟨datagram.source, segment.sourcePort⟩ ∧
        binding.own = ⟨datagram.destination, segment.destinationPort⟩ ∧
        Packet.segment? ⟨datagram.payload⟩ datagram.source datagram.destination
          binding.policy = some segment) ∧
    (binding.admitted (binding.bearers datagrams) = binding.admitted datagrams ∧
      binding.course (binding.bearers datagrams) = last) ∧
    ∀ front back peer more, datagrams = front ++ back → (binding.course front).peer = some peer →
      Interspersed (Stray binding.own peer) back more →
        binding.admitted (front ++ more) = binding.admitted datagrams ∧
          binding.course (front ++ more) = last := by
  refine ⟨?_, ?_, ?_, ?_, binding.bearers_suffice datagrams, ?_⟩
  · intro peer known front _
    exact course_of_known known front
  · rintro _ nothing front ⟨back, rfl⟩
    rw [admitted_append, List.append_eq_nil_iff] at nothing
    exact course_of_admitted_nil nothing.1
  · intro unknown something
    obtain ⟨front, datagram, back, segment, split, before, accepts⟩ :=
      exists_first_admitted something
    obtain ⟨admits, learned⟩ := accept_of_admits accepts
    obtain ⟨_, syn⟩ : binding.peer = none ∧ segment.flags.syn = true :=
      admits.sender.resolve_left fun known => by cases known.symm.trans unknown
    have port := (Packet.ports_of_segment? admits.read).1
    refine ⟨front, datagram, back, segment, split, before, accepts, syn, ?_, ?_⟩
    · rintro sooner ⟨rest, rfl⟩
      rw [admitted_append, List.append_eq_nil_iff] at before
      exact course_of_admitted_nil before.1
    · intro more _
      rw [course_append, course_of_admitted_nil before, course_cons, learned, port]
      exact course_of_known rfl more
  · rintro front datagram back segment rfl accepts
    obtain ⟨admits, learned⟩ := accept_of_admits accepts
    obtain ⟨source, destination⟩ := Packet.ports_of_segment? admits.read
    have own : (binding.course front).own = binding.own := by rw [course_eq]
    have policy : (binding.course front).policy = binding.policy := by rw [course_eq]
    refine ⟨admits.tcp, ?_, ?_, ?_⟩
    · rw [course_append, course_cons, learned, course_of_known rfl, source]
      rfl
    · rw [← own, ← admits.target, destination]
      rfl
    · rw [← policy]
      exact admits.read
  · rintro front back peer more rfl known interspersed
    have own : (binding.course front).own = binding.own := by rw [course_eq]
    rw [← own] at interspersed
    rw [admitted_append, admitted_append, course_append, course_append,
      interspersed.admitted_eq known, course_of_known known, course_of_known known]
    exact ⟨rfl, rfl⟩

/-- A stranger knocks before and after the peer does, and has no part in what comes of it. -/
theorem admitted_from_peer_crowded :
    let own : Endpoint := ⟨.ofOctets 10 0 0 2, 80⟩
    let peer : Endpoint := ⟨.ofOctets 10 0 0 1, 49152⟩
    let stranger : Endpoint := ⟨.ofOctets 10 0 0 3, 49152⟩
    let sent (source : Endpoint) (segment : Segment) : Datagram :=
      ({ own := source } : Binding).parcel own segment
    let knock : Segment := { flags := { syn := true } }
    let data : Segment := { seqno := ⟨1⟩, flags := { ack := true }, payload := [1, 2, 3] }
    let crowd := [sent stranger data, sent peer knock, sent stranger knock, sent peer data]
    let listening : Binding := { own }
    (listening.admitted crowd).map (·.payload) = [[], [1, 2, 3]] ∧
      listening.bearers crowd = [sent peer knock, sent peer data] ∧
      listening.admitted (listening.bearers crowd) = listening.admitted crowd ∧
      listening.admitted (crowd ++ [sent stranger knock]) = listening.admitted crowd ∧
      (listening.course crowd).peer = some peer := by
  intro own peer stranger sent knock data crowd listening
  obtain ⟨_, _, _, _, without, strays⟩ := admitted_from_peer listening crowd
  have known : (listening.course crowd).peer = some peer := by decide +kernel
  have foreign : Stray own peer (sent stranger knock) := .inr (.inr (by decide +kernel))
  obtain ⟨same, _⟩ := strays crowd [] peer [sent stranger knock] (List.append_nil _).symm known
    (.inserted foreign .nil)
  exact ⟨by decide +kernel, by decide +kernel, without.1, same, known⟩

end Binding

end NetStack.Tcp
