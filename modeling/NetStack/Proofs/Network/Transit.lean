import NetStack.Proofs.Network.Passing
import NetStack.Proofs.Wire.Carriage

namespace NetStack.Simulation.Junction

open Ipv4.Datagram (TooLong)
open Link (Interface Packet)
open Routing (Router Attachment Table)
open Tcp

/-- Some number of legs, each the only one with anything to carry, lead to a state in which no leg
    has anything to carry. -/
inductive Reaches (final : Junction) : Nat → Junction → Prop where
  | here (idle : ∀ leg, final.Idle leg) : Reaches final 0 final
  | after {count : Nat} {leg : Leg} {before next : Junction} (carried : before.carry leg = .ok next)
      (only : ∀ other, other ≠ leg → before.Idle other) (rest : Reaches final count next) :
      Reaches final (count + 1) before

namespace Reaches

variable {final junction : Junction} {count : Nat}

theorem eq_final (reaches : Reaches final count junction) (idle : ∀ leg, junction.Idle leg) :
    junction = final := by
  induction reaches with
  | here => rfl
  | @after _ leg before next carried _ _ ih =>
    have same : before = next := Except.ok.inj ((carry_of_idle (idle leg)).symm.trans carried)
    rw [same] at idle ⊢
    exact ih idle

theorem carry (reaches : Reaches final count junction) (leg : Leg) :
    ∃ next left, junction.carry leg = .ok next ∧ left ≤ count ∧ Reaches final left next := by
  cases reaches with
  | here idle => exact ⟨final, 0, carry_of_idle (idle leg), Nat.le_refl _, .here idle⟩
  | @after count needed _ next carried only rest =>
    by_cases same : leg = needed
    · subst same
      exact ⟨next, count, carried, Nat.le_succ _, rest⟩
    · exact ⟨junction, count + 1, carry_of_idle (only leg same), Nat.le_refl _,
        .after carried only rest⟩

theorem carryAll_cons {leg : Leg} {legs : List Leg} {next : Junction}
    (carried : junction.carry leg = .ok next) :
    junction.carryAll (leg :: legs) = next.carryAll legs := by
  unfold Junction.carryAll
  rw [List.foldlM_cons, carried]
  rfl

theorem carryAll (reaches : Reaches final count junction) (legs : List Leg) :
    ∃ after left, junction.carryAll legs = .ok after ∧ left ≤ count ∧
      Reaches final left after := by
  induction legs generalizing junction count with
  | nil => exact ⟨junction, count, rfl, Nat.le_refl _, reaches⟩
  | cons leg legs ih =>
    obtain ⟨next, left, carried, le, rest⟩ := reaches.carry leg
    obtain ⟨after, fewer, all, le', reached⟩ := ih rest
    exact ⟨after, fewer, (carryAll_cons carried).trans all, Nat.le_trans le' le, reached⟩

/-- A round in which no leg is left out comes nearer to the end. -/
theorem round (reaches : Reaches final (count + 1) junction) {legs : List Leg}
    (complete : ∀ leg, leg ∈ legs) :
    ∃ after left, junction.carryAll legs = .ok after ∧ left ≤ count ∧
      Reaches final left after := by
  obtain _ | @⟨_, needed, _, next, carried, only, rest⟩ := reaches
  have member := complete needed
  clear complete
  induction legs with
  | nil => cases member
  | cons leg legs ih =>
    by_cases same : leg = needed
    · subst same
      rw [carryAll_cons carried]
      exact rest.carryAll legs
    · rw [carryAll_cons (carry_of_idle (only leg same))]
      exact ih ((List.mem_cons.mp member).resolve_left (Ne.symm same))

theorem rounds (reaches : Reaches final count junction) {legs : List Leg}
    (complete : ∀ leg, leg ∈ legs) {turns : Nat} (enough : count ≤ turns) :
    junction.carryAll (List.replicate turns legs).flatten = .ok final := by
  induction turns generalizing junction count with
  | zero =>
    cases Nat.le_zero.mp enough
    cases reaches
    rfl
  | succ turns ih =>
    obtain ⟨after, left, carried, le, rest⟩ : ∃ after left,
        junction.carryAll legs = .ok after ∧ left ≤ turns ∧ Reaches final left after := by
      cases count with
      | zero =>
        obtain ⟨after, left, carried, le, rest⟩ := reaches.carryAll legs
        exact ⟨after, left, carried, Nat.le_trans le (Nat.zero_le _), rest⟩
      | succ count =>
        obtain ⟨after, left, carried, le, rest⟩ := reaches.round complete
        exact ⟨after, left, carried, Nat.le_trans le (Nat.le_of_succ_le_succ enough), rest⟩
    rw [List.replicate_succ, List.flatten_cons]
    have later := ih rest le
    unfold Junction.carryAll at carried later ⊢
    rw [List.foldlM_append, carried]
    exact later

end Reaches

section Joined

def arranged (swapped : Bool) (near far : Attachment) : List Attachment :=
  if swapped then [far, near] else [near, far]

def joined (swapped : Bool) (table : Table) (home away : Station) (near far : Attachment) :
    Junction where
  home
  away
  router := ⟨arranged swapped near far, table⟩
  near := swapped.toNat
  far := (!swapped).toNat

variable {swapped : Bool} {table : Table} {home away home' away' : Station}
  {near far near' far' : Attachment} {final : Junction} {count : Nat}

theorem near_arranged : (arranged swapped near far)[swapped.toNat]? = some near := by
  cases swapped <;> rfl

theorem far_arranged : (arranged swapped near far)[(!swapped).toNat]? = some far := by
  cases swapped <;> rfl

theorem set_near_arranged :
    (arranged swapped near far).set swapped.toNat near' = arranged swapped near' far := by
  cases swapped <;> rfl

theorem set_far_arranged :
    (arranged swapped near far).set (!swapped).toNat far' = arranged swapped near far' := by
  cases swapped <;> rfl

theorem mem_arranged {attachment : Attachment} :
    attachment ∈ arranged swapped near far ↔ attachment = near ∨ attachment = far := by
  cases swapped
  · exact List.mem_pair
  · exact List.mem_pair.trans or_comm

theorem route_arranged {near far : Interface} (datagrams : List Ipv4.Datagram) :
    Router.route ⟨arranged swapped ⟨near, datagrams⟩ ⟨far, []⟩, table⟩ =
      datagrams.foldlM Router.forward ⟨arranged swapped ⟨near, []⟩ ⟨far, []⟩, table⟩ := by
  have received : (arranged swapped ⟨near, datagrams⟩ ⟨far, []⟩).flatMap Attachment.received =
      datagrams := by
    cases swapped <;> simp [arranged]
  have emptied : (arranged swapped ⟨near, datagrams⟩ ⟨far, []⟩).map
      (fun attachment : Attachment => { attachment with received := [] }) =
        arranged swapped ⟨near, []⟩ ⟨far, []⟩ := by
    cases swapped <;> rfl
  unfold Router.route
  rw [received, emptied]

theorem idle_joined {leg : Leg} (fromHome : leg ≠ .fromHome → home.interface.frames = [])
    (fromAway : leg ≠ .fromAway → away.interface.frames = [])
    (route : leg ≠ .route → near.received = [] ∧ far.received = [])
    (toHome : leg ≠ .toHome → near.interface.frames = [])
    (toAway : leg ≠ .toAway → far.interface.frames = []) :
    ∀ other, other ≠ leg → (joined swapped table home away near far).Idle other := by
  rintro (_ | _ | _ | _ | _) differs
  · exact fromHome differs.symm
  · exact fromAway differs.symm
  · intro attachment member
    rcases mem_arranged.mp member with rfl | rfl
    · exact (route differs.symm).1
    · exact (route differs.symm).2
  · show Router.framesOn ⟨arranged swapped near far, table⟩ swapped.toNat = []
    unfold Router.framesOn Router.interface?
    rw [near_arranged]
    exact toHome differs.symm
  · show Router.framesOn ⟨arranged swapped near far, table⟩ (!swapped).toNat = []
    unfold Router.framesOn Router.interface?
    rw [far_arranged]
    exact toAway differs.symm

section Meet

variable {meet : Station → Nat → Router → Except TooLong (Station × Router)}

theorem meetHome_joined (met : meet home swapped.toNat ⟨arranged swapped near far, table⟩ =
      .ok (home', ⟨(arranged swapped near far).set swapped.toNat near', table⟩)) :
    (joined swapped table home away near far).meetHome meet =
      .ok (joined swapped table home' away near' far) := by
  rw [set_near_arranged] at met
  unfold meetHome joined
  dsimp only
  rw [met]
  rfl

theorem meetAway_joined (met : meet away (!swapped).toNat ⟨arranged swapped near far, table⟩ =
      .ok (away', ⟨(arranged swapped near far).set (!swapped).toNat far', table⟩)) :
    (joined swapped table home away near far).meetAway meet =
      .ok (joined swapped table home away' near far') := by
  rw [set_far_arranged] at met
  unfold meetAway joined
  dsimp only
  rw [met]
  rfl

end Meet

end Joined

section Stages

variable {swapped : Bool} {table : Table} {home away : Station} {near far : Interface}
  {final : Junction} {count : Nat} {datagrams : List Ipv4.Datagram}

theorem Reaches.of_home (asks : home.interface.Blank) (hears : near.Blank)
    (fits : ∀ datagram ∈ datagrams, datagram.length ≤ Ipv4.Datagram.maxLength)
    (awaySilent : away.interface.frames = []) (farSilent : far.frames = [])
    (rest : Reaches final count (joined swapped table
      { home with interface := { home.interface.informed near datagrams with frames := [] } } away
      ⟨{ near.answering home.interface with frames := [] }, datagrams⟩ ⟨far, []⟩)) :
    Reaches final (count + 3) (joined swapped table
      { home with interface := home.interface.asking near.address datagrams } away
      ⟨near, []⟩ ⟨far, []⟩) := by
  have question := asks.receive_question hears
  have answer := asks.receive_answer hears fits
  have bring : (home.interface.informed near datagrams).frames.map
      { near.answering home.interface with frames := [] }.arriving? =
        datagrams.map fun datagram => some (.ipv4 datagram) :=
    Interface.arriving?_informed asks.policy ⟨rfl, hears.policy⟩ fits
  have asked : (joined swapped table
      { home with interface := home.interface.asking near.address datagrams } away
      ⟨near, []⟩ ⟨far, []⟩).carry .fromHome = .ok _ :=
    meetHome_joined (deliver_message near_arranged rfl question)
  have told : (joined swapped table
      { home with
        interface := { home.interface.asking near.address datagrams with frames := [] } } away
      ⟨near.answering home.interface, []⟩ ⟨far, []⟩).carry .toHome = .ok _ :=
    meetHome_joined (collect_message near_arranged rfl answer)
  have sent : (joined swapped table
      { home with interface := home.interface.informed near datagrams } away
      ⟨{ near.answering home.interface with frames := [] }, []⟩ ⟨far, []⟩).carry .fromHome =
        .ok _ :=
    meetHome_joined (deliver_datagrams near_arranged bring)
  refine .after asked (idle_joined (absurd rfl) (fun _ => awaySilent)
    (fun _ => ⟨rfl, rfl⟩) (fun _ => hears.frames) fun _ => farSilent) ?_
  refine .after told (idle_joined (fun _ => rfl) (fun _ => awaySilent)
    (fun _ => ⟨rfl, rfl⟩) (absurd rfl) fun _ => farSilent) ?_
  exact .after sent (idle_joined (absurd rfl) (fun _ => awaySilent)
    (fun _ => ⟨rfl, rfl⟩) (fun _ => rfl) fun _ => farSilent) rest

theorem Reaches.of_route (asks : far.Blank) (homeSilent : home.interface.frames = [])
    (awaySilent : away.interface.frames = []) (nearSilent : near.frames = [])
    (present : datagrams ≠ []) (few : datagrams.length ≤ 32)
    (onward : ∀ datagram ∈ datagrams, ∃ route, table.onward? datagram = some route ∧
      route.interface = (!swapped).toNat ∧
        route.nextHop datagram.destination = away.interface.address)
    (rest : Reaches final count (joined swapped table home away ⟨near, []⟩
      ⟨far.asking away.interface.address (datagrams.map Ipv4.Datagram.aged), []⟩)) :
    Reaches final (count + 1)
      (joined swapped table home away ⟨near, datagrams⟩ ⟨far, []⟩) := by
  obtain ⟨first, others, split⟩ := List.exists_cons_of_ne_nil present
  have sent := asks.foldlM_send away.interface.address first.aged
    (others.map Ipv4.Datagram.aged) (by rw [split] at few; simpa using few)
  rw [← List.map_cons, ← split] at sent
  have routed : Router.route ⟨arranged swapped ⟨near, datagrams⟩ ⟨far, []⟩, table⟩ = .ok _ :=
    (route_arranged datagrams).trans (foldlM_forward far_arranged onward sent)
  have carried : (joined swapped table home away ⟨near, datagrams⟩ ⟨far, []⟩).carry .route =
      .ok (joined swapped table home away ⟨near, []⟩
        ⟨far.asking away.interface.address (datagrams.map Ipv4.Datagram.aged), []⟩) := by
    rw [set_far_arranged] at routed
    unfold Junction.carry joined
    dsimp only
    rw [routed]
    rfl
  exact .after carried (idle_joined (fun _ => homeSilent) (fun _ => awaySilent) (absurd rfl)
    (fun _ => nearSilent) fun _ => asks.frames) rest

theorem Reaches.of_away {segments : List Segment} (asks : far.Blank) (hears : away.interface.Blank)
    (fits : ∀ datagram ∈ datagrams, datagram.length ≤ Ipv4.Datagram.maxLength)
    (homeSilent : home.interface.frames = []) (nearSilent : near.frames = [])
    (accepted : datagrams.map away.binding.accept =
      segments.map fun segment => (some segment, away.binding))
    (rest : Reaches final count (joined swapped table home
      { away with
        interface := { away.interface.answering far with frames := [] }
        taken := away.taken ++ segments }
      ⟨near, []⟩ ⟨{ far.informed away.interface datagrams with frames := [] }, []⟩)) :
    Reaches final (count + 3) (joined swapped table home away ⟨near, []⟩
      ⟨far.asking away.interface.address datagrams, []⟩) := by
  have question := asks.receive_question hears
  have answer := asks.receive_answer hears fits
  have bring : (far.informed away.interface datagrams).frames.map
      { away.interface.answering far with frames := [] }.arriving? =
        datagrams.map fun datagram => some (.ipv4 datagram) :=
    Interface.arriving?_informed asks.policy ⟨rfl, hears.policy⟩ fits
  have asked : (joined swapped table home away ⟨near, []⟩
      ⟨far.asking away.interface.address datagrams, []⟩).carry .toAway = .ok _ :=
    meetAway_joined (collect_message far_arranged rfl question)
  have told : (joined swapped table home
      { away with interface := away.interface.answering far } ⟨near, []⟩
      ⟨{ far.asking away.interface.address datagrams with frames := [] }, []⟩).carry .fromAway =
        .ok _ :=
    meetAway_joined (deliver_message far_arranged rfl answer)
  have sent : (joined swapped table home
      { away with interface := { away.interface.answering far with frames := [] } } ⟨near, []⟩
      ⟨far.informed away.interface datagrams, []⟩).carry .toAway = .ok _ :=
    meetAway_joined (collect_datagrams far_arranged bring accepted)
  refine .after asked (idle_joined (fun _ => homeSilent) (fun _ => hears.frames)
    (fun _ => ⟨rfl, rfl⟩) (fun _ => nearSilent) (absurd rfl)) ?_
  refine .after told (idle_joined (fun _ => homeSilent) (absurd rfl)
    (fun _ => ⟨rfl, rfl⟩) (fun _ => nearSilent) fun _ => rfl) ?_
  exact .after sent (idle_joined (fun _ => homeSilent) (fun _ => rfl)
    (fun _ => ⟨rfl, rfl⟩) (fun _ => nearSilent) (absurd rfl)) rest

end Stages

end NetStack.Simulation.Junction
