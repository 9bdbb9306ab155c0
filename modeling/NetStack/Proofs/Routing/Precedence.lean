import NetStack.Proofs.Machine.Word
import NetStack.Proofs.Routing.Selection

namespace NetStack

namespace Ipv4

def Address.bit (address : Address) (index : Nat) : Bool := address.bits.toBitVec.getMsbD index

namespace Cidr

variable {network : Cidr} {address : Address}

theorem maskBits_getMsbD (network : Cidr) {index : Nat} (inside : index < 32) :
    network.maskBits.toBitVec.getMsbD index = decide (index < network.length) := by
  have bound := network.length_le
  have ones : 0xffffffff = 2 ^ 32 - 1 := rfl
  rw [maskBits, UInt32.toBitVec_ofNat', BitVec.getMsbD, BitVec.getLsbD_ofNat, Nat.testBit_shiftLeft,
    ones, Nat.testBit_two_pow_sub_one]
  simp only [inside, decide_true, Bool.true_and]
  rw [Bool.eq_iff_iff]
  simp only [Bool.and_eq_true, decide_eq_true_eq]
  omega

theorem contains_iff : network.contains address ↔
    ∀ index < network.length, address.bit index = network.address.bit index := by
  have bound := network.length_le
  rw [contains, beq_iff_eq, ← UInt32.toBitVec_inj, UInt32.toBitVec_and, UInt32.toBitVec_xor]
  constructor
  · intro nothing index before
    have bit := congrArg (BitVec.getMsbD · index) nothing
    rw [BitVec.getMsbD_and, BitVec.getMsbD_xor, maskBits_getMsbD network (by omega),
      decide_eq_true before, Bool.and_true] at bit
    have same : network.address.bits.toBitVec.getMsbD index =
        address.bits.toBitVec.getMsbD index := by
      simpa using bit
    exact same.symm
  · intro same
    apply BitVec.eq_of_getMsbD_eq
    intro index inside
    rw [BitVec.getMsbD_and, BitVec.getMsbD_xor, maskBits_getMsbD network inside]
    by_cases before : index < network.length
    · have bits : network.address.bits.toBitVec.getMsbD index =
          address.bits.toBitVec.getMsbD index := (same index before).symm
      simp [bits]
    · simp [before]

end Cidr

end Ipv4

namespace Machine

open Routing (Route Table)

def shiftUp (word : UInt32) (places : Nat) : Option UInt32 :=
  if places < 32 then some (word <<< UInt32.ofNat places) else none

/-- Leading bits, as many as asked for. Nothing is shifted for none at all. -/
def leading (count : Nat) : Option UInt32 :=
  if count = 0 then some 0 else do shiftUp 0xffffffff (← sub 32 count)

def covers (network : Ipv4.Cidr) (address : Ipv4.Address) : Option Bool := do
  return (network.address.bits ^^^ address.bits) &&& (← leading network.length) == 0

def covering (destination : Ipv4.Address) : List Route → Option (List Route)
  | [] => some []
  | first :: rest => do
    let kept ← covering destination rest
    if ← covers first.network destination then return first :: kept else return kept

/-- The longer network of two, and the later of two that are equally long. -/
def latest (earlier later : Route) : Route :=
  if later.network.length < earlier.network.length then earlier else later

def longest : List Route → Option Route
  | [] => none
  | first :: rest => some (rest.foldl latest first)

def lookup (routes : List Route) (destination : Ipv4.Address) : Option (Option Route) := do
  return longest (← covering destination routes).reverse

theorem leading_eq (network : Ipv4.Cidr) : leading network.length = some network.maskBits := by
  have all : ∀ length ≤ 32,
      leading length = some (UInt32.ofNat (0xffffffff <<< (32 - length))) := by decide
  exact all network.length network.length_le

theorem covers_eq (network : Ipv4.Cidr) (address : Ipv4.Address) :
    covers network address = some (network.contains address) := by
  unfold covers
  rw [leading_eq, Option.bind_eq_bind, Option.bind_some]
  rfl

theorem covering_eq (destination : Ipv4.Address) (routes : List Route) :
    covering destination routes =
      some (routes.filter fun route => route.network.contains destination) := by
  induction routes with
  | nil => rfl
  | cons first rest ih =>
    unfold covering
    simp only [ih, covers_eq, Option.bind_eq_bind, Option.bind_some, List.filter_cons]
    split <;> rfl

theorem latest_assoc (first second third : Route) :
    latest (latest first second) third = latest first (latest second third) := by
  unfold latest
  by_cases low : second.network.length < first.network.length <;>
    by_cases high : third.network.length < second.network.length <;> simp [low, high] <;> omega

instance : Std.Associative latest := ⟨latest_assoc⟩

theorem longest_cons (first : Route) {routes : List Route} {best : Route}
    (among : longest routes = some best) :
    longest (first :: routes) = some (latest first best) := by
  cases routes with
  | nil => cases among
  | cons second rest =>
    cases among
    exact congrArg some List.foldl_assoc

/-- Seen from behind, the later of two is the one that was added first. -/
theorem longest_reverse (routes : List Route) : longest routes.reverse = Table.best? routes := by
  cases routes with
  | nil => rfl
  | cons first rest =>
    induction rest using List.reverseRecOn with
    | nil => rfl
    | append_singleton rest last ih =>
      have last_first : (first :: (rest ++ [last])).reverse = last :: (first :: rest).reverse := by
        simp
      rw [last_first, longest_cons last ih, Table.best?, List.foldl_append]
      rfl

theorem lookup_eq (table : Table) (destination : Ipv4.Address) :
    lookup table.routes destination = some (table.lookup destination) := by
  unfold lookup
  rw [covering_eq, Option.bind_eq_bind, Option.bind_some, longest_reverse]
  rfl

end Machine

namespace Routing.Table

variable {table : Table} {destination : Ipv4.Address}

/-- The table after a route was offered to it, which it may have refused. -/
def offer (table : Table) (route : Route) : Table := (table.add route).toOption.getD table

def filled (offered : List Route) : Table := offered.foldl offer empty

theorem add_eq_error_iff (route : Route) :
    table.add route = .error .full ↔ maxRoutes ≤ table.routes.length := by
  unfold add
  split <;> simp <;> omega

theorem offer_of_full {route : Route} (refused : table.add route = .error .full) :
    table.offer route = table := by
  rw [offer, refused]
  rfl

theorem filled_concat (offered : List Route) (route : Route) :
    filled (offered ++ [route]) = (filled offered).offer route := by
  rw [filled, List.foldl_append]
  rfl

theorem filled_routes (offered : List Route) :
    (filled offered).routes = offered.take maxRoutes := by
  induction offered using List.reverseRecOn with
  | nil => rfl
  | append_singleton offered route ih =>
    rw [filled_concat]
    by_cases full : maxRoutes ≤ (filled offered).routes.length
    · rw [offer_of_full ((add_eq_error_iff route).mpr full), ih]
      rw [ih, List.length_take] at full
      rw [List.take_append_of_le_length (by omega)]
    · have added : (filled offered).add route = .ok ⟨(filled offered).routes ++ [route]⟩ :=
        if_pos (by omega)
      have whole : (filled offered).routes = offered := by
        rw [ih, List.length_take] at full
        rw [ih, List.take_of_length_le (by omega)]
      rw [offer, added, whole]
      rw [whole] at full
      rw [List.take_of_length_le (by rw [List.length_append, List.length_singleton]; omega)]
      rfl

theorem lookup_eq_none_iff : table.lookup destination = none ↔
    ∀ route ∈ table.routes, ¬ route.network.contains destination := by
  have nothing (routes : List Route) : best? routes = none ↔ routes = [] := by
    cases routes <;> simp [best?]
  rw [lookup, nothing, List.filter_eq_nil_iff]

theorem Chooses.unique {route other : Route} (chooses : table.Chooses destination route)
    (chooses' : table.Chooses destination other) : route = other := by
  obtain ⟨sooner, later, routes, shorter⟩ := chooses.first
  obtain ⟨sooner', later', routes', shorter'⟩ := chooses'.first
  have stored : route ∈ table.routes := by simp [routes]
  have stored' : other ∈ table.routes := by simp [routes']
  have noLonger := chooses'.longest route stored chooses.covers
  have noShorter := chooses.longest other stored' chooses'.covers
  rw [routes] at routes'
  rcases List.append_eq_append_iff.mp routes' with ⟨between, front, back⟩ | ⟨between, front, back⟩
  · cases between with
    | nil => exact (List.cons.inj back).1
    | cons first rest =>
      have same : route = first := (List.cons.inj back).1
      have before : route ∈ sooner' := by simp [front, same]
      have strictly := shorter' route before chooses.covers
      omega
  · cases between with
    | nil => exact (List.cons.inj back).1.symm
    | cons first rest =>
      have same : other = first := (List.cons.inj back).1
      have before : other ∈ sooner := by simp [front, same]
      have strictly := shorter other before chooses'.covers
      omega

theorem lookup_eq_some_iff {route : Route} :
    table.lookup destination = some route ↔ table.Chooses destination route := by
  constructor
  · exact chooses_of_lookup
  · intro chooses
    cases found : table.lookup destination with
    | none =>
      obtain ⟨sooner, later, routes, _⟩ := chooses.first
      exact absurd chooses.covers (lookup_eq_none_iff.mp found route (by simp [routes]))
    | some other => rw [chooses.unique (chooses_of_lookup found)]

/-- A table keeps the first routes that it is offered. It finds nothing for a destination that none
    of them covers, and the first one with the longest network for any other. -/
theorem finds_longest_first (offered : List Route) (destination : Ipv4.Address) :
    let table := filled offered
    table.routes = offered.take 16 ∧
    Machine.lookup table.routes destination = some (table.lookup destination) ∧
    (∀ network : Ipv4.Cidr, network.contains destination ↔
      ∀ index < network.length, destination.bit index = network.address.bit index) ∧
    (∀ network : Ipv4.Cidr, network.length = 0 → network.contains destination) ∧
    (table.lookup destination = none ↔
      ∀ route ∈ table.routes, ¬ route.network.contains destination) ∧
    (∀ route, table.lookup destination = some route ↔ table.Chooses destination route) ∧
    ∀ route, (table.add route = .error .full ↔ table.routes.length = 16) ∧
      (table.add route = .error .full → ∀ address,
        (filled (offered ++ [route])).lookup address = table.lookup address) := by
  intro table
  have stored := filled_routes offered
  have few : table.routes.length ≤ maxRoutes := by
    rw [stored]
    exact List.length_take_le ..
  refine ⟨stored, Machine.lookup_eq table destination, fun network => Ipv4.Cidr.contains_iff,
    fun network empty => ?_, lookup_eq_none_iff, fun route => lookup_eq_some_iff, fun route => ?_⟩
  · rw [Ipv4.Cidr.contains_iff, empty]
    exact nofun
  · refine ⟨?_, fun refused address => ?_⟩
    · rw [add_eq_error_iff]
      exact ⟨Nat.le_antisymm few, Nat.le_of_eq ∘ Eq.symm⟩
    · rw [filled_concat, offer_of_full refused]

/-- Sixteen routes lead to eight networks, each with bits set behind its length. The gateway comes
    too late. -/
theorem finds_longest_first_crowded :
    let nearby (index : Nat) : Route :=
      ⟨⟨.ofOctets 10 (.ofNat (index / 2)) 7 1, 16, by decide⟩, none, index⟩
    let offered := (List.range 16).map nearby
    let gateway : Route := .gateway (.ofOctets 10 0 0 1) 0
    (filled offered).add gateway = .error .full ∧
    (filled (offered ++ [gateway])).lookup (.ofOctets 8 8 8 8) = none ∧
    (filled (offered ++ [gateway])).lookup (.ofOctets 10 0 200 9) = some (nearby 0) := by
  intro nearby offered gateway
  obtain ⟨stored, _, _, _, nothing, found, refusal⟩ :=
    finds_longest_first offered (.ofOctets 8 8 8 8)
  obtain ⟨_, _, _, _, _, found', _⟩ := finds_longest_first offered (.ofOctets 10 0 200 9)
  obtain ⟨full, same⟩ := refusal gateway
  have refused := full.mpr (by rw [stored]; rfl)
  refine ⟨refused, ?_, ?_⟩
  · rw [same refused, nothing, stored]
    decide
  · rw [same refused, found']
    refine ⟨by decide, ?_, ⟨[], _, stored, nofun⟩⟩
    rw [stored]
    decide

end Routing.Table

end NetStack
