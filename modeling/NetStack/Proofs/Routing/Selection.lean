import Mathlib.Data.List.Induction
import NetStack.Routing.Table

namespace NetStack.Routing.Table

structure Chooses (table : Table) (destination : Ipv4.Address) (route : Route) : Prop where
  covers : route.network.contains destination
  longest : ∀ other ∈ table.routes, other.network.contains destination →
    other.network.length ≤ route.network.length
  first : ∃ sooner later, table.routes = sooner ++ route :: later ∧
    ∀ other ∈ sooner, other.network.contains destination →
      other.network.length < route.network.length

theorem foldl_prefer (first : Route) (rest : List Route) : ∃ sooner later,
    first :: rest = sooner ++ rest.foldl prefer first :: later ∧
      (∀ other ∈ sooner, other.network.length < (rest.foldl prefer first).network.length) ∧
      ∀ other ∈ later, other.network.length ≤ (rest.foldl prefer first).network.length := by
  induction rest using List.reverseRecOn with
  | nil => exact ⟨[], [], rfl, nofun, nofun⟩
  | append_singleton rest last ih =>
    obtain ⟨sooner, later, split, shorter, noLonger⟩ := ih
    rw [List.foldl_append, List.foldl_cons, List.foldl_nil, ← List.cons_append, split]
    generalize rest.foldl prefer first = best at *
    unfold prefer
    by_cases longer : best.network.length < last.network.length
    · rw [if_pos longer]
      refine ⟨sooner ++ best :: later, [], rfl, fun other member => ?_, nofun⟩
      rcases List.mem_append.mp member with before | after
      · exact Nat.lt_trans (shorter other before) longer
      · rcases List.mem_cons.mp after with rfl | after
        · exact longer
        · exact Nat.lt_of_le_of_lt (noLonger other after) longer
    · rw [if_neg longer]
      refine ⟨sooner, later ++ [last], by simp, shorter, fun other member => ?_⟩
      rcases List.mem_append.mp member with after | new
      · exact noLonger other after
      · rw [List.mem_singleton.mp new]
        exact Nat.le_of_not_lt longer

theorem chooses_of_lookup {table : Table} {destination : Ipv4.Address} {route : Route}
    (found : table.lookup destination = some route) : table.Chooses destination route := by
  unfold lookup best? at found
  split at found
  · cases found
  · rename_i first rest covering
    obtain ⟨sooner, later, split, shorter, noLonger⟩ := foldl_prefer first rest
    cases found
    generalize rest.foldl prefer first = best at *
    rw [split] at covering
    obtain ⟨front, back, routes, before, after⟩ := List.filter_eq_append_iff.mp covering
    obtain ⟨skipped, tail, rfl, others, covers, behind⟩ := List.filter_eq_cons_iff.mp after
    have earlier : ∀ other ∈ front ++ skipped, other.network.contains destination →
        other.network.length < best.network.length := by
      intro other member covered
      rcases List.mem_append.mp member with old | passed
      · refine shorter other ?_
        rw [← before]
        exact List.mem_filter.mpr ⟨old, covered⟩
      · exact absurd covered (others other passed)
    rw [← List.append_assoc] at routes
    refine ⟨covers, fun other member covered => ?_, front ++ skipped, tail, routes, earlier⟩
    rw [routes] at member
    rcases List.mem_append.mp member with old | new
    · exact Nat.le_of_lt (earlier other old covered)
    · rcases List.mem_cons.mp new with rfl | new
      · exact Nat.le_refl _
      · refine noLonger other ?_
        rw [← behind]
        exact List.mem_filter.mpr ⟨new, covered⟩

end NetStack.Routing.Table
