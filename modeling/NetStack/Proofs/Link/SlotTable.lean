import Mathlib.Data.List.Nodup
import Mathlib.Data.List.Perm.Basic
import Mathlib.Data.Set.Card
import NetStack.Link.SlotTable

namespace NetStack.Link.SlotTable

section Replace

variable {Key Value : Type} [DecidableEq Key] {entries : List (Key × Value)} {key : Key}

theorem replace_of_absent (absent : ∀ entry ∈ entries, entry.1 ≠ key) (new : Key × Value) :
    (entries.map fun entry => if entry.1 = key then new else entry) = entries :=
  (List.map_congr_left fun entry member => if_neg (absent entry member)).trans (List.map_id _)

theorem others_of_absent (absent : ∀ entry ∈ entries, entry.1 ≠ key) :
    (entries.filter fun entry => decide (entry.1 ≠ key)) = entries :=
  List.filter_eq_self.mpr fun entry member => decide_eq_true (absent entry member)

theorem replace_perm (distinct : (entries.map Prod.fst).Nodup) {value : Value}
    (member : (key, value) ∈ entries) (new : Key × Value) :
    (entries.map fun entry => if entry.1 = key then new else entry).Perm
      (new :: entries.filter fun entry => decide (entry.1 ≠ key)) := by
  obtain ⟨before, after, rfl⟩ := List.append_of_mem member
  have unique := (List.perm_middle.map Prod.fst).nodup_iff.mp distinct
  rw [List.map_cons, List.nodup_cons] at unique
  have absent (entry : Key × Value) (here : entry ∈ before ++ after) : entry.1 ≠ key := by
    intro same
    exact unique.1 (List.mem_map.mpr ⟨entry, here, same⟩)
  have first (entry : Key × Value) (here : entry ∈ before) :=
    absent entry (List.mem_append_left _ here)
  have second (entry : Key × Value) (here : entry ∈ after) :=
    absent entry (List.mem_append_right _ here)
  rw [List.map_append, List.map_cons, List.filter_append, List.filter_cons,
    replace_of_absent first, replace_of_absent second, others_of_absent first,
    others_of_absent second]
  simp

end Replace

variable {Key Value : Type} {slots : Nat} {table : SlotTable Key Value slots}

def keys (table : SlotTable Key Value slots) : List Key := table.entries.map Prod.fst

structure Sound (table : SlotTable Key Value slots) : Prop where
  distinct : table.keys.Nodup
  bounded : table.count ≤ slots

theorem sound_empty : (empty : SlotTable Key Value slots).Sound :=
  ⟨List.nodup_nil, Nat.zero_le _⟩

theorem key_inj (distinct : table.keys.Nodup) {first second : Key × Value}
    (one : first ∈ table.entries) (other : second ∈ table.entries) (same : first.1 = second.1) :
    first = second :=
  List.inj_on_of_nodup_map distinct one other same

theorem count_le_encard (distinct : table.keys.Nodup) {set : Set Key}
    (sub : ∀ key ∈ table.keys, key ∈ set) : (table.count : ℕ∞) ≤ set.encard := by
  classical
  have counted : {key | key ∈ table.keys}.encard = table.count := by
    rw [← List.coe_toFinset, Set.encard_coe_eq_coe_finsetCard, List.toFinset_card_of_nodup distinct]
    exact congrArg Nat.cast (List.length_map _)
  rw [← counted]
  exact Set.encard_le_encard sub

theorem sound_of_perm_sublist {after : SlotTable Key Value slots} (sound : table.Sound)
    {entries : List (Key × Value)} (same : after.entries.Perm entries)
    (sub : entries.Sublist table.entries) : after.Sound where
  distinct := (same.map Prod.fst).nodup_iff.mpr (sound.distinct.sublist (sub.map Prod.fst))
  bounded := by
    have shorter := sub.length_le
    have bound := sound.bounded
    unfold count at bound ⊢
    rw [same.length_eq]
    omega

variable [DecidableEq Key]

def others (table : SlotTable Key Value slots) (key : Key) : List (Key × Value) :=
  table.entries.filter fun entry => decide (entry.1 ≠ key)

theorem mem_others {key : Key} {entry : Key × Value} :
    entry ∈ table.others key ↔ entry ∈ table.entries ∧ entry.1 ≠ key := by
  unfold others
  rw [List.mem_filter, decide_eq_true_iff]

theorem others_eq_entries {key : Key} (absent : key ∉ table.keys) :
    table.others key = table.entries := by
  apply others_of_absent
  rintro entry member rfl
  exact absent (List.mem_map_of_mem member)

theorem perm_others (distinct : table.keys.Nodup) {entry : Key × Value}
    (member : entry ∈ table.entries) : table.entries.Perm (entry :: table.others entry.1) := by
  have itself : (table.entries.map fun other => if other.1 = entry.1 then entry else other) =
      table.entries := by
    refine (List.map_congr_left fun other here => ?_).trans (List.map_id _)
    split
    · rename_i same
      exact key_inj distinct member here same.symm
    · rfl
  have replaced := replace_perm distinct member entry
  rwa [itself] at replaced

theorem contains_iff {key : Key} : table.contains key = true ↔ key ∈ table.keys := by
  unfold contains get? keys
  rw [List.lookup_isSome_iff, List.mem_map]
  simp only [beq_iff_eq]
  exact exists_congr fun entry => and_congr_right fun _ => eq_comm

theorem mem_of_get? {key : Key} {value : Value} (found : table.get? key = some value) :
    (key, value) ∈ table.entries := by
  obtain ⟨front, back, split, _⟩ := List.lookup_eq_some_iff.mp found
  rw [split]
  simp

theorem exists_mem_of_key {key : Key} (known : key ∈ table.keys) :
    ∃ value, (key, value) ∈ table.entries := by
  obtain ⟨value, found⟩ := Option.isSome_iff_exists.mp (contains_iff.mpr known)
  exact ⟨value, mem_of_get? found⟩

theorem get?_eq_some_iff (distinct : table.keys.Nodup) {key : Key} {value : Value} :
    table.get? key = some value ↔ (key, value) ∈ table.entries := by
  refine ⟨mem_of_get?, fun member => ?_⟩
  have known : table.contains key = true := contains_iff.mpr (List.mem_map_of_mem member)
  obtain ⟨stored, found⟩ := Option.isSome_iff_exists.mp known
  cases key_inj distinct (mem_of_get? found) member rfl
  exact found

theorem get?_eq_none_iff {key : Key} : table.get? key = none ↔ key ∉ table.keys := by
  rw [← contains_iff]
  unfold contains
  cases table.get? key <;> simp

section Erase

theorem erase_perm (distinct : table.keys.Nodup) (key : Key) :
    (table.erase key).entries.Perm (table.others key) := by
  unfold erase
  by_cases known : key ∈ table.keys
  · obtain ⟨value, member⟩ := exists_mem_of_key known
    rw [if_pos (contains_iff.mpr known)]
    split
    · rename_i nothing
      rw [List.getLast?_eq_none_iff.mp nothing] at member
      cases member
    · rename_i last ends
      obtain ⟨front, split⟩ := List.getLast?_eq_some_iff.mp ends
      unfold others
      rw [keys, split, List.map_append] at distinct
      rw [split] at member ⊢
      rw [List.dropLast_concat, List.filter_append]
      by_cases hole : last.1 = key
      · -- the last entry is the one to go, and no other has its key
        have absent (entry : Key × Value) (here : entry ∈ front) : entry.1 ≠ key := by
          intro same
          apply List.disjoint_of_nodup_append distinct (List.mem_map_of_mem here)
          simp [same, hole]
        rw [replace_of_absent absent, others_of_absent absent]
        simp [hole]
      · -- the last entry goes where the entry of the key was
        have inside : (key, value) ∈ front := by
          rcases List.mem_append.mp member with here | there
          · exact here
          · cases List.mem_singleton.mp there
            exact absurd rfl hole
        refine (replace_perm (List.nodup_append.mp distinct).1 inside last).trans ?_
        simpa [hole] using (List.perm_append_singleton last _).symm
  · rw [if_neg (fun found => known (contains_iff.mp found)), others_eq_entries known]

theorem Sound.erase (sound : table.Sound) (key : Key) : (table.erase key).Sound :=
  sound_of_perm_sublist sound (erase_perm sound.distinct key) List.filter_sublist

theorem get?_erase (sound : table.Sound) (key other : Key) :
    (table.erase key).get? other = if other = key then none else table.get? other := by
  have same := erase_perm sound.distinct key
  apply Option.ext
  intro value
  rw [get?_eq_some_iff (sound.erase key).distinct, same.mem_iff, mem_others]
  split
  · rename_i gone
    simp [gone]
  · rename_i stays
    rw [get?_eq_some_iff sound.distinct]
    exact and_iff_left stays

theorem foldl_erase_perm (sound : table.Sound) (doomed : List (Key × Value)) :
    (doomed.foldl (fun left entry => left.erase entry.1) table).entries.Perm
      (table.entries.filter fun entry => decide (entry.1 ∉ doomed.map Prod.fst)) := by
  induction doomed generalizing table with
  | nil => simp
  | cons first rest ih =>
    have same := (erase_perm sound.distinct first.1).filter
      fun entry => decide (entry.1 ∉ rest.map Prod.fst)
    refine (ih (sound.erase first.1)).trans (same.trans (.of_eq ?_))
    rw [others, List.filter_filter]
    apply List.filter_congr
    intro entry _
    rw [← Bool.decide_and, decide_eq_decide, List.map_cons, List.mem_cons, not_or]
    exact and_comm

theorem eraseWhere_perm (sound : table.Sound) (test : Value → Bool) :
    (table.eraseWhere test).entries.Perm (table.entries.filter fun entry => !test entry.2) := by
  refine (foldl_erase_perm sound _).trans (.of_eq (List.filter_congr ?_))
  intro entry member
  have only : entry.1 ∈ (table.entries.filter fun entry => test entry.2).map Prod.fst ↔
      test entry.2 = true := by
    rw [List.mem_map]
    constructor
    · rintro ⟨gone, dooms, same⟩
      have parts := List.mem_filter.mp dooms
      cases key_inj sound.distinct parts.1 member same
      exact parts.2
    · intro dooms
      exact ⟨entry, List.mem_filter.mpr ⟨member, dooms⟩, rfl⟩
  simp [only]

theorem Sound.eraseWhere (sound : table.Sound) (test : Value → Bool) :
    (table.eraseWhere test).Sound :=
  sound_of_perm_sublist sound (eraseWhere_perm sound test) List.filter_sublist

theorem get?_eraseWhere (sound : table.Sound) (test : Value → Bool) (key : Key) :
    (table.eraseWhere test).get? key = (table.get? key).filter fun value => !test value := by
  apply Option.ext
  intro value
  rw [get?_eq_some_iff (sound.eraseWhere test).distinct, (eraseWhere_perm sound test).mem_iff,
    List.mem_filter, ← get?_eq_some_iff sound.distinct]
  simp

end Erase

section Put

variable {rank : Value → Nat} {key : Key} {value : Value}

omit [DecidableEq Key] in
theorem lowest?_eq_some {entry : Key × Value} (found : table.lowest? rank = some entry) :
    entry ∈ table.entries ∧ ∀ other ∈ table.entries, rank entry.2 ≤ rank other.2 := by
  have least (first : Key × Value) (rest : List (Key × Value)) :
      let best := rest.foldl
        (fun best entry => if rank entry.2 < rank best.2 then entry else best) first
      best ∈ first :: rest ∧ ∀ other ∈ first :: rest, rank best.2 ≤ rank other.2 := by
    induction rest generalizing first with
    | nil => simp
    | cons next rest ih =>
      rw [List.foldl_cons]
      obtain ⟨member, least⟩ := ih (if rank next.2 < rank first.2 then next else first)
      refine ⟨?_, ?_⟩
      · rcases List.mem_cons.mp member with same | later
        · rw [same]
          split <;> simp
        · simp [later]
      · have bound := least _ List.mem_cons_self
        have lower : rank (if rank next.2 < rank first.2 then next else first).2 ≤ rank first.2 ∧
            rank (if rank next.2 < rank first.2 then next else first).2 ≤ rank next.2 := by
          split <;> omega
        intro other here
        rcases List.mem_cons.mp here with rfl | here
        · exact Nat.le_trans bound lower.1
        · rcases List.mem_cons.mp here with rfl | here
          · exact Nat.le_trans bound lower.2
          · exact least other (List.mem_cons_of_mem _ here)
  unfold lowest? at found
  split at found
  · cases found
  · rename_i first rest split
    cases found
    rw [split]
    exact least first rest

theorem insert?_perm (distinct : table.keys.Nodup) (value : Value)
    (room : key ∈ table.keys ∨ table.count < slots) :
    ∃ filled, table.insert? key value = some filled ∧
      filled.entries.Perm ((key, value) :: table.others key) := by
  unfold insert?
  by_cases known : key ∈ table.keys
  · obtain ⟨stored, member⟩ := exists_mem_of_key known
    rw [if_pos (contains_iff.mpr known)]
    exact ⟨_, rfl, replace_perm distinct member (key, value)⟩
  · rw [if_neg (fun found => known (contains_iff.mp found)), if_pos (room.resolve_left known),
      others_eq_entries known]
    exact ⟨_, rfl, List.perm_append_singleton _ _⟩

theorem length_others_lt {entry : Key × Value} (member : entry ∈ table.entries) :
    (table.others entry.1).length < table.entries.length :=
  List.length_filter_lt_length_iff_exists.mpr ⟨entry, member, by simp⟩

theorem put_of_room (distinct : table.keys.Nodup) (rank : Value → Nat) (value : Value)
    (room : key ∈ table.keys ∨ table.count < slots) :
    (table.put rank key value).entries.Perm ((key, value) :: table.others key) := by
  obtain ⟨filled, inserted, same⟩ := insert?_perm distinct value room
  unfold put
  rw [inserted]
  exact same

theorem put_of_full (sound : table.Sound) (positive : 0 < slots) (rank : Value → Nat)
    (value : Value) (absent : key ∉ table.keys) (full : table.count = slots) :
    ∃ lowest ∈ table.entries, (∀ entry ∈ table.entries, rank lowest.2 ≤ rank entry.2) ∧
      (table.put rank key value).entries.Perm ((key, value) :: table.others lowest.1) := by
  have refused : table.insert? key value = none := by
    unfold insert?
    rw [if_neg (fun known => absent (contains_iff.mp known)), if_neg (by omega)]
  obtain ⟨lowest, found⟩ : ∃ lowest, table.lowest? rank = some lowest := by
    unfold lowest?
    split
    · rename_i nothing
      unfold count at full
      rw [nothing, List.length_nil] at full
      omega
    · exact ⟨_, rfl⟩
  obtain ⟨member, least⟩ := lowest?_eq_some found
  refine ⟨lowest, member, least, ?_⟩
  have rest := erase_perm sound.distinct lowest.1
  have fewer : (table.erase lowest.1).count < slots := by
    have shorter := length_others_lt member
    unfold count at full ⊢
    rw [rest.length_eq]
    omega
  obtain ⟨filled, inserted, same⟩ := insert?_perm
    (sound.erase lowest.1).distinct value (.inr fewer : key ∈ _ ∨ _)
  have placed : table.put rank key value = filled := by
    unfold put
    rw [refused, found]
    dsimp only
    rw [inserted]
    rfl
  have spared : (table.erase lowest.1).others key = (table.erase lowest.1).entries := by
    apply others_of_absent
    rintro entry here rfl
    exact absent (List.mem_map_of_mem (mem_others.mp (rest.mem_iff.mp here)).1)
  rw [placed]
  rw [spared] at same
  exact same.trans (rest.cons _)

/-- Where a new value goes: into the slot of its key, into a free one, or into one that an entry
    which ranks lowest gives up. -/
theorem put_cases (sound : table.Sound) (positive : 0 < slots) (rank : Value → Nat) (key : Key)
    (value : Value) :
    (key ∈ table.keys ∨ table.count < slots) ∧
        (table.put rank key value).entries.Perm ((key, value) :: table.others key) ∨
      key ∉ table.keys ∧ table.count = slots ∧ ∃ lowest ∈ table.entries,
        (∀ entry ∈ table.entries, rank lowest.2 ≤ rank entry.2) ∧
        (table.put rank key value).entries.Perm ((key, value) :: table.others lowest.1) := by
  by_cases room : key ∈ table.keys ∨ table.count < slots
  · exact .inl ⟨room, put_of_room sound.distinct rank value room⟩
  · obtain ⟨absent, taken⟩ := not_or.mp room
    have full : table.count = slots := Nat.le_antisymm sound.bounded (Nat.not_lt.mp taken)
    exact .inr ⟨absent, full, put_of_full sound positive rank value absent full⟩

theorem sound_of_perm_cons {after : SlotTable Key Value slots} (sound : table.Sound) {gone : Key}
    (same : after.entries.Perm ((key, value) :: table.others gone))
    (absent : key ∉ (table.others gone).map Prod.fst) (room : (table.others gone).length < slots) :
    after.Sound where
  distinct := by
    refine (same.map Prod.fst).nodup_iff.mpr (List.nodup_cons.mpr ⟨absent, ?_⟩)
    exact sound.distinct.sublist (List.filter_sublist.map Prod.fst)
  bounded := by
    unfold count
    rw [same.length_eq, List.length_cons]
    omega

theorem Sound.put (sound : table.Sound) (positive : 0 < slots) (rank : Value → Nat) (key : Key)
    (value : Value) : (table.put rank key value).Sound := by
  have bound : table.entries.length ≤ slots := sound.bounded
  rcases put_cases sound positive rank key value with
    ⟨room, same⟩ | ⟨absent, full, lowest, member, _, same⟩
  · refine sound_of_perm_cons sound same ?_ ?_
    · intro again
      obtain ⟨entry, here, rfl⟩ := List.mem_map.mp again
      exact (mem_others.mp here).2 rfl
    · by_cases known : key ∈ table.keys
      · obtain ⟨stored, here⟩ := exists_mem_of_key known
        exact Nat.lt_of_lt_of_le (length_others_lt here) bound
      · rw [others_eq_entries known]
        exact room.resolve_left known
  · refine sound_of_perm_cons sound same ?_ (Nat.lt_of_lt_of_le (length_others_lt member) bound)
    intro again
    obtain ⟨entry, here, rfl⟩ := List.mem_map.mp again
    exact absent (List.mem_map_of_mem (mem_others.mp here).1)

theorem get?_put_self (sound : table.Sound) (positive : 0 < slots) :
    (table.put rank key value).get? key = some value := by
  rw [get?_eq_some_iff (sound.put positive rank key value).distinct]
  rcases put_cases sound positive rank key value with ⟨_, same⟩ | ⟨_, _, _, _, _, same⟩
  · exact same.mem_iff.mpr List.mem_cons_self
  · exact same.mem_iff.mpr List.mem_cons_self

theorem get?_put_other (sound : table.Sound) (positive : 0 < slots) (rank : Value → Nat)
    (value : Value) {other : Key} (different : other ≠ key) :
    (table.put rank key value).get? other = table.get? other ∨
      key ∉ table.keys ∧ table.count = slots ∧ (table.put rank key value).get? other = none ∧
        ∃ lowest, table.get? other = some lowest ∧
          ∀ entry ∈ table.entries, rank lowest ≤ rank entry.2 := by
  have placed := sound.put positive rank key value
  have kept {gone : Key} (same : (table.put rank key value).entries.Perm
      ((key, value) :: table.others gone)) (stays : other ≠ gone) :
      (table.put rank key value).get? other = table.get? other := by
    apply Option.ext
    intro stored
    rw [get?_eq_some_iff placed.distinct, get?_eq_some_iff sound.distinct, same.mem_iff,
      List.mem_cons, mem_others]
    simp [different, stays]
  rcases put_cases sound positive rank key value with
    ⟨_, same⟩ | ⟨absent, full, lowest, member, least, same⟩
  · exact .inl (kept same different)
  · by_cases gone : other = lowest.1
    · subst gone
      refine .inr ⟨absent, full, ?_, lowest.2, ?_, least⟩
      · rw [get?_eq_none_iff, keys, (same.map Prod.fst).mem_iff, List.map_cons, List.mem_cons]
        rintro (again | again)
        · exact different again
        · obtain ⟨entry, here, alike⟩ := List.mem_map.mp again
          exact (mem_others.mp here).2 alike
      · exact (get?_eq_some_iff sound.distinct).mpr member
    · exact .inl (kept same gone)

end Put

end NetStack.Link.SlotTable
