import NetStack.Link.NeighborCache
import NetStack.Proofs.Link.SlotTable

namespace NetStack.Link.NeighborCache

def hardwareOf? (cache : NeighborCache) (address : Ipv4.Address) (now : Instant) :
    Option Ethernet.Address :=
  ((cache.known.get? address).filter fun neighbor => decide (now < neighbor.expiresAt)).map
    (·.hardware)

structure Sound (cache : NeighborCache) : Prop where
  known : cache.known.Sound
  asked : cache.asked.Sound

theorem sound_empty : empty.Sound := ⟨SlotTable.sound_empty, SlotTable.sound_empty⟩

variable {cache : NeighborCache} {address other : Ipv4.Address} {now : Instant}

section Lookup

theorem hardwareOf?_eq_some_iff {hardware : Ethernet.Address} :
    cache.hardwareOf? address now = some hardware ↔ ∃ neighbor,
      cache.known.get? address = some neighbor ∧ now < neighbor.expiresAt ∧
        neighbor.hardware = hardware := by
  unfold hardwareOf?
  simp only [Option.map_eq_some_iff, Option.filter_eq_some_iff, decide_eq_true_eq, and_assoc]

theorem hardwareOf?_eq_none_iff : cache.hardwareOf? address now = none ↔
    ∀ neighbor, cache.known.get? address = some neighbor → neighbor.expiresAt ≤ now := by
  unfold hardwareOf?
  rw [Option.map_eq_none_iff, Option.filter_eq_none_iff]
  refine forall₂_congr fun neighbor _ => ?_
  rw [decide_eq_true_iff, Instant.lt_iff, Instant.le_iff, Nat.not_lt]

theorem lookup_eq_found_iff {hardware : Ethernet.Address} :
    cache.lookup address now = .found hardware ↔ cache.hardwareOf? address now = some hardware := by
  unfold lookup hardwareOf?
  cases (cache.known.get? address).filter fun neighbor => decide (now < neighbor.expiresAt) with
  | some neighbor => simp
  | none =>
    simp only [Option.map_none, reduceCtorEq, iff_false]
    split <;> exact nofun

theorem lookup_of_none (unknown : cache.hardwareOf? address now = none) :
    cache.lookup address now = if cache.isSilent address now then .askedLately else .unknown := by
  unfold lookup
  rw [Option.map_eq_none_iff.mp unknown]

theorem isSilent_iff : cache.isSilent address now = true ↔
    ∃ wakes, cache.asked.get? address = some wakes ∧ now < wakes := by
  unfold isSilent
  simp only [Option.any_eq_true, decide_eq_true_eq]

end Lookup

section Operations

variable (sound : cache.Sound) (hardware : Ethernet.Address)
include sound

theorem Sound.fill (address : Ipv4.Address) (now : Instant) :
    (cache.fill address hardware now).Sound :=
  ⟨sound.known.put (by decide) _ _ _, sound.asked.erase address⟩

theorem Sound.noteAsked (address : Ipv4.Address) (now : Instant) :
    (cache.noteAsked address now).Sound :=
  ⟨sound.known, sound.asked.put (by decide) _ _ _⟩

theorem Sound.expire (now : Instant) : (cache.expire now).Sound :=
  ⟨sound.known.eraseWhere fun neighbor => decide (neighbor.expiresAt ≤ now),
    sound.asked.eraseWhere fun wakes => decide (wakes ≤ now)⟩

theorem known_fill_self : (cache.fill address hardware now).known.get? address =
    some ⟨hardware, now + lifetime⟩ :=
  SlotTable.get?_put_self sound.known (by decide)

/-- A mapping that a new one displaces: the cache is full, and no other would run out earlier. -/
structure Displaced (cache : NeighborCache) (address newcomer : Ipv4.Address) : Prop where
  absent : newcomer ∉ cache.known.keys
  full : cache.known.count = 16
  first : ∃ neighbor, cache.known.get? address = some neighbor ∧
    ∀ entry ∈ cache.known.entries, neighbor.expiresAt ≤ entry.2.expiresAt

theorem known_fill_other (now : Instant) (different : other ≠ address) :
    (cache.fill address hardware now).known.get? other = cache.known.get? other ∨
      (cache.fill address hardware now).known.get? other = none ∧
        cache.Displaced other address := by
  rcases SlotTable.get?_put_other sound.known (by decide) (·.expiresAt.millis)
    ⟨hardware, now + lifetime⟩ different with kept | ⟨absent, full, gone, first⟩
  · exact .inl kept
  · exact .inr ⟨gone, absent, full, first⟩

theorem asked_fill : (cache.fill address hardware now).asked.get? other =
    if other = address then none else cache.asked.get? other :=
  SlotTable.get?_erase sound.asked address other

theorem asked_noteAsked_self :
    (cache.noteAsked address now).asked.get? address = some (now + silence) :=
  SlotTable.get?_put_self sound.asked (by decide)

theorem asked_noteAsked_other (now : Instant) (different : other ≠ address) :
    (cache.noteAsked address now).asked.get? other = cache.asked.get? other ∨
      (cache.noteAsked address now).asked.get? other = none ∧
        address ∉ cache.asked.keys ∧ cache.asked.count = 16 := by
  rcases SlotTable.get?_put_other sound.asked (by decide) (·.millis) (now + silence)
    different with kept | ⟨absent, full, gone, _⟩
  · exact .inl kept
  · exact .inr ⟨gone, absent, full⟩

theorem known_expire : (cache.expire now).known.get? address =
    (cache.known.get? address).filter fun neighbor => !decide (neighbor.expiresAt ≤ now) :=
  SlotTable.get?_eraseWhere sound.known _ address

theorem asked_expire : (cache.expire now).asked.get? address =
    (cache.asked.get? address).filter fun wakes => !decide (wakes ≤ now) :=
  SlotTable.get?_eraseWhere sound.asked _ address

end Operations

end NetStack.Link.NeighborCache
