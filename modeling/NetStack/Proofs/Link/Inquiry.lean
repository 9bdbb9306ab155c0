import NetStack.Proofs.Link.Chronicle

namespace NetStack.Link

/-- The addresses that were asked for in the last five seconds and not heard from since. -/
def awaited (events : List Event) (now : Instant) : Set Ipv4.Address :=
  {address | ∃ time, SilentSince events (.asked time address) address ∧
    now.millis < time.millis + 5000}

/-- Two questions for one address that was not heard from in between are five seconds apart. -/
def Spaced (events : List Event) : Prop :=
  ∀ earlier second address later, events = earlier ++ .asked second address :: later →
    ∀ first, SilentSince earlier (.asked first address) address →
      first.millis + 5000 ≤ second.millis

theorem spaced_nil : Spaced [] := by
  intro earlier second address later split
  simp at split

theorem Spaced.append_singleton {events : List Event} {last : Event} (spaced : Spaced events)
    (apart : ∀ second address, last = .asked second address →
      ∀ first, SilentSince events (.asked first address) address →
        first.millis + 5000 ≤ second.millis) : Spaced (events ++ [last]) := by
  intro earlier second address later split first since
  rcases append_singleton_eq_append_cons_iff.mp split with ⟨_, rfl, same⟩ | ⟨between, _, before⟩
  · exact apart second address same.symm first since
  · exact spaced earlier second address between before first since

namespace NeighborCache

/-- A cache remembers the questions that are open, as long as they are not to be asked again. -/
structure Paces (cache : NeighborCache) (now : Instant) (events : List Event) : Prop where
  awaits : ∀ address wakes, cache.asked.get? address = some wakes → now < wakes ∧
    ∃ time, SilentSince events (.asked time address) address ∧ wakes = time + silence
  remembers : ∀ address time, SilentSince events (.asked time address) address →
    now.millis < time.millis + 5000 →
      ∃ wakes, cache.asked.get? address = some wakes ∧ time + silence ≤ wakes
  spaced : Spaced events
  past : ∀ event ∈ events, event.time ≤ now

theorem paces_empty (now : Instant) : empty.Paces now [] where
  awaits := nofun
  remembers _ _ since := absurd since (not_silentSince_nil _ _)
  spaced := spaced_nil
  past := nofun

theorem millis_add_silence {time : Instant} (early : time.millis < 2 ^ 63) :
    (time + silence).millis = time.millis + 5000 := by
  have silence : NeighborCache.silence.millis = 5000 := rfl
  rw [Instant.millis_add, silence]
  unfold maxMillis
  omega

variable {before after : NeighborCache} {now later : Instant} {events new : List Event}
  {address : Ipv4.Address}

/-- A full table of open questions leaves no room for one more. -/
theorem Paces.seventeen_awaited (paces : before.Paces now events) (sound : before.Sound)
    (early : now.millis < 2 ^ 63) (absent : address ∉ before.asked.keys)
    (full : before.asked.count = 16) :
    17 ≤ (awaited (events ++ [.asked now address]) now).encard := by
  -- each entry stands for a question of the last five seconds, and the new one is the seventeenth
  have newcomer : address ∈ awaited (events ++ [.asked now address]) now :=
    ⟨now, silentSince_append_singleton.mpr (.inl rfl), by omega⟩
  have others : ∀ other ∈ before.asked.keys,
      other ∈ awaited (events ++ [.asked now address]) now \ {address} := by
    intro other known
    refine ⟨?_, fun same => absent (same ▸ known)⟩
    obtain ⟨wakes, entered⟩ := SlotTable.exists_mem_of_key known
    obtain ⟨soon, time, since, rfl⟩ := paces.awaits other wakes
      ((SlotTable.get?_eq_some_iff sound.asked.distinct).mpr entered)
    have le : time.millis ≤ now.millis := paces.past _ since.mem
    rw [Instant.lt_iff, millis_add_silence (by omega)] at soon
    exact ⟨time, silentSince_append_singleton.mpr (.inr ⟨since, nofun⟩), soon⟩
  have counted := SlotTable.count_le_encard sound.asked.distinct others
  rw [full] at counted
  rw [← Set.encard_sdiff_singleton_add_one newcomer]
  exact add_le_add_left counted 1

theorem Paces.apart (paces : before.Paces now events) (early : now.millis < 2 ^ 63)
    (unasked : before.isSilent address now = false) {first : Instant}
    (since : SilentSince events (.asked first address) address) :
    first.millis + 5000 ≤ now.millis := by
  by_contra soon
  obtain ⟨wakes, found, le⟩ := paces.remembers address first since (by omega)
  have firstBy : first.millis ≤ now.millis := paces.past _ since.mem
  rw [Instant.le_iff, millis_add_silence (by omega)] at le
  have silent : before.isSilent address now = true := by
    refine isSilent_iff.mpr ⟨wakes, found, ?_⟩
    rw [Instant.lt_iff]
    omega
  cases unasked.symm.trans silent

section Observes

variable (observes : before.Observes now new after later) (sound : before.Sound)
  (paced : before.Paces now events) (early : later.millis < 2 ^ 63)
include observes sound paced early

theorem Observes.awaits {wakes : Instant} (found : after.asked.get? address = some wakes) :
    later < wakes ∧ ∃ time, SilentSince (events ++ new) (.asked time address) address ∧
      wakes = time + silence := by
  cases observes with
  | nothing =>
    rw [List.append_nil]
    exact paced.awaits address wakes found
  | @asked nextHop =>
    by_cases same : address = nextHop
    · subst same
      obtain rfl : wakes = now + silence :=
        Option.some.inj (found.symm.trans (asked_noteAsked_self sound))
      refine ⟨?_, now, silentSince_append_singleton.mpr (.inl rfl), rfl⟩
      rw [Instant.lt_iff, millis_add_silence early]
      omega
    · have stored : before.asked.get? address = some wakes := by
        rcases asked_noteAsked_other sound now same with kept | ⟨gone, _⟩
        · exact kept.symm.trans found
        · cases gone.symm.trans found
      obtain ⟨soon, time, since, wakes⟩ := paced.awaits address wakes stored
      exact ⟨soon, time, silentSince_append_singleton.mpr (.inr ⟨since, nofun⟩), wakes⟩
  | heard message =>
    rw [asked_fill sound] at found
    split at found
    · cases found
    · rename_i different
      obtain ⟨soon, time, since, wakes⟩ := paced.awaits address wakes found
      have other : (Event.heard now message).sender? ≠ some address :=
        fun sends => different (Option.some.inj sends).symm
      exact ⟨soon, time, silentSince_append_singleton.mpr (.inr ⟨since, other⟩), wakes⟩
  | passed =>
    rw [asked_expire sound] at found
    obtain ⟨stored, lasts⟩ := Option.filter_eq_some_iff.mp found
    rw [List.append_nil]
    refine ⟨?_, (paced.awaits address wakes stored).2⟩
    rw [Bool.not_eq_true', decide_eq_false_iff_not, Instant.le_iff, Nat.not_le] at lasts
    exact lasts

theorem Observes.remembers (few : (awaited (events ++ new) later).encard ≤ 16) {time : Instant}
    (since : SilentSince (events ++ new) (.asked time address) address)
    (soon : later.millis < time.millis + 5000) :
    ∃ wakes, after.asked.get? address = some wakes ∧ time + silence ≤ wakes := by
  cases observes with
  | nothing =>
    rw [List.append_nil] at since
    exact paced.remembers address time since soon
  | @asked nextHop =>
    by_cases same : address = nextHop
    · subst same
      have le : time.millis ≤ now.millis := by
        rcases silentSince_append_singleton.mp since with same | ⟨since, _⟩
        · cases same
          exact Nat.le_refl _
        · exact paced.past _ since.mem
      refine ⟨_, asked_noteAsked_self sound, ?_⟩
      rw [Instant.le_iff, millis_add_silence early, millis_add_silence (by omega)]
      omega
    · obtain ⟨since, _⟩ := (silentSince_append_singleton.mp since).resolve_left
        fun alike => same (Event.asked.inj alike).2
      obtain ⟨wakes, found, le⟩ := paced.remembers address time since soon
      rcases asked_noteAsked_other sound now same with kept | ⟨_, absent, full⟩
      · exact ⟨wakes, kept.trans found, le⟩
      · have many := (paced.seventeen_awaited sound early absent full).trans few
        exact absurd many (by decide)
  | heard message =>
    obtain ⟨since, other⟩ := (silentSince_append_singleton.mp since).resolve_left nofun
    obtain ⟨wakes, found, le⟩ := paced.remembers address time since soon
    refine ⟨wakes, ?_, le⟩
    rw [asked_fill sound, if_neg fun same => other (congrArg some same.symm)]
    exact found
  | passed passes =>
    rw [List.append_nil] at since
    have nowBy : now.millis ≤ later.millis := passes
    have timeBy : time.millis ≤ now.millis := paced.past _ since.mem
    obtain ⟨wakes, found, le⟩ := paced.remembers address time since (by omega)
    refine ⟨wakes, ?_, le⟩
    rw [Instant.le_iff, millis_add_silence (by omega)] at le
    have lasts : ¬ wakes ≤ later := by
      rw [Instant.le_iff]
      omega
    rw [asked_expire sound, found]
    simp [Option.filter, lasts]

omit sound in
theorem Observes.spaced : Spaced (events ++ new) := by
  cases observes with
  | nothing | passed =>
    rw [List.append_nil]
    exact paced.spaced
  | asked _ unasked =>
    refine paced.spaced.append_singleton fun second address same first since => ?_
    cases same
    exact paced.apart early unasked since
  | heard => exact paced.spaced.append_singleton nofun

theorem Observes.paces (few : (awaited (events ++ new) later).encard ≤ 16) :
    after.Paces later (events ++ new) where
  awaits _ _ found := observes.awaits sound paced early found
  remembers _ _ since soon := observes.remembers sound paced early few since soon
  spaced := observes.spaced paced early
  past := observes.past paced.past

end Observes

theorem Paces.isSilent_eq_false (paces : before.Paces now events) (early : now.millis < 2 ^ 63)
    (long : ∀ time, .asked time address ∈ events → time.millis + 5000 ≤ now.millis) :
    before.isSilent address now = false := by
  by_contra silent
  obtain ⟨wakes, found, soon⟩ := isSilent_iff.mp (Bool.eq_true_of_not_eq_false silent)
  obtain ⟨_, time, since, rfl⟩ := paces.awaits address wakes found
  have bound := long time since.mem
  rw [Instant.lt_iff, millis_add_silence (by omega)] at soon
  omega

end NeighborCache

namespace Interface

theorem step_send_of_unknown {interface : Interface} {nextHop : Ipv4.Address}
    (unknown : interface.neighbors.hardwareOf? nextHop interface.now = none)
    (unasked : interface.neighbors.isSilent nextHop interface.now = false)
    (datagram : Ipv4.Datagram) :
    ∃ frame after, interface.step (.send datagram nextHop) = .ok (.done, after) ∧
      after.frames = interface.frames ++ [frame] ∧ Packet.read? frame =
        some (.broadcast, .arp (.request interface.hardware interface.address nextHop)) := by
  obtain ⟨asking, emitted⟩ := interface.exists_emit
    (.arp (.request interface.hardware interface.address nextHop)) trivial .broadcast
  obtain ⟨frame, rfl, reads⟩ := emit_eq_ok emitted
  have answer : interface.neighbors.lookup nextHop interface.now = .unknown := by
    rw [NeighborCache.lookup_of_none unknown, unasked]
    rfl
  unfold step
  dsimp only
  unfold send
  rw [answer]
  dsimp only
  rw [emitted]
  exact ⟨frame, _, rfl, frames_enqueue .., reads⟩

variable {hardware : Ethernet.Address} {address : Ipv4.Address} {ops : List Op} {after : Interface}

theorem run_paces (ran : (fresh hardware address).run ops = .ok after)
    (early : after.now.millis < 2 ^ 63)
    (few : ∀ front, front <+: ops → (awaited ((fresh hardware address).chronicle front)
      ((fresh hardware address).course front).now).encard ≤ 16) :
    after.neighbors.Sound ∧
      after.neighbors.Paces after.now ((fresh hardware address).chronicle ops) := by
  rw [(run_eq_ok ran).1]
  refine run_induction (P := fun ops => let reached := (fresh hardware address).course ops
    reached.neighbors.Sound ∧
      reached.neighbors.Paces reached.now ((fresh hardware address).chronicle ops))
    ran early ?_ ?_
  · exact ⟨NeighborCache.sound_empty, NeighborCache.paces_empty _⟩
  · rintro front op before now proceeds ⟨sound, paces⟩
    have room := few (front ++ [op]) before
    refine ⟨proceeds.sound sound, ?_⟩
    rw [chronicle_last] at room ⊢
    exact proceeds.observes.paces sound paces now room

/-- In a run that never awaits more than sixteen answers, two questions for one address are five
    seconds apart if nothing was heard from it in between. An address without a mapping that was not
    asked for in the last five seconds is asked for, once, by whatever is sent there. The clock shows
    what the ticks add up to. -/
theorem asked_apart (ran : (fresh hardware address).run ops = .ok after)
    (early : after.now.millis < 2 ^ 63)
    (few : ∀ front, front <+: ops → (awaited ((fresh hardware address).chronicle front)
      ((fresh hardware address).course front).now).encard ≤ 16) :
    let events := (fresh hardware address).chronicle ops
    (∀ front, front <+: ops →
      ((fresh hardware address).course front).now.millis = elapsed front) ∧
    (∀ earlier first between second later nextHop,
      events = earlier ++ .asked first nextHop :: between ++ .asked second nextHop :: later →
        (∀ event ∈ between, event.sender? ≠ some nextHop) →
          first.millis + 5000 ≤ second.millis) ∧
      ∀ nextHop, (∀ neighbor, after.neighbors.known.get? nextHop = some neighbor →
          neighbor.expiresAt ≤ after.now) →
        (∀ time, .asked time nextHop ∈ events → time.millis + 5000 ≤ after.now.millis) →
          ∀ datagram, ∃ frame asked, after.step (.send datagram nextHop) = .ok (.done, asked) ∧
            asked.frames = after.frames ++ [frame] ∧ Packet.read? frame =
              some (.broadcast, .arp (.request after.hardware after.address nextHop)) := by
  intro events
  obtain ⟨_, paces⟩ := run_paces ran early few
  refine ⟨fun front before => now_eq_elapsed ran early before, ?_, ?_⟩
  · intro earlier first between second later nextHop split silent
    exact paces.spaced _ second nextHop later split first ⟨earlier, between, rfl, silent⟩
  · intro nextHop unknown long datagram
    exact step_send_of_unknown (NeighborCache.hardwareOf?_eq_none_iff.mpr unknown)
      (paces.isSilent_eq_false early long) datagram

theorem asked_apart_unanswered :
    let address : Ipv4.Address := .ofOctets 10 0 0 1
    let neighbor : Ipv4.Address := .ofOctets 10 0 0 2
    let datagram (octet : UInt8) : Ipv4.Datagram :=
      { source := address, destination := neighbor, protocol := .udp, payload := [octet] }
    let ops : List Op :=
      [.send (datagram 1) neighbor, .tick (.ofSeconds 2), .send (datagram 2) neighbor,
        .tick (.ofSeconds 3), .send (datagram 3) neighbor, .tick (.ofSeconds 5)]
    let start := fresh ⟨2, 0, 0, 0, 0, 1⟩ address
    ∃ after, start.run ops = .ok after ∧ after.now.millis < 2 ^ 63 ∧
      (∀ front, front <+: ops →
        (awaited (start.chronicle front) (start.course front).now).encard ≤ 16) ∧
      start.chronicle ops = [.asked .zero neighbor, .asked (.ofSeconds 5) neighbor] ∧
      Instant.zero.millis + 5000 ≤ (Instant.ofSeconds 5).millis ∧
      ∃ frame asked, after.step (.send (datagram 4) neighbor) = .ok (.done, asked) ∧
        asked.frames = after.frames ++ [frame] ∧ Packet.read? frame =
          some (.broadcast, .arp (.request after.hardware after.address neighbor)) := by
  intro address neighbor datagram ops start
  have ran : start.run ops = .ok (start.course ops) := by
    refine exists_run start nofun fun given nextHop sends => ?_
    simp only [ops, List.mem_cons, Op.send.injEq, reduceCtorEq, false_or, or_false,
      List.not_mem_nil] at sends
    rcases sends with ⟨rfl, _⟩ | ⟨rfl, _⟩ | ⟨rfl, _⟩ <;> decide
  have early : (start.course ops).now.millis < 2 ^ 63 := by decide +kernel
  have chronicled : start.chronicle ops =
      [.asked .zero neighbor, .asked (.ofSeconds 5) neighbor] := by decide +kernel
  have few (front : List Op) (before : front <+: ops) :
      (awaited (start.chronicle front) (start.course front).now).encard ≤ 16 := by
    obtain ⟨back, split⟩ := before
    have one : awaited (start.chronicle front) (start.course front).now ⊆ {neighbor} := by
      rintro other ⟨time, since, _⟩
      have asked : .asked time other ∈ start.chronicle ops := by
        rw [← split, chronicle_append]
        exact List.mem_append_left _ since.mem
      rw [chronicled] at asked
      simp only [List.mem_cons, Event.asked.injEq, List.not_mem_nil, or_false] at asked
      rcases asked with ⟨_, rfl⟩ | ⟨_, rfl⟩ <;> rfl
    refine (Set.encard_le_encard one).trans ?_
    rw [Set.encard_singleton]
    decide
  obtain ⟨_, apart, asks⟩ := asked_apart ran early few
  refine ⟨_, ran, early, few, chronicled, ?_, asks neighbor ?_ ?_ (datagram 4)⟩
  · exact apart [] _ [] _ [] neighbor chronicled nofun
  · rw [show (start.course ops).neighbors.known.get? neighbor = none by decide +kernel]
    exact nofun
  · rw [chronicled]
    have now : (start.course ops).now = .ofSeconds 10 := by decide +kernel
    intro time asked
    simp only [List.mem_cons, Event.asked.injEq, List.not_mem_nil, or_false] at asked
    rw [now]
    rcases asked with ⟨rfl, _⟩ | ⟨rfl, _⟩ <;> decide

end Interface

end NetStack.Link
