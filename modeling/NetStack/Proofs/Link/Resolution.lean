import NetStack.Proofs.Link.Chronicle
import NetStack.Proofs.Link.Journey

namespace NetStack.Link

/-- The other addresses that were heard at a time or later. -/
def othersHeard (events : List Event) (address : Ipv4.Address) (time : Instant) :
    Set Ipv4.Address :=
  {other | other ≠ address ∧ ∃ later message,
    .heard later message ∈ events ∧ message.senderAddress = other ∧ time ≤ later}

theorem othersHeard_append (events new : List Event) (address : Ipv4.Address) (time : Instant) :
    (othersHeard events address time).encard ≤
      (othersHeard (events ++ new) address time).encard := by
  apply Set.encard_le_encard
  rintro other ⟨different, later, message, member, sender⟩
  exact ⟨different, later, message, List.mem_append_left _ member, sender⟩

namespace NeighborCache

/-- A cache believes what was told last, unless that has run out or given way to sixteen others. -/
structure Mirrors (cache : NeighborCache) (now : Instant) (events : List Event) : Prop where
  believed : ∀ address neighbor, cache.known.get? address = some neighbor →
    ∃ time message, SilentSince events (.heard time message) address ∧
      message.senderAddress = address ∧ neighbor = ⟨message.senderHardware, time + lifetime⟩
  kept : ∀ address time message, SilentSince events (.heard time message) address →
    message.senderAddress = address →
      cache.known.get? address = some ⟨message.senderHardware, time + lifetime⟩ ∨
        time + lifetime ≤ now ∨ 16 ≤ (othersHeard events address time).encard
  past : ∀ event ∈ events, event.time ≤ now

theorem mirrors_empty (now : Instant) : empty.Mirrors now [] where
  believed := nofun
  kept _ _ _ since := absurd since (not_silentSince_nil _ _)
  past := nofun

theorem millis_add_lifetime {time : Instant} (early : time.millis < 2 ^ 63) :
    (time + lifetime).millis = time.millis + 30000 := by
  have lifetime : NeighborCache.lifetime.millis = 30000 := rfl
  rw [Instant.millis_add, lifetime]
  unfold maxMillis
  omega

variable {before after : NeighborCache} {now later : Instant} {events new : List Event}

/-- When a mapping is displaced, its fifteen companions and the newcomer were heard no earlier. -/
theorem Displaced.sixteen_heard {address : Ipv4.Address} {message : Arp.Message} {time : Instant}
    {hardware : Ethernet.Address} (displaced : before.Displaced address message.senderAddress)
    (mirrors : before.Mirrors now events) (sound : before.Sound) (early : now.millis < 2 ^ 63)
    (stored : before.known.get? address = some ⟨hardware, time + lifetime⟩) (le : time ≤ now) :
    16 ≤ (othersHeard (events ++ [.heard now message]) address time).encard := by
  obtain ⟨neighbor, found, first⟩ := displaced.first
  cases stored.symm.trans found
  have newcomer : message.senderAddress ∈
      othersHeard (events ++ [.heard now message]) address time := by
    refine ⟨?_, now, message, by simp, rfl, le⟩
    rintro rfl
    exact displaced.absent (List.mem_map_of_mem (SlotTable.mem_of_get? stored))
  have companions : ∀ other ∈ before.known.keys, other ∈ insert address
      (othersHeard (events ++ [.heard now message]) address time \ {message.senderAddress}) := by
    intro other known
    by_cases same : other = address
    · exact .inl same
    · refine .inr ⟨?_, fun alike => displaced.absent (alike ▸ known)⟩
      -- it would run out no earlier, so it was heard no earlier
      obtain ⟨companion, entered⟩ := SlotTable.exists_mem_of_key known
      have ranks : time + lifetime ≤ companion.expiresAt := first _ entered
      obtain ⟨told, said, since, sender, rfl⟩ := mirrors.believed other companion
        ((SlotTable.get?_eq_some_iff sound.known.distinct).mpr entered)
      refine ⟨same, told, said, List.mem_append_left _ since.mem, sender, ?_⟩
      have toldBy : told.millis ≤ now.millis := mirrors.past _ since.mem
      have timeBy : time.millis ≤ now.millis := le
      rw [Instant.le_iff, millis_add_lifetime (by omega), millis_add_lifetime (by omega)] at ranks
      rw [Instant.le_iff]
      omega
  have counted := SlotTable.count_le_encard sound.known.distinct companions
  rw [displaced.full] at counted
  refine counted.trans ((Set.encard_insert_le ..).trans ?_)
  rw [Set.encard_sdiff_singleton_add_one newcomer]

section Observes

variable (observes : before.Observes now new after later) (sound : before.Sound)
  (mirrored : before.Mirrors now events)
include observes sound mirrored

theorem Observes.believed {address : Ipv4.Address} {neighbor : Neighbor}
    (found : after.known.get? address = some neighbor) :
    ∃ time message, SilentSince (events ++ new) (.heard time message) address ∧
      message.senderAddress = address ∧ neighbor = ⟨message.senderHardware, time + lifetime⟩ := by
  cases observes with
  | nothing =>
    rw [List.append_nil]
    exact mirrored.believed address neighbor found
  | asked =>
    obtain ⟨time, message, since, told⟩ := mirrored.believed address neighbor found
    exact ⟨time, message, silentSince_append_singleton.mpr (.inr ⟨since, nofun⟩), told⟩
  | heard message =>
    by_cases same : address = message.senderAddress
    · subst same
      cases found.symm.trans (known_fill_self sound message.senderHardware)
      exact ⟨now, message, silentSince_append_singleton.mpr (.inl rfl), rfl, rfl⟩
    · have stored : before.known.get? address = some neighbor := by
        rcases known_fill_other sound message.senderHardware now same with kept | ⟨gone, _⟩
        · exact kept.symm.trans found
        · cases gone.symm.trans found
      obtain ⟨time, told, since, sender⟩ := mirrored.believed address neighbor stored
      have other : (Event.heard now message).sender? ≠ some address :=
        fun sends => same (Option.some.inj sends).symm
      exact ⟨time, told, silentSince_append_singleton.mpr (.inr ⟨since, other⟩), sender⟩
  | passed =>
    rw [known_expire sound] at found
    rw [List.append_nil]
    exact mirrored.believed address neighbor (Option.filter_eq_some_iff.mp found).1

theorem Observes.kept (early : later.millis < 2 ^ 63) {address : Ipv4.Address} {time : Instant}
    {message : Arp.Message} (since : SilentSince (events ++ new) (.heard time message) address)
    (sender : message.senderAddress = address) :
    after.known.get? address = some ⟨message.senderHardware, time + lifetime⟩ ∨
      time + lifetime ≤ later ∨ 16 ≤ (othersHeard (events ++ new) address time).encard := by
  have more := othersHeard_append events new address time
  cases observes with
  | nothing =>
    rw [List.append_nil] at since ⊢
    exact mirrored.kept address time message since sender
  | asked =>
    obtain ⟨since, _⟩ := (silentSince_append_singleton.mp since).resolve_left nofun
    rcases mirrored.kept address time message since sender with stored | expired | displaced
    · exact .inl stored
    · exact .inr (.inl expired)
    · exact .inr (.inr (displaced.trans more))
  | heard recent =>
    rcases silentSince_append_singleton.mp since with same | ⟨since, other⟩
    · cases same
      exact .inl (sender ▸ known_fill_self sound message.senderHardware)
    · have different : address ≠ recent.senderAddress :=
        fun same => other (congrArg some same.symm)
      rcases mirrored.kept address time message since sender with stored | expired | displaced
      · rcases known_fill_other sound recent.senderHardware now different with kept | ⟨_, displaced⟩
        · exact .inl (kept.trans stored)
        · have le : time ≤ now := mirrored.past _ since.mem
          exact .inr (.inr (displaced.sixteen_heard mirrored sound early stored le))
      · exact .inr (.inl expired)
      · exact .inr (.inr (displaced.trans more))
  | passed le =>
    rw [List.append_nil] at since ⊢
    rcases mirrored.kept address time message since sender with stored | expired | displaced
    · rw [known_expire sound, stored]
      by_cases expired : time + lifetime ≤ later
      · exact .inr (.inl expired)
      · left
        simp [Option.filter, expired]
    · right; left
      rw [Instant.le_iff] at expired le ⊢
      exact expired.trans le
    · exact .inr (.inr displaced)

theorem Observes.mirrors (early : later.millis < 2 ^ 63) :
    after.Mirrors later (events ++ new) where
  believed _ _ found := observes.believed sound mirrored found
  kept _ _ _ since sender := observes.kept sound mirrored early since sender
  past := observes.past mirrored.past

end Observes

section Mirrors

variable {cache : NeighborCache} {address : Ipv4.Address} {hardware : Ethernet.Address}
  (mirrors : cache.Mirrors now events) (early : now.millis < 2 ^ 63)
include mirrors early

theorem Mirrors.exists_heard (known : cache.hardwareOf? address now = some hardware) :
    ∃ time message, SilentSince events (.heard time message) address ∧
      message.senderAddress = address ∧ message.senderHardware = hardware ∧
        now.millis < time.millis + 30000 := by
  obtain ⟨neighbor, found, fresh, rfl⟩ := hardwareOf?_eq_some_iff.mp known
  obtain ⟨time, message, since, sender, rfl⟩ := mirrors.believed address neighbor found
  have le : time.millis ≤ now.millis := mirrors.past _ since.mem
  rw [Instant.lt_iff, millis_add_lifetime (by omega)] at fresh
  exact ⟨time, message, since, sender, rfl, fresh⟩

theorem Mirrors.hardwareOf?_eq_some {time : Instant} {message : Arp.Message}
    (since : SilentSince events (.heard time message) address)
    (sender : message.senderAddress = address) (fresh : now.millis < time.millis + 30000)
    (few : (othersHeard events address time).encard ≤ 15) :
    cache.hardwareOf? address now = some message.senderHardware := by
  have le : time.millis ≤ now.millis := mirrors.past _ since.mem
  have lasts : (time + lifetime).millis = time.millis + 30000 := millis_add_lifetime (by omega)
  rcases mirrors.kept address time message since sender with stored | expired | displaced
  · refine hardwareOf?_eq_some_iff.mpr ⟨_, stored, ?_, rfl⟩
    rw [Instant.lt_iff, lasts]
    exact fresh
  · rw [Instant.le_iff, lasts] at expired
    omega
  · exact absurd (displaced.trans few) (by decide)

end Mirrors

theorem fill_displaces {cache : NeighborCache} {address : Ipv4.Address} (sound : cache.Sound)
    (absent : address ∉ cache.known.keys) (full : cache.known.count = 16)
    (hardware : Ethernet.Address) (now : Instant) :
    ∃ gone kept, cache.known.entries.Perm (gone :: kept) ∧
      (cache.fill address hardware now).known.entries.Perm
        ((address, ⟨hardware, now + lifetime⟩) :: kept) ∧
      ∀ entry ∈ kept, gone.2.expiresAt ≤ entry.2.expiresAt := by
  rcases SlotTable.put_cases sound.known (by decide) (·.expiresAt.millis) address
    ⟨hardware, now + lifetime⟩ with ⟨room, _⟩ | ⟨_, _, gone, member, least, same⟩
  · rcases room with known | free
    · exact absurd known absent
    · exact absurd full (Nat.ne_of_lt free)
  · refine ⟨gone, _, SlotTable.perm_others sound.known.distinct member, same, ?_⟩
    exact fun entry here => least entry (SlotTable.mem_others.mp here).1

end NeighborCache

namespace Interface

theorem step_send_of_known {interface : Interface} {nextHop : Ipv4.Address}
    {hardware : Ethernet.Address}
    (known : interface.neighbors.hardwareOf? nextHop interface.now = some hardware)
    (datagram : Ipv4.Datagram) :
    (datagram.payload.length ≤ 65515 → ∃ frame, interface.step (.send datagram nextHop) =
        .ok (.done, { interface with frames := interface.frames ++ [frame] }) ∧
          Packet.read? frame = some (hardware, .ipv4 datagram)) ∧
      (65515 < datagram.payload.length →
        interface.step (.send datagram nextHop) = .error ⟨datagram.length⟩) := by
  have sends : interface.send datagram nextHop = interface.emit (.ipv4 datagram) hardware := by
    unfold send
    rw [NeighborCache.lookup_eq_found_iff.mpr known]
  have length : datagram.length = 20 + datagram.payload.length := rfl
  have most : Ipv4.Datagram.maxLength = 65535 := rfl
  unfold step
  dsimp only
  rw [sends]
  constructor
  · intro short
    have fits : (Packet.ipv4 datagram).Fits := by
      show datagram.length ≤ Ipv4.Datagram.maxLength
      omega
    obtain ⟨after, emitted⟩ := interface.exists_emit _ fits hardware
    obtain ⟨frame, rfl, reads⟩ := emit_eq_ok emitted
    rw [emitted]
    exact ⟨frame, rfl, reads⟩
  · intro long
    have refused : (Packet.ipv4 datagram).toBytes interface.policy = .error ⟨datagram.length⟩ :=
      if_neg (by omega)
    unfold emit Packet.toFrame
    rw [refused]
    rfl

variable {hardware : Ethernet.Address} {address : Ipv4.Address} {ops : List Op} {after : Interface}

theorem run_mirrors (ran : (fresh hardware address).run ops = .ok after)
    (early : after.now.millis < 2 ^ 63) :
    after.neighbors.Sound ∧
      after.neighbors.Mirrors after.now ((fresh hardware address).chronicle ops) := by
  rw [(run_eq_ok ran).1]
  refine run_induction (P := fun ops => let reached := (fresh hardware address).course ops
    reached.neighbors.Sound ∧
      reached.neighbors.Mirrors reached.now ((fresh hardware address).chronicle ops))
    ran early ?_ ?_
  · exact ⟨NeighborCache.sound_empty, NeighborCache.mirrors_empty _⟩
  · rintro front op _ now proceeds ⟨sound, mirrors⟩
    refine ⟨proceeds.sound sound, ?_⟩
    rw [chronicle_last]
    exact proceeds.observes.mirrors sound mirrors now

/-- Every datagram goes to the hardware address that its next hop told last, less than thirty
    seconds before. As long as that is so and no sixteen others were heard since, a datagram for the
    next hop leaves at once. The cache never holds more than sixteen mappings nor two for one
    address, and a new one that finds it full takes the place of one that would run out first. The
    clock shows what the ticks add up to. -/
theorem sent_to_last_heard (ran : (fresh hardware address).run ops = .ok after)
    (early : after.now.millis < 2 ^ 63) :
    let start := fresh hardware address
    (∀ moment, start.run (ops.take moment) = .ok (start.course (ops.take moment))) ∧
      (∀ moment, (start.course (ops.take moment)).now.millis = elapsed (ops.take moment)) ∧
      (∃ journeys, start.Accounts ops journeys ∧
        ∀ journey ∈ journeys, ∀ step destination, journey.left = some (step, .sent destination) →
          let soFar := ops.take (step + 1)
          ∃ time message,
            SilentSince (start.chronicle soFar) (.heard time message) journey.nextHop ∧
            message.senderAddress = journey.nextHop ∧ message.senderHardware = destination ∧
              (start.course soFar).now.millis < time.millis + 30000) ∧
      (∀ nextHop time message, SilentSince (start.chronicle ops) (.heard time message) nextHop →
        message.senderAddress = nextHop → after.now.millis < time.millis + 30000 →
          (othersHeard (start.chronicle ops) nextHop time).encard ≤ 15 → ∀ datagram,
            (datagram.payload.length ≤ 65515 → ∃ frame,
              after.step (.send datagram nextHop) =
                .ok (.done, { after with frames := after.frames ++ [frame] }) ∧
              Packet.read? frame = some (message.senderHardware, .ipv4 datagram)) ∧
            (65515 < datagram.payload.length →
              after.step (.send datagram nextHop) = .error ⟨datagram.length⟩)) ∧
      after.neighbors.known.count ≤ 16 ∧ after.neighbors.known.keys.Nodup ∧
      ∀ bytes message reply later, after.heeds? bytes = some message →
        after.step (.receive bytes) = .ok (reply, later) →
          message.senderAddress ∉ after.neighbors.known.keys → after.neighbors.known.count = 16 →
            ∃ gone kept, after.neighbors.known.entries.Perm (gone :: kept) ∧
              later.neighbors.known.entries.Perm ((message.senderAddress,
                ⟨message.senderHardware, after.now + NeighborCache.lifetime⟩) :: kept) ∧
              ∀ entry ∈ kept, gone.2.expiresAt ≤ entry.2.expiresAt := by
  intro start
  have reached := run_take ran
  obtain ⟨sound, mirrors⟩ := run_mirrors ran early
  obtain ⟨_, journeys, accounts⟩ := run_accounts ran early
  refine ⟨reached, fun moment => now_eq_elapsed ran early (List.take_prefix moment ops),
    ⟨journeys, accounts, ?_⟩, ?_, sound.known.bounded, sound.known.distinct, ?_⟩
  · intro journey member step destination left soFar
    have known := accounts.directed journey member step destination left
    have soon : (start.course soFar).now.millis < 2 ^ 63 := by
      have le := start.now_le_of_isPrefix (List.take_prefix (step + 1) ops)
      rw [← (run_eq_ok ran).1] at le
      exact Nat.lt_of_le_of_lt le early
    exact (run_mirrors (reached (step + 1)) soon).2.exists_heard soon known
  · intro nextHop time message since sender fresh few datagram
    exact step_send_of_known (mirrors.hardwareOf?_eq_some early since sender fresh few) datagram
  · intro bytes message reply later heeds stepped absent full
    have proceeds := step_proceeds stepped
    rw [next_of_ok stepped] at proceeds
    generalize after.putOut _ = frames at proceeds
    cases proceeds with
    | ignored ignores => cases ignores.symm.trans heeds
    | heard again =>
      cases heeds.symm.trans again
      exact NeighborCache.fill_displaces sound absent full _ _

/-- A neighbor that tells another hardware address is sent to there from then on. -/
theorem sent_to_last_heard_moved :
    let hardware : Ethernet.Address := ⟨2, 0, 0, 0, 0, 1⟩
    let address : Ipv4.Address := .ofOctets 10 0 0 1
    let neighbor : Ipv4.Address := .ofOctets 10 0 0 2
    let told (octet : UInt8) : Arp.Message :=
      (Arp.Message.request hardware address neighbor).replyTo ⟨2, 0, 0, 0, 0, octet⟩
    let frame (octet : UInt8) : Ethernet.Frame :=
      { destination := hardware, source := ⟨2, 0, 0, 0, 0, octet⟩, type := .arp,
        payload := (told octet).toBytes }
    let ops : List Op :=
      [.receive (frame 2).toBytes, .tick (.ofSeconds 10), .receive (frame 3).toBytes,
        .tick (.ofSeconds 29)]
    let datagram : Ipv4.Datagram :=
      { source := address, destination := neighbor, protocol := .udp, payload := [1, 2, 3] }
    let start := fresh hardware address
    ∃ after, start.run ops = .ok after ∧ after.now.millis < 2 ^ 63 ∧
      start.chronicle ops = [.heard .zero (told 2), .heard (.ofSeconds 10) (told 3)] ∧
      after.neighbors.known.keys = [neighbor] ∧ after.neighbors.known.keys.Nodup ∧
      ∃ sent, after.step (.send datagram neighbor) =
          .ok (.done, { after with frames := after.frames ++ [sent] }) ∧
        Packet.read? sent = some (⟨2, 0, 0, 0, 0, 3⟩, .ipv4 datagram) := by
  intro hardware address neighbor told frame ops datagram start
  have ran : start.run ops = .ok (start.course ops) := exists_run start nofun (by simp [ops])
  have early : (start.course ops).now.millis < 2 ^ 63 := by decide +kernel
  have chronicled : start.chronicle ops =
      [.heard .zero (told 2), .heard (.ofSeconds 10) (told 3)] := by decide +kernel
  have since : SilentSince (start.chronicle ops) (.heard (.ofSeconds 10) (told 3)) neighbor :=
    ⟨[.heard .zero (told 2)], [], chronicled, nofun⟩
  have alone : othersHeard (start.chronicle ops) neighbor (.ofSeconds 10) = ∅ := by
    refine Set.eq_empty_of_forall_notMem ?_
    rintro other ⟨different, time, message, member, rfl, _⟩
    rw [chronicled] at member
    simp only [List.mem_cons, Event.heard.injEq, List.not_mem_nil, or_false] at member
    rcases member with ⟨_, rfl⟩ | ⟨_, rfl⟩ <;> exact different rfl
  have few : (othersHeard (start.chronicle ops) neighbor (.ofSeconds 10)).encard ≤ 15 := by
    rw [alone, Set.encard_empty]
    exact zero_le
  obtain ⟨_, _, _, leaves, _, distinct, _⟩ := sent_to_last_heard ran early
  obtain ⟨atOnce, _⟩ := leaves neighbor _ _ since rfl (by decide +kernel) few datagram
  exact ⟨_, ran, early, chronicled, by decide +kernel, distinct, atOnce (by decide)⟩

end Interface

end NetStack.Link
