import MqttClient.Proofs.Delivery.Ranked
import MqttClient.Proofs.Delivery.Step
import Mathlib.Tactic.Common

/-!
# Durability

As long as a courier keeps its packets, its archive holds exactly the packets in flight, as they
were last sent and in their order. So a courier that begins on the archive of an earlier one goes on
with the packets that were in flight there.
-/

namespace MqttClient.Courier
variable {σ : Type} {V : StoreView σ} {start : Bytes} {v : Version}

/-- Whether the packets in flight are given ones, under identifiers that are taken. The messages of
the queue are such that wait for an acknowledgment once they are sent. -/
structure Mirrors (c : Courier σ) (ps : List (Nat × Packet)) : Prop where
  window : c.window.toList.map Inflight.packet = ps.map Prod.snd
  taken : ∀ q ∈ ps, ∀ id, q.2.packetId? = some id → c.ids.contains id = true
  queue : ∀ m ∈ c.queue.toList, m.isAcknowledged = true

/-- Whether the archive of a courier holds given packets at places below `n`, which are those in
flight once they were taken up. -/
structure Tracks (V : StoreView σ) (start : Bytes) (v : Version) (ps : List (Nat × Packet))
    (n : Nat) (c : Courier σ) : Prop where
  ranks : c.archive.Ranks V start v ps n
  mirrors : c.archive.isActive = true → c.restored = true → c.Mirrors ps
  idle : c.archive.isActive = true → c.restored = false → c.IsIdle ∧ n < 2 ^ 64

variable {c c' : Courier σ} {ps : List (Nat × Packet)} {n : Nat} {now : Instant}

/-- An archive that is not active says nothing about the packets in flight. -/
lemma Tracks.of_inactive (h : c.archive.Ranks V start v ps n)
    (inactive : c.archive.isActive = false) : c.Tracks V start v ps n :=
  ⟨h, fun active => absurd active (by rw [inactive]; nofun),
    fun active => absurd active (by rw [inactive]; nofun)⟩

/-- Once packets were taken up, an archive tracks those in flight if they are mirrored. -/
lemma Tracks.of_restored (h : c.archive.Ranks V start v ps n) (restored : c.restored = true)
    (mirrors : c.archive.isActive = true → c.Mirrors ps) : c.Tracks V start v ps n :=
  ⟨h, fun active _ => mirrors active, fun _ fresh => absurd restored (by rw [fresh]; nofun)⟩

/-- A packet in flight stands at its place among the packets. -/
lemma Mirrors.split {before after : List Inflight} {e : Inflight} (h : c.Mirrors ps)
    (split : c.window.toList = before ++ e :: after) :
    ∃ left k right, ps = left ++ (k, e.packet) :: right ∧
      before.map Inflight.packet = left.map Prod.snd ∧
      after.map Inflight.packet = right.map Prod.snd := by
  have window := h.window
  rw [split, List.map_append, List.map_cons, eq_comm, List.map_eq_append_iff] at window
  obtain ⟨left, rest, rfl, hleft, hrest⟩ := window
  rw [List.map_eq_cons_iff] at hrest
  obtain ⟨⟨k, p⟩, right, rfl, rfl, hright⟩ := hrest
  exact ⟨left, k, right, rfl, hleft.symm, hright.symm⟩

/-- A packet in flight belongs in a slot, and no other one is under its identifier. -/
lemma Mirrors.located {recs : Slots} {before after : List Inflight} {e : Inflight}
    (h : c.Mirrors ps) (order : recs.Ranks v ps n)
    (split : c.window.toList = before ++ e :: after) :
    ∃ left k right kind, ps = left ++ (k, e.packet) :: right ∧
      before.map Inflight.packet = left.map Prod.snd ∧
      after.map Inflight.packet = right.map Prod.snd ∧
      Record.Fits v kind e.packetId e.packet ∧
      ∀ q ∈ left ++ right, q.2.packetId? ≠ some e.packetId := by
  obtain ⟨left, k, right, rfl, hleft, hright⟩ := h.split split
  obtain ⟨kind, id, fits, -⟩ := order.placed (k, e.packet) (by simp)
  obtain rfl := Inflight.packetId_of_packet fits.packetId?
  exact ⟨left, k, right, kind, rfl, hleft, hright, fits, order.others fits.packetId?⟩

/-- No packet in flight has an identifier that is not taken. -/
lemma Mirrors.free {id : UInt16} (h : c.Mirrors ps) (unused : c.ids.contains id = false) :
    ∀ q ∈ ps, q.2.packetId? ≠ some id := by
  intro q mem same
  have taken := h.taken q mem id same
  rw [unused] at taken
  cases taken

/-- A message that enters the window comes behind the others. -/
lemma Mirrors.send {m : Publish} {queue : Fifo Publish} {id : UInt16} {ids : IdPool}
    (h : c.Mirrors ps) (free : c.ids.allocate? = some (id, ids))
    (first : c.queue.pop? = some (m, queue)) (n : Nat) (now : Instant) (archive : Archive σ) :
    Mirrors { c with
      queue
      ids
      archive
      window := c.window.push ⟨.publish { m with packetId := id }, now⟩ }
      (ps ++ [(n, .publish { m with packetId := id })]) := by
  obtain ⟨-, contains⟩ := IdPool.allocate?_eq_some free
  refine ⟨?_, ?_, ?_⟩
  · simp only [Fifo.toList_push, List.map_append, h.window, List.map_cons, List.map_nil]
  · simp only [List.forall_mem_append, List.forall_mem_singleton]
    refine ⟨fun q mem i hi => (contains i).mpr (.inr (h.taken q mem i hi)), fun i hi => ?_⟩
    obtain ⟨-, given⟩ := Option.ite_none_left_eq_some.mp hi
    exact (contains i).mpr (.inl (Option.some_inj.mp given).symm)
  · intro m' mem
    apply h.queue m'
    rw [Fifo.toList_of_pop? first]
    exact List.mem_cons_of_mem _ mem

/-- A packet that is done with leaves the window with its identifier. -/
lemma Mirrors.complete {left right : List (Nat × Packet)} {k : Nat} {id : UInt16}
    {before after : List Inflight} {p : Packet} (h : c.Mirrors (left ++ (k, p) :: right))
    (others : ∀ q ∈ left ++ right, q.2.packetId? ≠ some id)
    (hleft : before.map Inflight.packet = left.map Prod.snd)
    (hright : after.map Inflight.packet = right.map Prod.snd) (archive : Archive σ) :
    Mirrors { c with window := .ofList (before ++ after), archive, ids := c.ids.release id }
      (left ++ right) := by
  refine ⟨?_, ?_, h.queue⟩
  · simp only [Fifo.toList_ofList, List.map_append, hleft, hright]
  · intro q mem i hi
    refine (IdPool.contains_release i).mpr ⟨fun same => others q mem (same ▸ hi), ?_⟩
    refine h.taken q ?_ i hi
    rw [List.mem_append] at mem ⊢
    exact mem.imp_right (List.mem_cons_of_mem _)

/-- What is no business of the archive leaves it as it is. -/
lemma Tracks.congr (h : c.Tracks V start v ps n) (archive : c'.archive = c.archive)
    (restored : c'.restored = c.restored)
    (mirrors : c.Mirrors ps → c'.Mirrors ps) (idle : c.IsIdle → c'.IsIdle) :
    c'.Tracks V start v ps n := by
  refine ⟨?_, ?_, ?_⟩
  · rw [archive]
    exact h.ranks
  · rw [archive, restored]
    exact fun active taken => mirrors (h.mirrors active taken)
  · rw [archive, restored]
    exact fun active fresh => (h.idle active fresh).imp_left idle

variable [RecordStore σ]

/-- An archive that is not active stays as it is. -/
lemma archive_of_step {es : List Event} (step : Step now c es c')
    (inactive : c.archive.isActive = false) : c'.archive = c.archive := by
  cases step with
  | restore fresh =>
    have read : c.archive.readAll = ([], c.archive) := by
      rw [Archive.readAll, Archive.attempt_of_not_active inactive]
      rfl
    rw [restore, fresh, read]
    rfl
  | send => exact Archive.save_of_not_active inactive _
  | release =>
    have saved := Archive.save_of_not_active inactive
    exact (Archive.drop_of_not_active (by rw [saved, inactive]) _).trans (saved _)
  | complete => exact Archive.drop_of_not_active inactive _
  | resend => exact Archive.save_of_not_active inactive _
  | clean => exact Archive.clear_of_not_active inactive
  | _ => rfl

/-- An archive that was given up stays as it is in every run. -/
lemma archive_of_run {es : List Event} (run : Run now c es c')
    (inactive : c.archive.isActive = false) : c'.archive = c.archive := by
  induction run with
  | refl => rfl
  | step first _ ih =>
    have same := archive_of_step first inactive
    exact (ih (same ▸ inactive)).trans same

section Active
variable (law : V.Lawful) (takes : Journal.TakesAll V start) (h : c.Tracks V start v ps n)
  (active : c.archive.isActive = true)
include law takes h active

/-- The packets that are taken up are those of the archive. -/
lemma tracks_restore (fresh : c.restored = false) (now : Instant) :
    (c.restore now).archive.isActive = true ∧ (c.restore now).Tracks V start v ps n := by
  obtain ⟨idle, room⟩ := h.idle active fresh
  obtain ⟨read, active', ranks⟩ := h.ranks.readAll law takes active (Nat.le_of_lt room)
  obtain ⟨recs, -, -, -, order⟩ := h.ranks
  have named : ∀ p ∈ c.archive.readAll.1, ∃ id, p.packetId? = some id ∧ id ≠ 0 := by
    intro p hp
    rw [read] at hp
    obtain ⟨q, hq, rfl⟩ := List.mem_map.mp hp
    obtain ⟨kind, id, fits, -⟩ := order.placed q hq
    exact ⟨id, fits.packetId?, fits.ne_zero⟩
  have apart : c.archive.readAll.1.Pairwise fun p q => p.packetId? ≠ q.packetId? := by
    rw [read]
    exact List.pairwise_map.mpr order.apart
  obtain ⟨window, contains⟩ := restore_of_idle idle fresh named apart now
  rw [← archive_restore fresh now] at active' ranks
  refine ⟨active', .of_restored ranks (restored_restore c now) fun _ => ⟨?_, ?_, ?_⟩⟩
  · rw [window, ← read, List.map_map]
    exact List.map_id _
  · intro q mem id hid
    rw [contains, read, ← hid]
    exact List.mem_map_of_mem (List.mem_map_of_mem mem)
  · rw [queue_restore, idle.queue]
    exact List.forall_mem_nil _

/-- A message that enters the window is kept behind the others. -/
lemma tracks_send {m : Publish} {queue : Fifo Publish} {id : UInt16} {ids : IdPool}
    (restored : c.restored = true) (free : c.ids.allocate? = some (id, ids))
    (first : c.queue.pop? = some (m, queue)) :
    ∃ ps' n', n' ≤ n + 1 ∧ Tracks V start v ps' n' { c with
      queue
      ids
      archive := c.archive.save (.publish { m with packetId := id })
      window := c.window.push ⟨.publish { m with packetId := id }, now⟩ } := by
  have mirrors := h.mirrors active restored
  have listed := Fifo.toList_of_pop? first
  obtain ⟨unused, -⟩ := IdPool.allocate?_eq_some free
  have acknowledged : m.isAcknowledged = true := mirrors.queue m (by rw [listed]; simp)
  have slot : Record.slot? (.publish { m with packetId := id }) = some (.message, id) :=
    if_pos acknowledged
  obtain ⟨ps', n', le, ranks, kept⟩ := h.ranks.save_new law takes active slot
    (Packet.isStable_publish acknowledged) (mirrors.free unused)
  refine ⟨ps', n', le, .of_restored ranks restored fun active' => ?_⟩
  obtain rfl := kept active'
  exact mirrors.send free first n now _

/-- A release is kept in the place of its message. -/
lemma tracks_release {id : UInt16} {before after : List Inflight} {e : Inflight}
    (restored : c.restored = true)
    (found : splitAt? id .pubrec c.window.toList = some (before, e, after)) :
    ∃ ps', Tracks V start v ps' n { c with
      window := .ofList (before ++ ⟨.pubrel { packetId := id }, now⟩ :: after)
      archive := (c.archive.save (.pubrel { packetId := id })).drop e.packet } := by
  have mirrors := h.mirrors active restored
  obtain ⟨window, rfl, awaits⟩ := splitAt?_eq_some found
  obtain ⟨recs, -, -, -, order⟩ := h.ranks
  obtain ⟨left, k, right, kind, rfl, hleft, hright, fits, -⟩ := mirrors.located order window
  obtain rfl := Inflight.message_of_awaits awaits fits.slot
  obtain ⟨ps', ranks, kept⟩ := h.ranks.release law takes active fits
  refine ⟨ps', .of_restored ranks restored fun active' => ?_⟩
  obtain rfl := kept active'
  refine ⟨?_, ?_, mirrors.queue⟩
  · simp only [Fifo.toList_ofList, List.map_append, List.map_cons, hleft, hright]
  · have taken := mirrors.taken
    simp only [List.forall_mem_append, List.forall_mem_cons] at taken ⊢
    exact ⟨taken.1, fun i hi => taken.2.1 i (fits.packetId?.trans hi), taken.2.2⟩

/-- A packet that is done with is kept no longer. -/
lemma tracks_complete {id : UInt16} {kind : AckKind} {before after : List Inflight} {e : Inflight}
    (restored : c.restored = true)
    (found : splitAt? id kind c.window.toList = some (before, e, after)) :
    ∃ ps', Tracks V start v ps' n { c with
      window := .ofList (before ++ after)
      archive := c.archive.drop e.packet
      ids := c.ids.release id } := by
  have mirrors := h.mirrors active restored
  obtain ⟨window, rfl, -⟩ := splitAt?_eq_some found
  obtain ⟨recs, -, -, -, order⟩ := h.ranks
  obtain ⟨left, k, right, slot, rfl, hleft, hright, fits, others⟩ := mirrors.located order window
  refine ⟨_, .of_restored (h.ranks.drop law takes active fits) restored fun _ => ?_⟩
  exact mirrors.complete others hleft hright _

/-- A packet that is sent again is kept as it is sent. -/
lemma tracks_resend {before after : List Inflight} {e : Inflight}
    (restored : c.restored = true) (window : c.window.toList = before ++ e :: after) :
    ∃ ps', Tracks V start v ps' n { c with
      window := .ofList (before ++ e.again now :: after)
      archive := c.archive.save (e.again now).packet } := by
  have mirrors := h.mirrors active restored
  obtain ⟨recs, -, -, -, order⟩ := h.ranks
  obtain ⟨left, k, right, kind, rfl, hleft, hright, fits, -⟩ := mirrors.located order window
  obtain ⟨ps', ranks, kept⟩ :=
    h.ranks.save_again law takes active fits (Inflight.fits_again fits now)
  refine ⟨ps', .of_restored ranks restored fun active' => ?_⟩
  obtain rfl := kept active'
  refine ⟨?_, ?_, mirrors.queue⟩
  · simp only [Fifo.toList_ofList, List.map_append, List.map_cons, hleft, hright]
  · have taken := mirrors.taken
    simp only [List.forall_mem_append, List.forall_mem_cons] at taken ⊢
    refine ⟨taken.1, fun i hi => taken.2.1 i ?_, taken.2.2⟩
    exact fits.packetId?.trans ((Inflight.fits_again fits now).packetId?.symm.trans hi)

end Active

/-- Behind a cleaning the archive holds nothing, as nothing is in flight. -/
lemma tracks_clean (law : V.Lawful) (takes : Journal.TakesAll V start)
    (h : c.Tracks V start v ps n) (active : c.archive.isActive = true) :
    c.cleanAll.Tracks V start v [] 0 :=
  .of_restored (h.ranks.clear law takes active) rfl fun _ => ⟨rfl, nofun, nofun⟩

/-- Every step keeps the packets in flight in the archive. Each message that enters the window uses
up one place at most. -/
theorem Tracks.step {es : List Event} (law : V.Lawful)
    (takes : Journal.TakesAll V start) (h : c.Tracks V start v ps n)
    (step : Step now c es c') :
    ∃ ps' n', n' ≤ n + (entries es).length ∧ c'.Tracks V start v ps' n' := by
  cases inactive : c.archive.isActive with
  | false =>
    -- what was given up is never touched again
    have same := archive_of_step step inactive
    exact ⟨ps, n, Nat.le_add_right n _, .of_inactive (same ▸ h.ranks) (same ▸ inactive)⟩
  | true =>
    have active := inactive
    cases step with
    | restore fresh =>
      exact ⟨ps, n, Nat.le_add_right .., (tracks_restore law takes h active fresh now).2⟩
    | send restored _ free first => exact tracks_send law takes h active restored free first
    | release restored found =>
      obtain ⟨ps', tracks⟩ := tracks_release law takes h active restored found
      exact ⟨ps', n, Nat.le_add_right .., tracks⟩
    | complete restored _ found =>
      obtain ⟨ps', tracks⟩ := tracks_complete law takes h active restored found
      exact ⟨ps', n, Nat.le_add_right .., tracks⟩
    | resend restored window =>
      obtain ⟨ps', tracks⟩ := tracks_resend law takes h active restored window
      exact ⟨ps', n, Nat.le_add_right .., tracks⟩
    | clean => exact ⟨[], 0, Nat.zero_le _, tracks_clean law takes h active⟩
    | pass | retain => exact ⟨ps, n, Nat.le_add_right .., h⟩
    | accept restored _ acknowledged =>
      refine ⟨ps, n, Nat.le_add_right .., .of_restored h.ranks restored fun active => ?_⟩
      have mirrors := h.mirrors active restored
      refine ⟨mirrors.window, mirrors.taken, ?_⟩
      simp only [Fifo.toList_push, List.forall_mem_append, List.forall_mem_singleton]
      exact ⟨mirrors.queue, acknowledged⟩
    | replay restored =>
      refine ⟨ps, n, Nat.le_add_right .., .of_restored h.ranks restored fun active => ?_⟩
      have mirrors := h.mirrors active restored
      refine ⟨?_, mirrors.taken, mirrors.queue⟩
      rw [← mirrors.window, Fifo.toList_ofList, Inflight.map_packet_stamp]
    | settle same =>
      refine ⟨ps, n, Nat.le_add_right .., h.congr rfl rfl (fun mirrors => ?_) fun idle => ?_⟩
      · exact ⟨same ▸ mirrors.window, mirrors.taken, mirrors.queue⟩
      · exact ⟨same.trans idle.window, idle.queue, idle.free⟩
    | take restored free =>
      refine ⟨ps, n, Nat.le_add_right .., .of_restored h.ranks restored fun active => ?_⟩
      have mirrors := h.mirrors active restored
      obtain ⟨-, contains⟩ := IdPool.allocate?_eq_some free
      exact ⟨mirrors.window, fun q mem i hi => (contains i).mpr (.inr (mirrors.taken q mem i hi)),
        mirrors.queue⟩
    | giveBack absent =>
      refine ⟨ps, n, Nat.le_add_right .., h.congr rfl rfl (fun mirrors => ?_) fun idle => ?_⟩
      · refine ⟨mirrors.window, fun q mem i hi => (IdPool.contains_release i).mpr ⟨?_, ?_⟩,
          mirrors.queue⟩
        -- an identifier of a packet in flight is not given back
        · rintro rfl
          have mem' : q.2 ∈ c.window.toList.map Inflight.packet := by
            rw [mirrors.window]
            exact List.mem_map_of_mem mem
          obtain ⟨e, he, packet⟩ := List.mem_map.mp mem'
          exact absent e he (Inflight.packetId_of_packet (packet ▸ hi))
        · exact mirrors.taken q mem i hi
      · exact ⟨idle.window, idle.queue,
          fun i => IdPool.contains_release_of_free (idle.free i) _⟩

/-- Every run of steps keeps the packets in flight in the archive. -/
theorem Tracks.steps {new sent : List Packet} (law : V.Lawful)
    (takes : Journal.TakesAll V start) (h : c.Tracks V start v ps n)
    (run : Steps now c new sent c') :
    ∃ ps' n', n' ≤ n + new.length ∧ c'.Tracks V start v ps' n' := by
  obtain ⟨es, run, rfl, -⟩ := run
  induction run generalizing ps n with
  | refl => exact ⟨ps, n, Nat.le_add_right .., h⟩
  | step first _ ih =>
    obtain ⟨ps', n', le, h'⟩ := h.step law takes first
    obtain ⟨ps'', n'', le', h''⟩ := ih h'
    exact ⟨ps'', n'', by rw [entries_append, List.length_append]; omega, h''⟩

end MqttClient.Courier
