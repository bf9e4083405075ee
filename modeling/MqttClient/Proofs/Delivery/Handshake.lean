import MqttClient.Proofs.Delivery.Archive
import MqttClient.Proofs.Delivery.Step
import MqttClient.Proofs.Session.Replay
import Mathlib.Tactic.Common

/-!
# Handshakes

Whatever is done with a courier, and whichever calls of its store fail meanwhile, all that is sent,
in flight or kept carries on a handshake that was there before, or that of a message that entered
the window.
-/

namespace MqttClient

/-- Whether a packet carries on the handshake of another one: it is that packet itself, or the
message once more, or the release of the message. -/
inductive Packet.Continues : Packet → Packet → Prop where
  | same {p} : Continues p p
  | again {m : Publish} : Continues (.publish { m with dup := true }) (.publish m)
  | release {m : Publish} : m.isAcknowledged = true →
      Continues (.pubrel { packetId := m.packetId }) (.publish m)

/-- A packet that is sent again carries its handshake on. -/
lemma Inflight.continues_again (e : Inflight) (now : Instant) :
    (e.again now).packet.Continues e.packet := by
  obtain ⟨packet, lastSent⟩ := e
  cases packet with
  | publish m => exact .again
  | _ => exact .same

/-- A packet that is sent again keeps its slot. -/
lemma Inflight.slot?_again (e : Inflight) (now : Instant) :
    Record.slot? (e.again now).packet = Record.slot? e.packet := by
  obtain ⟨packet, lastSent⟩ := e
  cases packet <;> rfl

/-- A packet that is sent again is read again as it is if it was before. -/
lemma Inflight.isStable_again {e : Inflight} {v : Version} {kind : Record.Kind} {id : UInt16}
    (slot : Record.slot? e.packet = some (kind, id)) (stable : e.packet.IsStable v)
    (now : Instant) : (e.again now).packet.IsStable v := by
  obtain ⟨packet, lastSent⟩ := e
  obtain ⟨m, rfl, acknowledged, -⟩ | ⟨a, rfl, -⟩ := Record.slot?_eq_some_iff.mp slot
  · exact Packet.isStable_publish acknowledged
  · exact stable

namespace Courier
variable {σ : Type} {V : StoreView σ} {start : Bytes} {v : Version} {recs : Slots}
  {c c' : Courier σ} {now : Instant} {es : List Event} {new sent : List Packet}

/-- Whether a packet is in flight or has a record. -/
def Has (recs : Slots) (c : Courier σ) (p : Packet) : Prop :=
  (∃ e ∈ c.window.toList, e.packet = p) ∨ ∃ kind id r, recs kind id = some r ∧ r.packet = p

/-- What holds of a courier and its store whatever happened before. -/
structure Regular (V : StoreView σ) (start : Bytes) (v : Version) (recs : Slots) (c : Courier σ) :
    Prop where
  holds : c.archive.Holds V start v recs
  apart : (c.window.toList.map Inflight.packetId).Nodup
  taken : ∀ id ∈ c.window.toList.map Inflight.packetId, c.ids.contains id = true
  stored : ∀ e ∈ c.window.toList, ∃ kind,
    Record.slot? e.packet = some (kind, e.packetId) ∧ e.packet.IsStable v
  queue : ∀ m ∈ c.queue.toList, m.isAcknowledged = true
  idle : c.restored = false → c.IsIdle

/-- Another packet under the same identifier may take the place of one in flight. It is the only new
one if it is the only one that was put. -/
lemma Regular.replace {before after : List Inflight} {e e' : Inflight} {archive : Archive σ}
    {recs' : Slots} (h : c.Regular V start v recs) (restored : c.restored = true)
    (split : c.window.toList = before ++ e :: after) (same : e'.packetId = e.packetId)
    (stored : ∃ kind, Record.slot? e'.packet = some (kind, e'.packetId) ∧ e'.packet.IsStable v)
    (holds : archive.Holds V start v recs')
    (put : ∀ kind id r, recs' kind id = some r → recs kind id = some r ∨ r.packet = e'.packet) :
    let c' := { c with window := .ofList (before ++ e' :: after), archive }
    c'.Regular V start v recs' ∧ ∀ p, c'.Has recs' p → p = e'.packet ∨ c.Has recs p := by
  intro c'
  have window : c'.window.toList = before ++ e' :: after := Fifo.toList_ofList _
  have ids : (before ++ e' :: after).map Inflight.packetId =
      c.window.toList.map Inflight.packetId := by
    rw [split, List.map_append, List.map_append, List.map_cons, List.map_cons, same]
  have others := h.stored
  rw [split] at others
  simp only [List.forall_mem_append, List.forall_mem_cons] at others
  refine ⟨⟨holds, ?_, ?_, ?_, h.queue, idle_of_restored restored⟩, ?_⟩
  · rw [window, ids]
    exact h.apart
  · rw [window, ids]
    exact h.taken
  · rw [window]
    simp only [List.forall_mem_append, List.forall_mem_cons]
    exact ⟨others.1, stored, others.2.2⟩
  · rintro p (⟨f, mem, rfl⟩ | ⟨kind, id, r, found, rfl⟩)
    · rw [window, List.mem_append, List.mem_cons] at mem
      obtain mem | rfl | mem := mem
      · exact .inr (.inl ⟨f, by rw [split]; simp [mem], rfl⟩)
      · exact .inl rfl
      · exact .inr (.inl ⟨f, by rw [split]; simp [mem], rfl⟩)
    · obtain found | same := put kind id r found
      · exact .inr (.inr ⟨kind, id, r, found, rfl⟩)
      · exact .inl same

variable [RecordStore σ]

section
variable (law : V.Lawful) (takes : Journal.TakesAll V start) (h : c.Regular V start v recs)
include law takes h

/-- What is taken up was there as records. -/
lemma regular_restore (fresh : c.restored = false) (now : Instant) :
    (c.restore now).Regular V start v recs ∧
      (c.restore now).window.toList.map Inflight.packet = c.archive.readAll.1 ∧
      ∀ p, (c.restore now).Has recs p → c.Has recs p := by
  have idle := h.idle fresh
  obtain ⟨holds, read⟩ := h.holds.readAll law takes
  obtain ⟨s, -, -, keeps⟩ := h.holds.store
  have records : ∀ p ∈ c.archive.readAll.1, ∃ kind id r, recs kind id = some r ∧ r.packet = p := by
    obtain none | ⟨rs, listed, all⟩ := read
    · rw [none]
      exact List.forall_mem_nil _
    · intro p mem
      rw [all] at mem
      obtain ⟨⟨r, hr, packet⟩, -⟩ := Journal.mem_replay.mp mem
      obtain ⟨kind, id, found⟩ := (listed.mem_iff r).mp hr
      exact ⟨kind, id, r, found, packet⟩
  have apart : c.archive.readAll.1.Pairwise fun p q => p.packetId? ≠ q.packetId? := by
    obtain none | ⟨rs, listed, all⟩ := read
    · rw [none]
      exact .nil
    · rw [all]
      exact Journal.replay_apart listed keeps.fits
  have fits : ∀ p ∈ c.archive.readAll.1, ∃ kind id, Record.Fits v kind id p := by
    intro p mem
    obtain ⟨kind, id, r, found, rfl⟩ := records p mem
    exact ⟨kind, id, keeps.fits found⟩
  have named : ∀ p ∈ c.archive.readAll.1, ∃ id, p.packetId? = some id ∧ id ≠ 0 := by
    intro p mem
    obtain ⟨kind, id, fits⟩ := fits p mem
    exact ⟨id, fits.packetId?, fits.ne_zero⟩
  obtain ⟨window, contains⟩ := restore_of_idle idle fresh named apart now
  -- each packet that was read takes its identifier, so they all come into the window
  refine ⟨⟨?_, ?_, ?_, ?_, ?_, fun again => ?_⟩, ?_, ?_⟩
  · rwa [archive_restore fresh]
  · rw [window, List.map_map, List.Nodup, List.pairwise_map]
    refine apart.imp_of_mem fun {p q} hp hq ne same => ?_
    obtain ⟨id, hid, -⟩ := named p hp
    obtain ⟨id', hid', -⟩ := named q hq
    have left : (⟨p, now⟩ : Inflight).packetId = id := Inflight.packetId_of_packet hid
    have right : (⟨q, now⟩ : Inflight).packetId = id' := Inflight.packetId_of_packet hid'
    refine ne (hid.trans (Eq.trans ?_ hid'.symm))
    rw [← left, ← right]
    exact congrArg some same
  · rw [window, List.map_map]
    intro id mem
    obtain ⟨p, hp, rfl⟩ := List.mem_map.mp mem
    obtain ⟨id, hid, -⟩ := named p hp
    have same : (⟨p, now⟩ : Inflight).packetId = id := Inflight.packetId_of_packet hid
    rw [contains, Function.comp_apply, same, ← hid]
    exact List.mem_map_of_mem hp
  · rw [window]
    intro e mem
    obtain ⟨p, hp, rfl⟩ := List.mem_map.mp mem
    obtain ⟨kind, id, fits⟩ := fits p hp
    refine ⟨kind, ?_, fits.stable⟩
    rw [Inflight.packetId_of_slot fits.slot, fits.slot]
  · rw [queue_restore, idle.queue]
    exact List.forall_mem_nil _
  · rw [restored_restore] at again
    cases again
  · rw [window, List.map_map]
    exact List.map_id _
  · rintro p (⟨e, mem, rfl⟩ | kept)
    · rw [window] at mem
      obtain ⟨p, hp, rfl⟩ := List.mem_map.mp mem
      exact .inr (records p hp)
    · exact .inr kept

/-- A message that enters the window is the only new one. -/
lemma regular_send {m : Publish} {queue : Fifo Publish} {id : UInt16} {ids : IdPool}
    (restored : c.restored = true) (free : c.ids.allocate? = some (id, ids))
    (first : c.queue.pop? = some (m, queue)) (now : Instant) :
    let packet : Packet := .publish { m with packetId := id }
    let c' := { c with
      queue
      ids
      archive := c.archive.save packet
      window := c.window.push ⟨packet, now⟩ }
    ∃ recs', c'.Regular V start v recs' ∧
      (recs' = recs ∨ ∃ seq, recs' = recs.set .message id (some ⟨seq, packet⟩)) ∧
      ∀ p, c'.Has recs' p → p = packet ∨ c.Has recs p := by
  intro packet c'
  have listed := Fifo.toList_of_pop? first
  obtain ⟨unused, contains⟩ := IdPool.allocate?_eq_some free
  have acknowledged : m.isAcknowledged = true := h.queue m (by rw [listed]; simp)
  have slot : Record.slot? packet = some (.message, id) := if_pos acknowledged
  have given : (⟨packet, now⟩ : Inflight).packetId = id := Inflight.packetId_of_slot slot
  obtain ⟨recs', holds, records⟩ :=
    h.holds.save law takes slot (Packet.isStable_publish acknowledged)
  have window : c'.window.toList = c.window.toList ++ [⟨packet, now⟩] := Fifo.toList_push ..
  refine ⟨recs', ⟨holds, ?_, ?_, ?_, ?_, idle_of_restored restored⟩, records, ?_⟩
  · -- the identifier was free, so no packet in flight has it
    rw [window, List.map_append, List.map_singleton, List.nodup_append, given]
    refine ⟨h.apart, List.nodup_singleton id, fun i mem j hj => ?_⟩
    rw [List.mem_singleton] at hj
    rintro rfl
    have used := h.taken i mem
    rw [hj, unused] at used
    cases used
  · rw [window, List.map_append, List.map_singleton, given]
    intro i mem
    rw [List.mem_append, List.mem_singleton] at mem
    obtain mem | rfl := mem
    · exact (contains i).mpr (.inr (h.taken i mem))
    · exact (contains i).mpr (.inl rfl)
  · rw [window]
    simp only [List.forall_mem_append, List.forall_mem_singleton]
    exact ⟨h.stored, .message, by rw [given, slot], Packet.isStable_publish acknowledged⟩
  · intro m' mem
    exact h.queue m' (by rw [listed]; exact List.mem_cons_of_mem _ mem)
  · rintro p (⟨e, mem, rfl⟩ | ⟨kind, i, r, found, rfl⟩)
    · rw [window, List.mem_append, List.mem_singleton] at mem
      obtain mem | rfl := mem
      · exact .inr (.inl ⟨e, mem, rfl⟩)
      · exact .inl rfl
    · obtain found | same := Slots.of_set records found
      · exact .inr (.inr ⟨kind, i, r, found, rfl⟩)
      · exact .inl same

/-- A release carries on the handshake of its message. -/
lemma regular_release {id : UInt16} {before after : List Inflight} {e : Inflight}
    (restored : c.restored = true)
    (found : splitAt? id .pubrec c.window.toList = some (before, e, after)) (now : Instant) :
    let release : Packet := .pubrel { packetId := id }
    let c' := { c with
      window := .ofList (before ++ Inflight.mk release now :: after)
      archive := (c.archive.save release).drop e.packet }
    c.Has recs e.packet ∧ release.Continues e.packet ∧ ∃ recs', c'.Regular V start v recs' ∧
      ∀ p, c'.Has recs' p → p = release ∨ c.Has recs p := by
  intro release c'
  obtain ⟨split, hid, awaits⟩ := splitAt?_eq_some found
  have mem : e ∈ c.window.toList := by rw [split]; simp
  obtain ⟨kind, slot, -⟩ := h.stored e mem
  have slot' : Record.slot? release = some (.release, id) := rfl
  obtain ⟨recs', holds, records⟩ := h.holds.save law takes slot' (Packet.isStable_pubrel v id)
  obtain ⟨recs'', holds', records'⟩ := holds.drop law takes slot
  refine ⟨.inl ⟨e, mem, rfl⟩, ?_, recs'', ?_⟩
  · -- only a message waits for PUBREC
    obtain ⟨m, publish, -⟩ | ⟨_, -, wrong⟩ := Inflight.awaits_eq_true_iff.mp awaits
    · rw [publish] at slot ⊢
      obtain ⟨_, e', acknowledged, -, given⟩ | ⟨_, e', -⟩ := Record.slot?_eq_some_iff.mp slot
      · cases e'
        obtain rfl := given.trans hid
        exact .release acknowledged
      · cases e'
    · cases wrong
  · have same : (Inflight.mk release now).packetId = e.packetId := hid.symm
    exact h.replace restored split same ⟨.release, rfl, Packet.isStable_pubrel v id⟩ holds'
      fun kind id r taken => Slots.of_set records (records' taken)

/-- After a handshake ended, there is nothing that was not there before. -/
lemma regular_complete {id : UInt16} {kind : AckKind} {before after : List Inflight} {e : Inflight}
    (restored : c.restored = true)
    (found : splitAt? id kind c.window.toList = some (before, e, after)) :
    let c' := { c with
      window := .ofList (before ++ after)
      archive := c.archive.drop e.packet
      ids := c.ids.release id }
    ∃ recs', c'.Regular V start v recs' ∧ ∀ p, c'.Has recs' p → c.Has recs p := by
  intro c'
  obtain ⟨split, hid, -⟩ := splitAt?_eq_some found
  have sub : (before ++ after).Sublist c.window.toList := by
    rw [split]
    exact (List.sublist_cons_self _ _).append_left before
  obtain ⟨slot, stored, -⟩ := h.stored e (by rw [split]; simp)
  obtain ⟨recs', holds, records⟩ := h.holds.drop law takes stored
  have window : c'.window.toList = before ++ after := Fifo.toList_ofList _
  have apart := h.apart
  rw [split] at apart
  obtain ⟨others, apart⟩ := Inflight.others_ne apart
  refine ⟨recs', ⟨holds, ?_, ?_, ?_, h.queue, idle_of_restored restored⟩, ?_⟩
  · rw [window]
    exact apart
  · rw [window]
    intro i mem
    refine (IdPool.contains_release i).mpr ⟨?_, h.taken i ((sub.map _).subset mem)⟩
    rintro rfl
    obtain ⟨f, mem, under⟩ := List.mem_map.mp mem
    exact others f mem (under.trans hid.symm)
  · rw [window]
    exact fun f mem => h.stored f (sub.subset mem)
  · rintro p (⟨f, hf, rfl⟩ | ⟨kind, i, r, taken, rfl⟩)
    · rw [window] at hf
      exact .inl ⟨f, sub.subset hf, rfl⟩
    · exact .inr ⟨kind, i, r, records taken, rfl⟩

/-- A packet that is sent again carries its handshake on. -/
lemma regular_resend {before after : List Inflight} {e : Inflight} (restored : c.restored = true)
    (split : c.window.toList = before ++ e :: after) (now : Instant) :
    let c' := { c with
      window := .ofList (before ++ e.again now :: after)
      archive := c.archive.save (e.again now).packet }
    c.Has recs e.packet ∧ ∃ recs', c'.Regular V start v recs' ∧
      ∀ p, c'.Has recs' p → p = (e.again now).packet ∨ c.Has recs p := by
  intro c'
  have mem : e ∈ c.window.toList := by rw [split]; simp
  obtain ⟨kind, slot, stable⟩ := h.stored e mem
  have slot' : Record.slot? (e.again now).packet = some (kind, (e.again now).packetId) := by
    rw [Inflight.slot?_again, Inflight.packetId_again, slot]
  have stable' := Inflight.isStable_again slot stable now
  obtain ⟨recs', holds, records⟩ := h.holds.save law takes slot' stable'
  exact ⟨.inl ⟨e, mem, rfl⟩, recs', h.replace restored split (Inflight.packetId_again e now)
    ⟨kind, slot', stable'⟩ holds fun kind id r taken => Slots.of_set records taken⟩

/-- Behind a cleaning nothing is in flight or kept that was not before. -/
lemma regular_clean :
    ∃ recs', c.cleanAll.Regular V start v recs' ∧ ∀ p, c.cleanAll.Has recs' p → c.Has recs p := by
  obtain ⟨recs', holds, records⟩ := h.holds.clear law takes
  refine ⟨recs', ⟨holds, .nil, nofun, nofun, nofun, nofun⟩, ?_⟩
  rintro p (⟨f, hf, rfl⟩ | ⟨kind, i, r, taken, rfl⟩)
  · cases hf
  · exact .inr ⟨kind, i, r, records taken, rfl⟩

/-- Messages that enter the window come behind the packets in flight, and have records under their
identifiers only. -/
lemma regular_fill (restored : c.restored = true) (now : Instant) (room : Nat) :
    ∃ recs', (c.fill now room).2.Regular V start v recs' ∧
      (c.fill now room).2.window.toList.map Inflight.packet =
        c.window.toList.map Inflight.packet ++ (c.fill now room).1 ∧
      ∀ id, (∀ m, .publish m ∈ (c.fill now room).1 → m.packetId ≠ id) →
        ∀ kind, recs' kind id = recs kind id := by
  induction room generalizing c recs with
  | zero => exact ⟨recs, h, (List.append_nil _).symm, fun _ _ _ => rfl⟩
  | succ room ih =>
    unfold fill
    split
    · exact ⟨recs, h, (List.append_nil _).symm, fun _ _ _ => rfl⟩
    · rename_i id ids free
      split
      · exact ⟨recs, h, (List.append_nil _).symm, fun _ _ _ => rfl⟩
      · rename_i m queue first
        -- each message enters behind the others, and its record does not touch those of other
        -- identifiers
        obtain ⟨recs', h', records, -⟩ := regular_send law takes h restored free first now
        obtain ⟨recs'', h'', window, same⟩ := ih h' restored
        refine ⟨recs'', h'', ?_, fun i others kind => ?_⟩
        · refine window.trans ?_
          rw [Fifo.toList_push, List.map_append, List.append_assoc]
          rfl
        · refine (same i (fun m' mem => others m' (List.mem_cons_of_mem _ mem)) kind).trans ?_
          obtain rfl | ⟨seq, rfl⟩ := records
          · rfl
          · exact Slots.set_of_ne fun here => others _ (List.mem_cons_self ..) here.2.symm

/-- After a step there is what was there before, what carries it on, and what is new. -/
theorem Regular.step (step : Step now c es c') :
    ∃ recs', c'.Regular V start v recs' ∧ ∀ p, p ∈ packets es ∨ c'.Has recs' p →
      Record.slot? p = none ∨ p ∈ entries es ∨ ∃ q, c.Has recs q ∧ p.Continues q := by
  -- what was there before carries itself on, so each case has to tell of what is new only
  have old {p : Packet} (had : c.Has recs p) :
      Record.slot? p = none ∨ p ∈ entries es ∨ ∃ q, c.Has recs q ∧ p.Continues q :=
    .inr (.inr ⟨p, had, .same⟩)
  cases step with
  | restore fresh =>
    obtain ⟨h', -, had⟩ := regular_restore law takes h fresh now
    rw [packets_takenUp]
    exact ⟨recs, h', fun p hp => old (hp.elim nofun (had p))⟩
  | pass _ plain =>
    refine ⟨recs, h, ?_⟩
    rintro p (mem | had)
    · obtain rfl := List.mem_singleton.mp mem
      exact .inl (if_neg (by rw [plain]; nofun))
    · exact old had
  | accept restored _ acknowledged =>
    refine ⟨recs, ⟨h.holds, h.apart, h.taken, h.stored, ?_, idle_of_restored restored⟩, ?_⟩
    · simp only [Fifo.toList_push, List.forall_mem_append, List.forall_mem_singleton]
      exact ⟨h.queue, acknowledged⟩
    · exact fun p hp => old (hp.elim nofun id)
  | send restored _ free first =>
    obtain ⟨recs', h', -, had⟩ := regular_send law takes h restored free first now
    refine ⟨recs', h', ?_⟩
    rintro p (mem | had')
    · exact .inr (.inl mem)
    · obtain rfl | had' := had p had'
      · exact .inr (.inl (List.mem_singleton_self _))
      · exact old had'
  | release restored found =>
    obtain ⟨source, continues, recs', h', had⟩ := regular_release law takes h restored found now
    refine ⟨recs', h', ?_⟩
    rintro p (mem | had')
    · obtain rfl := List.mem_singleton.mp mem
      exact .inr (.inr ⟨_, source, continues⟩)
    · obtain rfl | had' := had p had'
      · exact .inr (.inr ⟨_, source, continues⟩)
      · exact old had'
  | complete restored _ found =>
    obtain ⟨recs', h', had⟩ := regular_complete law takes h restored found
    exact ⟨recs', h', fun p hp => old (hp.elim nofun (had p))⟩
  | resend restored split =>
    obtain ⟨source, recs', h', had⟩ := regular_resend law takes h restored split now
    refine ⟨recs', h', ?_⟩
    rintro p (mem | had')
    · obtain rfl := List.mem_singleton.mp mem
      exact .inr (.inr ⟨_, source, Inflight.continues_again ..⟩)
    · obtain rfl | had' := had p had'
      · exact .inr (.inr ⟨_, source, Inflight.continues_again ..⟩)
      · exact old had'
  | replay restored =>
    refine ⟨recs, ⟨h.holds, ?_, ?_, ?_, h.queue, idle_of_restored restored⟩, ?_⟩
    · rw [Fifo.toList_ofList, List.map_map]
      exact h.apart
    · rw [Fifo.toList_ofList, List.map_map]
      exact h.taken
    · rw [Fifo.toList_ofList]
      intro e mem
      obtain ⟨f, hf, rfl⟩ := List.mem_map.mp mem
      exact h.stored f hf
    · rintro p (mem | ⟨e, mem, rfl⟩ | kept)
      · rw [packets_sent] at mem
        obtain ⟨f, hf, rfl⟩ := List.mem_map.mp mem
        exact old (.inl ⟨f, hf, rfl⟩)
      · rw [Fifo.toList_ofList] at mem
        obtain ⟨f, hf, rfl⟩ := List.mem_map.mp mem
        exact old (.inl ⟨f, hf, rfl⟩)
      · exact old (.inr kept)
  | settle same =>
    refine ⟨recs, ⟨h.holds, ?_, ?_, ?_, h.queue, fun fresh => ?_⟩, ?_⟩
    · rw [same]
      exact h.apart
    · rw [same]
      exact h.taken
    · rw [same]
      exact h.stored
    · exact ⟨same.trans (h.idle fresh).window, (h.idle fresh).queue, (h.idle fresh).free⟩
    · rintro p (mem | ⟨e, mem, rfl⟩ | kept)
      · cases mem
      · rw [same] at mem
        exact old (.inl ⟨e, mem, rfl⟩)
      · exact old (.inr kept)
  | clean =>
    obtain ⟨recs', h', had⟩ := regular_clean law takes h
    exact ⟨recs', h', fun p hp => old (hp.elim nofun (had p))⟩
  | take restored free =>
    obtain ⟨-, contains⟩ := IdPool.allocate?_eq_some free
    refine ⟨recs, ⟨h.holds, h.apart, fun i mem => (contains i).mpr (.inr (h.taken i mem)), h.stored,
      h.queue, idle_of_restored restored⟩, ?_⟩
    exact fun p hp => old (hp.elim nofun id)
  | giveBack absent =>
    refine ⟨recs, ⟨h.holds, h.apart, fun i mem => ?_, h.stored, h.queue, fun fresh => ?_⟩, ?_⟩
    · refine (IdPool.contains_release i).mpr ⟨?_, h.taken i mem⟩
      obtain ⟨e, he, rfl⟩ := List.mem_map.mp mem
      exact absent e he
    · exact ⟨(h.idle fresh).window, (h.idle fresh).queue,
        fun i => IdPool.contains_release_of_free ((h.idle fresh).free i) _⟩
    · exact fun p hp => old (hp.elim nofun id)
  | retain => exact ⟨recs, h, fun p hp => old (hp.elim nofun id)⟩

end

/-- What holds of all that is there before a run and of all that enters in it, and is carried on
with handshakes, holds of all that is sent in the run and of all that is there after it. -/
theorem Regular.steps (law : V.Lawful) (takes : Journal.TakesAll V start)
    (h : c.Regular V start v recs) (run : Steps now c new sent c') :
    ∃ recs', c'.Regular V start v recs' ∧ ∀ P : Packet → Prop,
      (∀ p, Record.slot? p = none → P p) → (∀ p q, p.Continues q → P q → P p) →
      (∀ p ∈ new, P p) → (∀ p, c.Has recs p → P p) →
      (∀ p ∈ sent, P p) ∧ ∀ p, c'.Has recs' p → P p := by
  -- what is sent first may carry on what was there; what is sent later may carry on what was sent
  -- first
  obtain ⟨es, run, rfl, rfl⟩ := run
  induction run generalizing recs with
  | refl => exact ⟨recs, h, fun P _ _ _ had => ⟨nofun, had⟩⟩
  | step first _ ih =>
    obtain ⟨recs', h', after⟩ := h.step law takes first
    obtain ⟨recs'', h'', rest⟩ := ih h'
    refine ⟨recs'', h'', fun P none continues enters had => ?_⟩
    rw [entries_append, List.forall_mem_append] at enters
    have all : ∀ p, p ∈ _ ∨ _ → P p := fun p hp => by
      obtain unstored | entered | ⟨q, hq, next⟩ := after p hp
      · exact none p unstored
      · exact enters.1 p entered
      · exact continues p q next (had q hq)
    obtain ⟨sent, left⟩ := rest P none continues enters.2 fun p hp => all p (.inr hp)
    rw [packets_append]
    exact ⟨List.forall_mem_append.mpr ⟨fun p hp => all p (.inl hp), sent⟩, left⟩

end Courier
end MqttClient
