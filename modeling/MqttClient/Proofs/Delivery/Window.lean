import MqttClient.Delivery.Courier
import MqttClient.Proofs.Delivery.IdPool
import MqttClient.Proofs.Session.Record
import Mathlib.Data.List.Nodup
import Mathlib.Tactic.Common

/-!
# Windows

How a packet in flight is found, and what the packets of an archive become when they are taken up.
-/

namespace MqttClient

/-- A packet in flight has the identifier of the packet. -/
lemma Inflight.packetId_of_packet {e : Inflight} {id : UInt16} (h : e.packet.packetId? = some id) :
    e.packetId = id := by
  rw [packetId, h]
  rfl

/-- A message in flight has its identifier. -/
@[simp]
lemma Inflight.packetId_publish (m : Publish) (now : Instant) :
    (Inflight.mk (.publish m) now).packetId = m.packetId := by
  show (if m.packetId = 0 then none else some m.packetId).getD 0 = m.packetId
  split
  · rename_i zero
    exact zero.symm
  · rfl

/-- A packet that is stored is in flight under the identifier of its slot. -/
lemma Inflight.packetId_of_slot {e : Inflight} {kind : Record.Kind} {id : UInt16}
    (h : Record.slot? e.packet = some (kind, id)) : e.packetId = id := by
  obtain ⟨packet, lastSent⟩ := e
  obtain ⟨m, rfl, -, -, rfl⟩ | ⟨a, rfl, -, rfl⟩ := Record.slot?_eq_some_iff.mp h
  · exact packetId_publish m lastSent
  · rfl

/-- An identifier of a packet in flight that is not zero is that of the packet. -/
lemma Inflight.packetId?_of_packetId {e : Inflight} {id : UInt16} (h : e.packetId = id)
    (ne : id ≠ 0) : e.packet.packetId? = some id := by
  unfold packetId at h
  cases named : e.packet.packetId? with
  | none =>
    rw [named] at h
    exact absurd h.symm ne
  | some i =>
    rw [named] at h
    exact congrArg some h

/-- Messages wait as their quality of service says, and releases for PUBCOMP. -/
lemma Inflight.awaits_eq_true_iff {e : Inflight} {kind : AckKind} :
    e.awaits kind = true ↔
      (∃ m, e.packet = .publish m ∧
        (m.qos = .atLeastOnce ∧ kind = .puback ∨ m.qos = .exactlyOnce ∧ kind = .pubrec)) ∨
      ∃ a, e.packet = .pubrel a ∧ kind = .pubcomp := by
  obtain ⟨packet, lastSent⟩ := e
  cases packet with
  | publish m => cases kind <;> simp [awaits]
  | pubrel a => cases kind <;> simp [awaits]
  | _ => cases kind <;> simp [awaits]

/-- What waits to be received is a message. -/
lemma Inflight.message_of_awaits {e : Inflight} {kind : Record.Kind} {id : UInt16}
    (awaits : e.awaits .pubrec = true) (slot : Record.slot? e.packet = some (kind, id)) :
    kind = .message := by
  obtain ⟨m, publish, -⟩ | ⟨_, -, wrong⟩ := awaits_eq_true_iff.mp awaits
  · obtain ⟨_, -, -, rfl, -⟩ | ⟨_, release, -⟩ := Record.slot?_eq_some_iff.mp slot
    · rfl
    · rw [publish] at release
      cases release
  · cases wrong

/-- A packet that is sent again belongs in its slot. -/
lemma Inflight.fits_again {e : Inflight} {v : Version} {kind : Record.Kind} {id : UInt16}
    (h : Record.Fits v kind id e.packet) (now : Instant) :
    Record.Fits v kind id (e.again now).packet := by
  obtain ⟨packet, lastSent⟩ := e
  cases packet with
  | publish m =>
    refine ⟨h.slot, ?_, h.ne_zero⟩
    obtain ⟨_, e, acknowledged, -⟩ | ⟨_, e, -⟩ := Record.slot?_eq_some_iff.mp h.slot
    · cases e
      exact Packet.isStable_publish acknowledged
    · cases e
  | _ => exact h

/-- A packet that is sent again keeps its identifier in flight. -/
lemma Inflight.packetId_again (e : Inflight) (now : Instant) :
    (e.again now).packetId = e.packetId := by
  obtain ⟨packet, lastSent⟩ := e
  cases packet <;> rfl

/-- A packet that is sent again keeps its identifier. -/
lemma Inflight.packetId?_again (e : Inflight) (now : Instant) :
    (e.again now).packet.packetId? = e.packet.packetId? := by
  obtain ⟨packet, lastSent⟩ := e
  cases packet <;> rfl

/-- Stamping packets in flight leaves the packets. -/
@[simp]
lemma Inflight.map_packet_stamp (window : List Inflight) (now : Instant) :
    (window.map fun e => { e with lastSent := now }).map packet = window.map packet := by
  rw [List.map_map]
  rfl

/-- Of packets with identifiers of their own, no other one has the identifier of one of them. -/
lemma Inflight.others_ne {before after : List Inflight} {e : Inflight}
    (apart : ((before ++ e :: after).map packetId).Nodup) :
    (∀ f ∈ before ++ after, f.packetId ≠ e.packetId) ∧
      ((before ++ after).map packetId).Nodup := by
  rw [List.map_append, List.map_cons, List.nodup_middle, List.nodup_cons, ← List.map_append]
    at apart
  refine ⟨fun f mem same => apart.1 ?_, apart.2⟩
  rw [← same]
  exact List.mem_map_of_mem mem

namespace Courier
variable {σ : Type}

/-- Whether nothing was taken for delivery yet. -/
structure IsIdle (c : Courier σ) : Prop where
  window : c.window.toList = []
  queue : c.queue.toList = []
  free : ∀ id, c.ids.contains id = false

/-- Only a courier that was not restored yet has to be idle. -/
lemma idle_of_restored {c : Courier σ} (h : c.restored = true) : c.restored = false → c.IsIdle :=
  fun fresh => Bool.noConfusion (h.symm.trans fresh)

/-- The window is split at a packet that waits for the acknowledgment. -/
lemma splitAt?_eq_some {id : UInt16} {kind : AckKind} {window before after : List Inflight}
    {e : Inflight} (h : splitAt? id kind window = some (before, e, after)) :
    window = before ++ e :: after ∧ e.packetId = id ∧ e.awaits kind = true := by
  induction window generalizing before with
  | nil => cases h
  | cons f window ih =>
    rw [splitAt?] at h
    split at h
    · rename_i found
      cases h
      simpa using found
    · simp only [Option.map_eq_some_iff, Prod.mk.injEq, Prod.exists] at h
      obtain ⟨before, _, _, found, rfl, rfl, rfl⟩ := h
      obtain ⟨rfl, this⟩ := ih found
      exact ⟨rfl, this⟩

/-- The window can be split if some packet waits for the acknowledgment. -/
lemma exists_splitAt? {id : UInt16} {kind : AckKind} {window : List Inflight} {e : Inflight}
    (mem : e ∈ window) (hid : e.packetId = id) (awaits : e.awaits kind = true) :
    ∃ before f after, splitAt? id kind window = some (before, f, after) := by
  induction window with
  | nil => cases mem
  | cons f window ih =>
    rw [splitAt?]
    split
    · exact ⟨[], f, window, rfl⟩
    · rename_i other
      cases mem with
      | head => exact absurd (by simp [hid, awaits]) other
      | tail _ mem =>
        obtain ⟨before, g, after, found⟩ := ih mem
        exact ⟨f :: before, g, after, by rw [found]; rfl⟩

/-- The window cannot be split exactly if no packet waits for the acknowledgment. -/
lemma splitAt?_eq_none_iff {id : UInt16} {kind : AckKind} {window : List Inflight} :
    splitAt? id kind window = none ↔ ∀ e ∈ window, e.packetId = id → e.awaits kind = false := by
  constructor
  · intro none e mem under
    rw [Bool.eq_false_iff]
    intro awaits
    obtain ⟨before, f, after, found⟩ := exists_splitAt? mem under awaits
    rw [none] at found
    cases found
  · intro quiet
    cases found : splitAt? id kind window with
    | none => rfl
    | some parts =>
      obtain ⟨before, e, after⟩ := parts
      obtain ⟨rfl, under, awaits⟩ := splitAt?_eq_some found
      have mem : e ∈ before ++ e :: after := List.mem_append_right _ (List.mem_cons_self ..)
      exact Bool.noConfusion ((quiet e mem under).symm.trans awaits)

/-- Taking up packets is about the window and the identifiers only. -/
lemma foldl_takeUp (now : Instant) (ps : List Packet) (c : Courier σ) :
    ∃ ids window, ps.foldl (takeUp now) c = { c with ids, window } := by
  induction ps generalizing c with
  | nil => exact ⟨c.ids, c.window, rfl⟩
  | cons p ps ih =>
    obtain ⟨ids, window, e⟩ := ih (takeUp now c p)
    refine ⟨ids, window, ?_⟩
    rw [List.foldl_cons, e, takeUp]
    split <;> rfl

/-- Packets whose identifiers differ and are free are all taken up, in their order. -/
lemma takeUp_all (now : Instant) {ps : List Packet} {c : Courier σ}
    (free : ∀ p ∈ ps, ∃ id, p.packetId? = some id ∧ id ≠ 0 ∧ c.ids.contains id = false)
    (apart : ps.Pairwise fun p q => p.packetId? ≠ q.packetId?) :
    ∃ ids, ps.foldl (takeUp now) c =
        { c with ids, window := c.window.pushAll (ps.map fun p => ⟨p, now⟩) } ∧
      ∀ i, ids.contains i = true ↔ some i ∈ ps.map Packet.packetId? ∨ c.ids.contains i = true := by
  induction ps generalizing c with
  | nil => exact ⟨c.ids, rfl, fun i => by simp⟩
  | cons p ps ih =>
    obtain ⟨id, hid, ne, unused⟩ := free p (by simp)
    obtain ⟨ids, reserved, taken⟩ := IdPool.reserve?_of_free ne unused
    have head : takeUp now c p = { c with ids, window := c.window.push ⟨p, now⟩ } := by
      rw [takeUp, hid, Option.bind_some, reserved]
    rw [List.pairwise_cons] at apart
    -- what is still free after the first packet was taken up
    have free' : ∀ q ∈ ps, ∃ id, q.packetId? = some id ∧ id ≠ 0 ∧
        (takeUp now c p).ids.contains id = false := by
      intro q hq
      obtain ⟨id', hid', ne', unused'⟩ := free q (by simp [hq])
      refine ⟨id', hid', ne', ?_⟩
      rw [head]
      by_contra used
      rw [Bool.not_eq_false, taken] at used
      obtain rfl | used := used
      · exact apart.1 q hq (hid.trans hid'.symm)
      · rw [unused'] at used
        cases used
    obtain ⟨ids', tail, taken'⟩ := ih free' apart.2
    refine ⟨ids', ?_, fun i => ?_⟩
    · rw [List.foldl_cons, tail, head]
      rfl
    · rw [taken', head, taken, List.map_cons, List.mem_cons, hid, Option.some_inj]
      tauto

section
variable [RecordStore σ] {c : Courier σ}

/-- The messages that enter the window enter it at its end. -/
lemma fill_snd (now : Instant) (room : Nat) (c : Courier σ) :
    ∃ queue ids archive, (c.fill now room).2 = { c with
      queue
      ids
      archive
      window := c.window.pushAll ((c.fill now room).1.map fun p => ⟨p, now⟩) } := by
  induction room generalizing c with
  | zero => exact ⟨c.queue, c.ids, c.archive, rfl⟩
  | succ room ih =>
    unfold fill
    split
    · exact ⟨c.queue, c.ids, c.archive, rfl⟩
    · rename_i id ids free
      split
      · exact ⟨c.queue, c.ids, c.archive, rfl⟩
      · rename_i m queue first
        obtain ⟨queue', ids', archive', e⟩ := ih { c with
          queue
          ids
          archive := c.archive.save (.publish { m with packetId := id })
          window := c.window.push ⟨.publish { m with packetId := id }, now⟩ }
        exact ⟨queue', ids', archive', e⟩

/-- No more messages are moved than there is room for. -/
lemma length_fill_le (now : Instant) (room : Nat) (c : Courier σ) :
    (c.fill now room).1.length ≤ room := by
  induction room generalizing c with
  | zero => exact Nat.le_refl 0
  | succ room ih =>
    unfold fill
    split
    · exact Nat.zero_le _
    · split
      · exact Nat.zero_le _
      · exact Nat.succ_le_succ (ih _)

/-- Filling changes nothing if no message enters. -/
lemma fill_eq_self (now : Instant) (room : Nat) (c : Courier σ) (none : (c.fill now room).1 = []) :
    c.fill now room = ([], c) := by
  cases room with
  | zero => rfl
  | succ room =>
    unfold fill at none ⊢
    split
    · rfl
    · rename_i id ids free
      split
      · rfl
      · rename_i m queue first
        simp only [free, first] at none
        cases none

section Acknowledge
variable {id : UInt16} {kind : AckKind} {now : Instant} {before after : List Inflight}
  {e : Inflight}

/-- An acknowledgment that no packet waits for changes nothing. -/
lemma acknowledge_of_none (none : splitAt? id kind (c.restore now).window.toList = none) :
    c.acknowledge id kind now = ([], c.restore now) := by
  rw [acknowledge, none]

/-- PUBREC puts the release in the place of its message. -/
lemma acknowledge_of_pubrec
    (found : splitAt? id .pubrec (c.restore now).window.toList = some (before, e, after)) :
    c.acknowledge id .pubrec now = ([.pubrel { packetId := id }], { c.restore now with
      window := .ofList (before ++ ⟨.pubrel { packetId := id }, now⟩ :: after)
      archive := ((c.restore now).archive.save (.pubrel { packetId := id })).drop e.packet }) := by
  rw [acknowledge, found]

/-- The end of a handshake makes room in the window. -/
lemma acknowledge_of_ends (ends : kind ≠ .pubrec)
    (found : splitAt? id kind (c.restore now).window.toList = some (before, e, after)) :
    c.acknowledge id kind now = Courier.drain { c.restore now with
      window := .ofList (before ++ after)
      archive := (c.restore now).archive.drop e.packet
      ids := (c.restore now).ids.release id } now := by
  rw [acknowledge, found]
  cases kind with
  | pubrec => exact absurd rfl ends
  | _ => rfl

end Acknowledge

section Enqueue
variable {m : Publish} {now : Instant} {c' : Courier σ} {e : DeliveryError}

/-- A message without a topic is refused, and nothing is taken up. -/
lemma enqueue_of_unnamed (unnamed : m.topic.isEmpty = true) :
    c.enqueue m now = (.error .invalidMessage, c) :=
  if_pos unnamed

/-- A message is refused where there is no room for it. -/
lemma enqueue_of_full (named : ¬ m.topic.isEmpty = true)
    (full : (c.restore now).settings.queueCapacity.toNat ≤ (c.restore now).pending) :
    c.enqueue m now = (.error .queueFull, c.restore now) :=
  (if_neg named).trans (if_pos full)

/-- A message that waits for an acknowledgment joins the queue, which is drained then. -/
lemma enqueue_of_acknowledged (named : ¬ m.topic.isEmpty = true)
    (room : ¬ (c.restore now).settings.queueCapacity.toNat ≤ (c.restore now).pending)
    (acknowledged : m.isAcknowledged = true) :
    c.enqueue m now = Prod.map .ok id (Courier.drain { c.restore now with
      queue := (c.restore now).queue.push { m with dup := false, packetId := 0 } } now) :=
  (if_neg named).trans ((if_neg room).trans (if_pos acknowledged))

/-- A message that waits for no acknowledgment is returned at once. -/
lemma enqueue_of_plain (named : ¬ m.topic.isEmpty = true)
    (room : ¬ (c.restore now).settings.queueCapacity.toNat ≤ (c.restore now).pending)
    (plain : ¬ m.isAcknowledged = true) :
    c.enqueue m now = (.ok [.publish { m with dup := false, packetId := 0 }], c.restore now) :=
  (if_neg named).trans ((if_neg room).trans (if_neg plain))

/-- A message is refused before or after the packets of the archive are taken up. -/
lemma enqueue_of_error (refused : c.enqueue m now = (.error e, c')) :
    m.topic.isEmpty = true ∧ e = .invalidMessage ∧ c' = c ∨
      (c.restore now).settings.queueCapacity.toNat ≤ (c.restore now).pending ∧
        e = .queueFull ∧ c' = c.restore now := by
  by_cases named : m.topic.isEmpty = true
  · rw [enqueue_of_unnamed named] at refused
    cases refused
    exact .inl ⟨named, rfl, rfl⟩
  by_cases full : (c.restore now).settings.queueCapacity.toNat ≤ (c.restore now).pending
  · rw [enqueue_of_full named full] at refused
    cases refused
    exact .inr ⟨full, rfl, rfl⟩
  by_cases acknowledged : m.isAcknowledged = true
  · rw [enqueue_of_acknowledged named full acknowledged] at refused
    cases refused
  · rw [enqueue_of_plain named full acknowledged] at refused
    cases refused

end Enqueue

/-- Taking up the archive changes the identifiers and the window besides it. -/
lemma restore_of_fresh (fresh : c.restored = false) (now : Instant) :
    ∃ ids window, c.restore now =
      { c with archive := c.archive.readAll.2, restored := true, ids, window } := by
  obtain ⟨ids, window, e⟩ := foldl_takeUp now c.archive.readAll.1
    { c with archive := c.archive.readAll.2, restored := true }
  refine ⟨ids, window, ?_⟩
  rw [restore, fresh]
  exact e

/-- Packets are taken up once they are asked for. -/
@[simp]
lemma restored_restore (c : Courier σ) (now : Instant) : (c.restore now).restored = true := by
  cases h : c.restored with
  | true => rw [restore, if_pos h, h]
  | false =>
    obtain ⟨ids, window, e⟩ := restore_of_fresh h now
    rw [e]

/-- Taking up the archive leaves the queue. -/
@[simp]
lemma queue_restore (c : Courier σ) (now : Instant) : (c.restore now).queue = c.queue := by
  cases h : c.restored with
  | true => rw [restore, if_pos h]
  | false =>
    obtain ⟨ids, window, e⟩ := restore_of_fresh h now
    rw [e]

/-- Taking up the archive leaves the settings. -/
@[simp]
lemma settings_restore (c : Courier σ) (now : Instant) :
    (c.restore now).settings = c.settings := by
  cases h : c.restored with
  | true => rw [restore, if_pos h]
  | false =>
    obtain ⟨ids, window, e⟩ := restore_of_fresh h now
    rw [e]

/-- The archive is read when it is taken up. -/
lemma archive_restore (fresh : c.restored = false) (now : Instant) :
    (c.restore now).archive = c.archive.readAll.2 := by
  obtain ⟨ids, window, e⟩ := restore_of_fresh fresh now
  rw [e]

/-- An idle courier takes up all packets of its archive. -/
lemma restore_of_idle (idle : c.IsIdle) (fresh : c.restored = false)
    (named : ∀ p ∈ c.archive.readAll.1, ∃ id, p.packetId? = some id ∧ id ≠ 0)
    (apart : c.archive.readAll.1.Pairwise fun p q => p.packetId? ≠ q.packetId?) (now : Instant) :
    (c.restore now).window.toList = c.archive.readAll.1.map (fun p => ⟨p, now⟩) ∧
      ∀ i, (c.restore now).ids.contains i = true ↔
        some i ∈ c.archive.readAll.1.map Packet.packetId? := by
  have free : ∀ p ∈ c.archive.readAll.1, ∃ id, p.packetId? = some id ∧ id ≠ 0 ∧
      c.ids.contains id = false := by
    intro p mem
    obtain ⟨id, hid, ne⟩ := named p mem
    exact ⟨id, hid, ne, idle.free id⟩
  obtain ⟨ids, taken, contains⟩ := takeUp_all now
    (c := { c with archive := c.archive.readAll.2, restored := true }) free apart
  have restored : c.restore now = c.archive.readAll.1.foldl (takeUp now)
      { c with archive := c.archive.readAll.2, restored := true } := by
    rw [restore, fresh]
    rfl
  rw [restored, taken]
  refine ⟨?_, fun i => ?_⟩
  · change (c.window.pushAll _).toList = _
    rw [Fifo.toList_pushAll, idle.window, List.nil_append]
  · refine (contains i).trans (or_iff_left ?_)
    change ¬ c.ids.contains i = true
    rw [idle.free i]
    decide

end

end Courier
end MqttClient
