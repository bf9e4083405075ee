import MqttClient.Proofs.Delivery.Discipline
import MqttClient.Proofs.Delivery.Restoration
import MqttClient.Store.Table
import Mathlib.Tactic.Common

/-!
# What cannot be sent

A courier looks at the topic of a message and at nothing else before it takes the message. So a
message that cannot be written may be taken and go in flight all the same. Whatever else is returned
or in flight can be written.
-/

namespace MqttClient

/-- Whether a packet can be written, or else is the packet of a given message that cannot. -/
def Packet.IsWritableBut (v : Version) (since : List Packet) (p : Packet) : Prop :=
  p.IsWritable v ∨ ∃ m dup, .publish m ∈ since ∧ ¬ m.IsWritable v ∧ p = .publish { m with dup }

namespace Packet.IsWritableBut
variable {v : Version} {since since' : List Packet}

/-- A packet of a given message can be written but for this message. -/
lemma of_mem {m : Publish} (mem : .publish m ∈ since)
    (named : m.isAcknowledged = true → m.packetId ≠ 0) : (publish m).IsWritableBut v since := by
  by_cases writable : m.IsWritable v
  · exact .inl (isWritable_publish_iff.mpr ⟨writable, named⟩)
  · exact .inr ⟨m, m.dup, mem, writable, rfl⟩

/-- What can be written but for some messages can be written but for more of them. -/
lemma mono {p : Packet} (h : p.IsWritableBut v since) (sub : since ⊆ since') :
    p.IsWritableBut v since' := by
  obtain writable | ⟨m, dup, mem, rest⟩ := h
  · exact .inl writable
  · exact .inr ⟨m, dup, sub mem, rest⟩

/-- If the given messages can be written, then so can the packet. -/
lemma isWritable {p : Packet} (h : p.IsWritableBut v since)
    (all : ∀ m, .publish m ∈ since → m.IsWritable v) : p.IsWritable v := by
  obtain writable | ⟨m, dup, mem, unwritable, -⟩ := h
  · exact writable
  · exact absurd (all m mem) unwritable

/-- The mark of being sent before makes no difference. -/
lemma again {e : Inflight} (h : e.packet.IsWritableBut v since) (now : Instant) :
    (e.again now).packet.IsWritableBut v since := by
  obtain ⟨packet, lastSent⟩ := e
  cases packet with
  | publish m =>
    obtain writable | ⟨m', dup, mem, unwritable, same⟩ := h
    · exact .inl ((isWritable_publish_withDup true).mpr writable)
    · cases same
      exact .inr ⟨m', true, mem, unwritable, rfl⟩
  | _ => exact h

end Packet.IsWritableBut

namespace Courier
variable {σ : Type} {v : Version} {since : List Packet} {c c' : Courier σ} {out : Finset UInt16}
  {now : Instant} {es es' : List Event}

/-- The message that is sent for the first time, as it is sent. -/
def Event.first? : Event → Option Packet
  | .entered p => some p
  | .sent (.publish m) => if m.isAcknowledged then none else some (.publish m)
  | _ => none

/-- The messages that are sent for the first time in the course of events, as they are sent. -/
def firsts (es : List Event) : List Packet :=
  es.filterMap Event.first?

/-- Whether what is in flight can be written, but for given messages, and so can what is still to be
taken up. -/
structure Sendable (v : Version) (c : Courier σ) (since : List Packet) : Prop where
  window : ∀ e ∈ c.window.toList, e.packet.IsWritableBut v since
  version : c.restored = false → ∀ j s, c.archive = .active j s → j.version = v

/-- What is sent first in two parts of the history comes one after the other. -/
@[simp]
lemma firsts_append (es es' : List Event) : firsts (es ++ es') = firsts es ++ firsts es' :=
  List.filterMap_append

/-- A message that enters the window is sent for the first time. -/
lemma entries_subset_firsts (es : List Event) : entries es ⊆ firsts es := by
  intro p mem
  obtain ⟨e, he, entry⟩ := List.mem_filterMap.mp mem
  refine List.mem_filterMap.mpr ⟨e, he, ?_⟩
  cases e with
  | entered p => exact entry
  | _ => cases entry

/-- What is sent for the first time is sent. -/
lemma firsts_subset_packets (es : List Event) : firsts es ⊆ packets es := by
  intro p mem
  obtain ⟨e, he, first⟩ := List.mem_filterMap.mp mem
  refine List.mem_filterMap.mpr ⟨e, he, ?_⟩
  cases e with
  | entered p => exact first
  | sent q =>
    cases q with
    | publish m => exact (Option.ite_none_left_eq_some.mp first).2
    | _ => cases first
  | _ => cases first

/-- What is sent in the course of events, the later ones of which may send again what entered the
window in the earlier ones. -/
lemma isWritableBut_append (h : ∀ p ∈ packets es, p.IsWritableBut v (firsts es))
    (h' : ∀ p ∈ packets es', p.IsWritableBut v (entries es ++ firsts es')) :
    ∀ p ∈ packets (es ++ es'), p.IsWritableBut v (firsts (es ++ es')) := by
  rw [packets_append, List.forall_mem_append, firsts_append]
  refine ⟨fun p mem => (h p mem).mono (List.subset_append_left ..), fun p mem => (h' p mem).mono ?_⟩
  exact List.append_subset.mpr ⟨List.subset_append_of_subset_left _ (entries_subset_firsts es),
    List.subset_append_right ..⟩

namespace Sendable

/-- More messages may be given. -/
lemma mono (h : c.Sendable v since) (sub : since ⊆ since') : c.Sendable v since' :=
  ⟨fun e mem => (h.window e mem).mono sub, h.version⟩

/-- A packet in flight is replaced by one that can be written, or by none. -/
lemma replace (h : c.Sendable v since) (restored : c.restored = true)
    {before after : List Inflight} {e : Inflight}
    (window : c.window.toList = before ++ e :: after) (mid : List Inflight)
    (writable : ∀ f ∈ mid, f.packet.IsWritableBut v since) (ids : IdPool) (archive : Archive σ) :
    Sendable v { c with window := .ofList (before ++ (mid ++ after)), ids, archive } since := by
  have others := h.window
  rw [window, List.forall_mem_append, List.forall_mem_cons] at others
  refine ⟨?_, fun fresh => Bool.noConfusion (fresh.symm.trans restored)⟩
  rw [Fifo.toList_ofList, List.forall_mem_append, List.forall_mem_append]
  exact ⟨others.1, writable, others.2.2⟩

variable [RecordStore σ]

/-- Every step sends and keeps in flight only what can be written, but for messages that are sent
for the first time. -/
theorem step (h : c.Sendable v since) (d : c.Disciplined out) (step : Step now c es c') :
    c'.Sendable v (since ++ entries es) ∧
      ∀ p ∈ packets es, p.IsWritableBut v (since ++ firsts es) := by
  have later := h.mono (List.subset_append_left since (entries es))
  have window {e : Inflight} (mem : e ∈ c.window.toList) (new : List Packet) :
      e.packet.IsWritableBut v (since ++ new) :=
    (h.window e mem).mono (List.subset_append_left ..)
  cases step with
  | restore fresh =>
    rw [packets_takenUp]
    refine ⟨⟨fun e mem => ?_, fun fresh' => ?_⟩, List.forall_mem_nil _⟩
    · -- what is taken up was read in the version of the journal, which writes it again
      obtain ⟨j, s, active, bytes, n, read⟩ := isRead_of_mem_restore (d.idle fresh) fresh mem
      rw [← h.version fresh j s active]
      exact .inl (Packet.isWritable_of_decodeFirst read).1
    · exact Bool.noConfusion (fresh'.symm.trans (restored_restore c now))
  | @pass m _ plain =>
    have asked := Bool.eq_false_iff.mp plain
    have first : Packet.publish m ∈ firsts [.sent (.publish m)] :=
      List.mem_filterMap.mpr ⟨_, List.mem_singleton_self _, if_neg asked⟩
    refine ⟨later, List.forall_mem_singleton.mpr ?_⟩
    exact .of_mem (List.mem_append_right _ first) fun h => absurd h asked
  | @send m _ id _ restored _ free =>
    have entered : (Packet.publish { m with packetId := id }).IsWritableBut v
        (since ++ [.publish { m with packetId := id }]) :=
      .of_mem (List.mem_append_right _ (List.mem_singleton_self _)) fun _ =>
        (d.ids.allocate? free).1
    refine ⟨⟨?_, fun fresh => Bool.noConfusion (fresh.symm.trans restored)⟩,
      List.forall_mem_singleton.mpr entered⟩
    rw [Fifo.toList_push, List.forall_mem_append, List.forall_mem_singleton]
    exact ⟨later.window, entered⟩
  | release restored found =>
    obtain ⟨split, rfl, -⟩ := splitAt?_eq_some found
    have ne := d.packetId_ne_zero (split ▸ List.mem_append_cons_self)
    have writable := Packet.isWritable_pubrel (v := v) ne
    refine ⟨later.replace restored split [_] ?_ _ _, ?_⟩
    · exact List.forall_mem_singleton.mpr (.inl writable)
    · exact List.forall_mem_singleton.mpr (.inl writable)
  | complete restored _ found =>
    obtain ⟨split, -⟩ := splitAt?_eq_some found
    exact ⟨later.replace restored split [] (List.forall_mem_nil _) _ _, List.forall_mem_nil _⟩
  | resend restored split =>
    have mem : _ ∈ c.window.toList := split ▸ List.mem_append_cons_self
    refine ⟨later.replace restored split [_] ?_ _ _, ?_⟩
    · exact List.forall_mem_singleton.mpr ((window mem _).again now)
    · exact List.forall_mem_singleton.mpr ((window mem _).again now)
  | replay restored =>
    refine ⟨⟨?_, fun fresh => Bool.noConfusion (fresh.symm.trans restored)⟩, ?_⟩
    · rw [Fifo.toList_ofList, List.forall_mem_map]
      exact later.window
    · rw [packets_sent, List.forall_mem_map]
      exact fun e mem => window mem _
  | settle same => exact ⟨⟨same ▸ later.window, h.version⟩, List.forall_mem_nil _⟩
  | clean =>
    exact ⟨⟨List.forall_mem_nil _, fun fresh => Bool.noConfusion fresh⟩, List.forall_mem_nil _⟩
  | _ => exact ⟨⟨later.window, h.version⟩, List.forall_mem_nil _⟩

/-- Calls return and keep in flight only what can be written, but for messages that are sent for the
first time. -/
theorem trace (h : c.Sendable v []) (d : c.Disciplined out) (ops : List Call) :
    (c.after ops).Sendable v (entries (c.trace ops)) ∧
      ∀ p ∈ packets (c.trace ops), p.IsWritableBut v (firsts (c.trace ops)) := by
  refine d.trace_induction [] (motive := fun c es =>
    c.Sendable v (entries es) ∧ ∀ p ∈ packets es, p.IsWritableBut v (firsts es))
    ⟨h, List.forall_mem_nil _⟩ ?_ ops
  rintro c c' out now es es' d ⟨h, sent⟩ step
  obtain ⟨h', sent'⟩ := h.step d step
  rw [entries_append]
  exact ⟨h', isWritableBut_append sent sent'⟩

end Sendable

variable [RecordStore σ]

omit [RecordStore σ] in
/-- Before the first call nothing is in flight. -/
lemma sendable_initial (settings : Settings) {session : Option (Journal × σ)}
    (h : ∀ j s, session = some (j, s) → j.version = v) :
    (initial settings session).Sendable v [] := by
  cases session with
  | none => exact ⟨List.forall_mem_nil _, fun fresh => Bool.noConfusion fresh⟩
  | some js =>
    refine ⟨List.forall_mem_nil _, fun _ j s active => ?_⟩
    cases active
    exact h _ _ rfl

/-- Only a message without a topic is refused as one that cannot be sent. -/
lemma enqueue_eq_invalidMessage_iff (c : Courier σ) (m : Publish) (now : Instant) :
    (c.enqueue m now).1 = .error .invalidMessage ↔ m.topic = "" := by
  constructor
  · intro refused
    obtain ⟨unnamed, -⟩ | ⟨-, wrong, -⟩ := enqueue_of_error (Prod.ext refused rfl)
    · simpa using unnamed
    · cases wrong
  · intro unnamed
    rw [enqueue_of_unnamed (by simpa using unnamed)]

/-- All packets that a courier returns can be written exactly if the messages can that are sent for
the first time. Whatever else is returned or in flight can be written in any case, if the journal is
of the same version. A message that cannot be written is refused only if it has no topic. -/
theorem isWritable_returned_iff (settings : Settings) (session : Option (Journal × σ))
    (same : ∀ j s, session = some (j, s) → j.version = settings.version) (ops : List Call) :
    let v := settings.version
    let es := (initial settings session).trace ops
    let c := (initial settings session).after ops
    ((∀ p ∈ (initial settings session).returned ops, p.IsWritable v) ↔
        ∀ m, .publish m ∈ firsts es → m.IsWritable v) ∧
      (∀ p ∈ (initial settings session).returned ops, p.IsWritableBut v (firsts es)) ∧
      (∀ e ∈ c.window.toList, e.packet.IsWritableBut v (entries es)) ∧
      ∀ m now, ((c.enqueue m now).1 = .error .invalidMessage ↔ m.topic = "") ∧
        (m.topic = "" → (c.enqueue m now).2 = c) := by
  intro v es c
  obtain ⟨h, sent⟩ := (sendable_initial settings same).trace
    (disciplined_initial settings session) ops
  rw [packets_trace] at sent
  refine ⟨⟨fun all m first => ?_, fun all p mem => ?_⟩, sent, h.window, fun m now => ⟨?_, ?_⟩⟩
  · have returned : .publish m ∈ packets es := firsts_subset_packets es first
    rw [packets_trace] at returned
    exact (Packet.isWritable_publish_iff.mp (all _ returned)).1
  · exact (sent p mem).isWritable all
  · exact enqueue_eq_invalidMessage_iff c m now
  · intro unnamed
    rw [enqueue, if_pos (by simpa using unnamed)]

/-- A message that can be written, sent and sent again by a courier with a journal. -/
theorem isWritable_returned_recover :
    let settings : Settings := {}
    let session : Option (Journal × Table) := some (⟨[0, 1, 97], .v311, 0⟩, Table.empty)
    let m : Publish := { qos := .exactlyOnce, topic := "a", payload := [1] }
    let ops : List Call := [.enqueue m .origin, .recover .origin]
    (∀ j s, session = some (j, s) → j.version = settings.version) ∧
      (initial settings session).returned ops =
        [.publish { m with packetId := 1 }, .publish { m with packetId := 1 }] ∧
      ∀ p ∈ (initial settings session).returned ops, p.IsWritable settings.version := by
  intro settings session m ops
  have same : ∀ j s, session = some (j, s) → j.version = settings.version := by
    intro j s h
    obtain ⟨rfl, rfl⟩ := Prod.mk.inj (Option.some.inj h)
    rfl
  have firsts : firsts ((initial settings session).trace ops) =
      [.publish { m with packetId := 1 }] := by decide +kernel
  refine ⟨same, by decide +kernel, (isWritable_returned_iff settings session same ops).1.mpr ?_⟩
  rw [firsts]
  intro m' mem
  cases List.mem_singleton.mp mem
  exact (Packet.isWritable_publish_iff.mp ⟨_, rfl⟩).1

/-- Version 3.1.1 has no place for the properties of the message, but the message is taken, and its
packet is returned and keeps its place in the window. -/
theorem not_isWritable_returned :
    let settings : Settings := {}
    let m : Publish :=
      { qos := .atLeastOnce, topic := "a", payload := [1], properties := [.user "k" "v"] }
    let c : Courier Table := initial settings none
    (c.enqueue m .origin).1 = .ok [.publish { m with packetId := 1 }] ∧
      (Packet.publish { m with packetId := 1 }).encode settings.version = .error .unsupported ∧
      (c.enqueue m .origin).2.window.toList = [⟨.publish { m with packetId := 1 }, .origin⟩] := by
  decide +kernel

end Courier
end MqttClient
