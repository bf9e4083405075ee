import MqttClient.Delivery.Courier
import Mathlib.Tactic.Common

/-!
# Events

The calls of a courier, and what happens in them: which packets are taken up, sent and acknowledged,
and which identifiers are lent. The trace of a run is what happens in its calls, one after the
other. The packets that the calls return are the packets of the trace.
-/

namespace MqttClient.Courier
variable {σ : Type} [RecordStore σ]

/-- The calls of a courier. -/
inductive Call where
  | enqueue (m : Publish) (now : Instant)
  | acknowledge (id : UInt16) (kind : AckKind) (now : Instant)
  | retry (now : Instant)
  | recover (now : Instant)
  | connected (cleanSession : Bool) (now : Instant)
  | cleanAll
  | nextPacketId
  | releasePacketId (id : UInt16)

namespace Call

/-- The point in time of a call. Calls without one happen at the origin. -/
def time : Call → Instant
  | enqueue _ now | acknowledge _ _ now | retry now | recover now | connected _ now => now
  | cleanAll | nextPacketId | releasePacketId _ => .origin

/-- Whether a call takes up the packets of the archive, if none did before. -/
def restores : Call → Bool
  | enqueue m _ => !m.topic.isEmpty
  | connected cleanSession _ => !cleanSession
  | acknowledge .. | retry _ | recover _ | nextPacketId => true
  | cleanAll | releasePacketId _ => false

end Call

/-- The packets that a call returns, and the courier after it. -/
def call (c : Courier σ) : Call → List Packet × Courier σ
  | .enqueue m now =>
    match c.enqueue m now with
    | (.ok sent, c) => (sent, c)
    | (.error _, c) => ([], c)
  | .acknowledge id kind now => c.acknowledge id kind now
  | .retry now => c.retry now
  | .recover now => c.recover now
  | .connected cleanSession now => c.connected cleanSession now
  | .cleanAll => ([], c.cleanAll)
  | .nextPacketId => ([], c.nextPacketId.2)
  | .releasePacketId id => ([], c.releasePacketId id)

/-- The messages that enter the window in a call, as they are sent. -/
def entered (c : Courier σ) : Call → List Packet
  | .enqueue m now => if m.isAcknowledged then (c.call (.enqueue m now)).1 else []
  | .acknowledge id kind now => if kind = .pubrec then [] else (c.acknowledge id kind now).1
  | .recover now | .connected false now =>
    (c.recover now).1.drop (c.restore now).window.toList.length
  | _ => []

/-- The packets that are taken up in a call. -/
def takenUp (c : Courier σ) (op : Call) : List Packet :=
  if op.restores && !c.restored then (c.restore op.time).window.toList.map Inflight.packet else []

/-- The packets that are sent in a call without a message entering the window. -/
def resent (c : Courier σ) : Call → List Packet
  | .enqueue m now => if m.isAcknowledged then [] else (c.call (.enqueue m now)).1
  | .acknowledge id kind now => if kind = .pubrec then (c.acknowledge id kind now).1 else []
  | .retry now => (c.retry now).1
  | .recover now | .connected false now => (c.restore now).window.toList.map Inflight.packet
  | _ => []

/-- What happens to a courier. -/
inductive Event where
  /-- A packet of the archive is taken up. -/
  | takenUp (p : Packet)
  /-- A message joins the queue. -/
  | queued (m : Publish)
  /-- A message enters the window and is sent for the first time. -/
  | entered (p : Packet)
  /-- A packet is sent without entering the window. -/
  | sent (p : Packet)
  /-- An acknowledgment comes that a packet in flight waits for. -/
  | acknowledged (id : UInt16) (kind : AckKind)
  /-- Everything is dropped. -/
  | cleaned
  /-- An identifier is handed out for a subscription. -/
  | lent (id : UInt16)
  /-- An identifier comes back. -/
  | returned (id : UInt16)
  deriving DecidableEq, Repr

namespace Event

/-- The packet that is sent. -/
def packet? : Event → Option Packet
  | entered p | sent p => some p
  | _ => none

/-- The packet of the message that enters the window. -/
def entry? : Event → Option Packet
  | entered p => some p
  | _ => none

/-- The packet that comes to light: it is taken up or sent. -/
def shown? : Event → Option Packet
  | takenUp p | entered p | sent p => some p
  | _ => none

end Event

/-- The packets that are sent in the course of events. -/
def packets (es : List Event) : List Packet :=
  es.filterMap Event.packet?

/-- The messages that enter the window in the course of events, as they are sent. -/
def entries (es : List Event) : List Packet :=
  es.filterMap Event.entry?

/-- The packets that come to light in the course of events. -/
def shown (es : List Event) : List Packet :=
  es.filterMap Event.shown?

/-- What calls for the other events of a call: what is asked of the courier, if it is done. -/
def prompts (c : Courier σ) : Call → List Event
  | .enqueue m now =>
    match (c.enqueue m now).1 with
    | .ok _ => if m.isAcknowledged then [.queued { m with dup := false, packetId := 0 }] else []
    | .error _ => []
  | .acknowledge id kind now =>
    if (splitAt? id kind (c.restore now).window.toList).isSome then [.acknowledged id kind] else []
  | .connected true _ | .cleanAll => [.cleaned]
  | .nextPacketId =>
    match c.nextPacketId.1 with
    | .ok id => [.lent id]
    | .error _ => []
  | .releasePacketId id => [.returned id]
  | _ => []

/-- What happens in a call, in order. -/
def events (c : Courier σ) (op : Call) : List Event :=
  (c.takenUp op).map .takenUp ++ c.prompts op ++ (c.resent op).map .sent ++
    (c.entered op).map .entered

/-- A courier before its first call, with a journal or without. -/
def initial (settings : Settings) : Option (Journal × σ) → Courier σ
  | none => volatile settings
  | some (j, s) => withJournal settings j s

/-- The courier after calls. -/
def after (c : Courier σ) : List Call → Courier σ
  | [] => c
  | op :: ops => (c.call op).2.after ops

/-- The packets that calls return, in order. -/
def returned (c : Courier σ) : List Call → List Packet
  | [] => []
  | op :: ops => (c.call op).1 ++ (c.call op).2.returned ops

/-- What happens in calls, in order. -/
def trace (c : Courier σ) : List Call → List Event
  | [] => []
  | op :: ops => c.events op ++ (c.call op).2.trace ops

section
omit [RecordStore σ]

/-- What is sent in two parts of the history comes one after the other. -/
@[simp]
lemma packets_append (es es' : List Event) : packets (es ++ es') = packets es ++ packets es' :=
  List.filterMap_append

/-- What enters in two parts of the history comes one after the other. -/
@[simp]
lemma entries_append (es es' : List Event) : entries (es ++ es') = entries es ++ entries es' :=
  List.filterMap_append

/-- Packets that are taken up are not sent. -/
@[simp]
lemma packets_takenUp (ps : List Packet) : packets (ps.map .takenUp) = [] := by
  rw [packets, List.filterMap_map]
  exact List.filterMap_eq_nil_iff.mpr fun _ _ => rfl

/-- Packets that are taken up do not enter the window as messages. -/
@[simp]
lemma entries_takenUp (ps : List Packet) : entries (ps.map .takenUp) = [] := by
  rw [entries, List.filterMap_map]
  exact List.filterMap_eq_nil_iff.mpr fun _ _ => rfl

/-- Packets that are sent are all told. -/
@[simp]
lemma packets_sent (ps : List Packet) : packets (ps.map .sent) = ps := by
  rw [packets, List.filterMap_map]
  exact List.filterMap_some

/-- Packets that are sent again do not enter the window. -/
@[simp]
lemma entries_sent (ps : List Packet) : entries (ps.map .sent) = [] := by
  rw [entries, List.filterMap_map]
  exact List.filterMap_eq_nil_iff.mpr fun _ _ => rfl

/-- Messages that enter the window are sent. -/
@[simp]
lemma packets_entered (ps : List Packet) : packets (ps.map .entered) = ps := by
  rw [packets, List.filterMap_map]
  exact List.filterMap_some

/-- Messages that enter the window are all told. -/
@[simp]
lemma entries_entered (ps : List Packet) : entries (ps.map .entered) = ps := by
  rw [entries, List.filterMap_map]
  exact List.filterMap_some

/-- What comes to light in two parts of the history comes one after the other. -/
@[simp]
lemma shown_append (es es' : List Event) : shown (es ++ es') = shown es ++ shown es' :=
  List.filterMap_append

/-- Packets that are taken up come to light. -/
@[simp]
lemma shown_takenUp (ps : List Packet) : shown (ps.map .takenUp) = ps := by
  rw [shown, List.filterMap_map]
  exact List.filterMap_some

/-- Packets that are sent come to light. -/
@[simp]
lemma shown_sent (ps : List Packet) : shown (ps.map .sent) = ps := by
  rw [shown, List.filterMap_map]
  exact List.filterMap_some

/-- Messages that enter the window come to light. -/
@[simp]
lemma shown_entered (ps : List Packet) : shown (ps.map .entered) = ps := by
  rw [shown, List.filterMap_map]
  exact List.filterMap_some

/-- What shows no packet sends none, and no message enters. -/
lemma packets_of_shown {es : List Event} (none : shown es = []) :
    packets es = [] ∧ entries es = [] := by
  simp only [shown, packets, entries, List.filterMap_eq_nil_iff] at none ⊢
  constructor
  · intro e mem
    have dark := none e mem
    cases e <;> first | rfl | cases dark
  · intro e mem
    have dark := none e mem
    cases e <;> first | rfl | cases dark

end

end MqttClient.Courier
