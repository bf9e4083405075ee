import MqttClient.Proofs.Delivery.Discipline
import MqttClient.Store.Table
import Mathlib.Tactic.Common

/-!
# What an acknowledgment touches

An acknowledgment is about one handshake. If no packet waits for it nothing changes at all.
Otherwise one packet does, and no other has its identifier: a release takes its place, or it leaves
the window and its identifier is free again. All other packets in flight stay as they are, in their
order, and only messages from the front of the queue come after them.
-/

namespace MqttClient

/-- Which packets wait for which acknowledgments. -/
inductive Packet.WaitsFor : Packet → AckKind → Prop where
  | puback {m : Publish} :
    m.qos = .atLeastOnce →
    WaitsFor (.publish m) .puback
  | pubrec {m : Publish} :
    m.qos = .exactlyOnce →
    WaitsFor (.publish m) .pubrec
  | pubcomp {a : Ack} :
    WaitsFor (.pubrel a) .pubcomp

/-- What waits for an acknowledgment is stored under its identifier. -/
lemma Packet.WaitsFor.slot? {e : Inflight} {kind : AckKind} (waits : e.packet.WaitsFor kind) :
    ∃ k, Record.slot? e.packet = some (k, e.packetId) := by
  obtain ⟨packet, lastSent⟩ := e
  have stored {m : Publish} (acknowledged : m.isAcknowledged = true) :
      Record.slot? (.publish m) = some (.message, m.packetId) := if_pos acknowledged
  cases waits with
  | puback qos =>
    rw [Inflight.packetId_publish]
    exact ⟨.message, stored (by rw [Publish.isAcknowledged, qos]; rfl)⟩
  | pubrec qos =>
    rw [Inflight.packetId_publish]
    exact ⟨.message, stored (by rw [Publish.isAcknowledged, qos]; rfl)⟩
  | pubcomp => exact ⟨.release, rfl⟩

namespace Courier
variable {σ : Type}

/-- The packets of messages that enter the window, each under the identifier that it is given. -/
def entering (moved : List (Publish × UInt16)) : List Packet :=
  moved.map fun x => .publish { x.1 with packetId := x.2 }

variable [RecordStore σ] {c c' : Courier σ} {now : Instant} {moved : List (Publish × UInt16)}

/-- Whether a courier is another one after messages entered the window from the front of the queue,
each under an identifier that was free, and were kept in the archive in their order. -/
structure Admits (now : Instant) (c : Courier σ) (moved : List (Publish × UInt16))
    (c' : Courier σ) : Prop where
  queue : c.queue.toList = moved.map Prod.fst ++ c'.queue.toList
  window : c'.window.toList = c.window.toList ++ (entering moved).map (⟨·, now⟩)
  free : ∀ i ∈ moved.map Prod.snd, c.ids.contains i = false
  ids : ∀ i, c'.ids.contains i = true ↔ c.ids.contains i = true ∨ i ∈ moved.map Prod.snd
  archive : c'.archive = (entering moved).foldl (fun a p => a.save p) c.archive

namespace Admits

/-- No message enters, and nothing changes. -/
lemma refl (now : Instant) (c : Courier σ) : Admits now c [] c :=
  ⟨rfl, (List.append_nil _).symm, List.forall_mem_nil _,
    fun _ => (or_iff_left List.not_mem_nil).symm, rfl⟩

/-- One message enters the window before the others. -/
lemma cons {m : Publish} {queue : Fifo Publish} {id : UInt16} {ids : IdPool}
    (free : c.ids.allocate? = some (id, ids)) (first : c.queue.pop? = some (m, queue))
    (rest : Admits now { c with
      queue
      ids
      archive := c.archive.save (.publish { m with packetId := id })
      window := c.window.push ⟨.publish { m with packetId := id }, now⟩ } moved c') :
    Admits now c ((m, id) :: moved) c' := by
  obtain ⟨unused, contains⟩ := IdPool.allocate?_eq_some free
  refine ⟨?_, ?_, ?_, ?_, rest.archive⟩
  · rw [Fifo.toList_of_pop? first, rest.queue]
    rfl
  · rw [rest.window, Fifo.toList_push, List.append_assoc]
    rfl
  · rw [List.map_cons, List.forall_mem_cons]
    refine ⟨unused, fun i mem => ?_⟩
    -- what is free once an identifier was taken was free before
    have still := rest.free i mem
    rw [Bool.eq_false_iff, Ne, contains, not_or] at still
    exact Bool.eq_false_iff.mpr still.2
  · intro i
    rw [rest.ids i, contains, List.map_cons, List.mem_cons]
    tauto

end Admits

end Courier
end MqttClient
