import MqttClient.Proofs.Packet.Refusal
import Mathlib.Tactic.Common

/-!
# Packets in the eyes of another version

The bytes of a packet do not tell in which version it was written. In the layout of messages the
versions differ only behind the identifier, where version 5.0 has a block of properties in front of
the payload: a reader of the other version takes the block for payload, or the beginning of the
payload for a block. Releases mean the same in both versions if they are read at all.
-/

namespace MqttClient
variable {v w : Version}

/-- Whether a message of version `v` is another one to a reader of version `w`: they are the same
up to where behind the identifier the properties end and the payload begins. -/
structure Publish.IsReadAs (v w : Version) (m m' : Publish) : Prop where
  dup : m'.dup = m.dup
  qos : m'.qos = m.qos
  retain : m'.retain = m.retain
  topic : m'.topic = m.topic
  packetId : m'.packetId = m.packetId
  rest : ∃ block, Property.encodeFor v m.properties = .ok block ∧
    Property.parseFor w (block ++ m.payload) = .ok (m'.properties, m'.payload)

/-- Whether two acknowledgments are the same up to the extent in which they are written. -/
structure Ack.SaysAs (a a' : Ack) : Prop where
  packetId : a'.packetId = a.packetId
  reason : a'.outcome.reason = a.outcome.reason
  properties : a'.outcome.properties = a.outcome.properties

/-- Whether a stored packet of version `v` is another one to a reader of version `w`. -/
inductive Packet.IsReadAs (v w : Version) : Packet → Packet → Prop where
  | publish {m m' : Publish} : m.IsReadAs v w m' → IsReadAs v w (.publish m) (.publish m')
  | pubrel {a a' : Ack} : a.SaysAs a' → IsReadAs v w (.pubrel a) (.pubrel a')

namespace Publish
variable {m m' : Publish} {body rest : Bytes}

/-- What another version reads off the body of a message is told by `IsReadAs`. -/
lemma isReadAs_of_parseBody (acknowledged : m.isAcknowledged = true)
    (written : m.encodeBody v = .ok body) (read : parseBody m.header w body = .ok (m', rest)) :
    m.IsReadAs v w m' := by
  simp only [encodeBody, WireError.bind_eq_ok_iff, WireError.pure_eq_ok_iff] at written
  obtain ⟨_, -, topic, htopic, block, hblock, rfl⟩ := written
  obtain ⟨-, qos, dup, retain⟩ := m.header_marks
  have marked : m.qos ≠ .atMostOnce := of_decide_eq_true acknowledged
  simp only [List.append_assoc] at read
  rw [parseBody, Parse.bind_apply (Parse.lift_eq_ok_iff.mpr ⟨qos, rfl⟩),
    Parse.bind_apply (Parse.text_eq_ok_iff.mpr ⟨topic, htopic, rfl⟩), if_neg marked,
    if_pos acknowledged, Parse.bind_apply (Parse.word16_eq_ok_iff.mpr rfl)] at read
  -- up to here both versions read the same, and now comes the block or the payload
  obtain ⟨properties, _, front, read⟩ := Parse.bind_eq_ok_iff.mp read
  obtain ⟨payload, _, back, read⟩ := Parse.bind_eq_ok_iff.mp read
  obtain ⟨_, _, -, last⟩ := Parse.bind_eq_ok_iff.mp read
  obtain ⟨rfl, -⟩ := Parse.pure_eq_ok_iff.mp last
  obtain ⟨rfl, -⟩ := Parse.remainder_eq_ok_iff.mp back
  exact ⟨dup, rfl, retain, rfl, rfl, block, hblock, front⟩

end Publish

namespace Outcome
variable {o o' : Outcome} {bytes rest : Bytes}

/-- Only success without properties is written as nothing. -/
lemma isPlain_of_encodeFor_nil (h : o.encodeFor v = .ok []) : o.isPlain = true := by
  cases v with
  | v311 =>
    by_contra laden
    rw [encodeFor, if_neg laden] at h
    cases h
  | v5 =>
    change o.encode = .ok [] at h
    unfold encode at h
    split at h
    · rename_i minimal
      rw [eq_of_sup_eq_minimal minimal]
      rfl
    · cases h
    · obtain ⟨block, -, written⟩ := WireError.bind_eq_ok_iff.mp h
      cases written

/-- Readers of different versions agree on an outcome only if it is written as nothing. -/
lemma eq_nil_of_parseFor (ne : v ≠ w) (written : o.encodeFor v = .ok bytes)
    (read : parseFor w bytes = .ok (o', rest)) : bytes = [] := by
  cases v with
  | v311 =>
    rw [encodeFor] at written
    split at written
    · cases written
      rfl
    · cases written
  | v5 =>
    cases w with
    | v5 => exact absurd rfl ne
    | v311 =>
      obtain ⟨_, _, finished, -⟩ := Parse.bind_eq_ok_iff.mp read
      exact (Parse.finish_eq_ok_iff.mp finished).1

/-- No reader sees another reason or other properties. -/
lemma same_of_parseFor (written : o.encodeFor v = .ok bytes)
    (read : parseFor w bytes = .ok (o', rest)) :
    o'.reason = o.reason ∧ o'.properties = o.properties := by
  by_cases same : v = w
  · subst same
    cases fault : o.fault? v with
    | some e =>
      rw [parseFor_of_fault? written fault] at read
      cases read
    | none =>
      rw [parseFor_encodeFor written (fault?_eq_none_iff.mp fault)] at read
      cases read
      exact ⟨rfl, rfl⟩
  · obtain rfl := eq_nil_of_parseFor same written read
    obtain ⟨reason, properties⟩ := isPlain_iff.mp (isPlain_of_encodeFor_nil written)
    have empty : parseFor w [] = .ok ({}, []) := by cases w <;> rfl
    rw [empty] at read
    cases read
    exact ⟨reason.symm, properties.symm⟩

end Outcome

/-- What another version reads off an acknowledgment says the same. -/
lemma Ack.saysAs_of_parseBody {a a' : Ack} {body rest : Bytes} (written : a.encodeBody v = .ok body)
    (read : parseBody w body = .ok (a', rest)) : a.SaysAs a' := by
  simp only [encodeBody, WireError.bind_eq_ok_iff, WireError.pure_eq_ok_iff,
    checkPacketId_eq_ok_iff] at written
  obtain ⟨_, ⟨ne, rfl⟩, outcome, written, rfl⟩ := written
  rw [parseBody, Parse.bind_apply (Parse.packetId_word16 ne _)] at read
  obtain ⟨outcome', _, seen, last⟩ := Parse.bind_eq_ok_iff.mp read
  obtain ⟨rfl, -⟩ := Parse.pure_eq_ok_iff.mp last
  obtain ⟨reason, properties⟩ := Outcome.same_of_parseFor written seen
  exact ⟨rfl, reason, properties⟩

end MqttClient
