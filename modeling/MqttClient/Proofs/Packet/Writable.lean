import MqttClient.Proofs.Packet.Canonical
import Mathlib.Tactic.Common

/-!
# Packets that can be written

Whether a message can be written depends neither on its mark of being sent before nor on which
identifier it has, so a message that can be written once can be written each time it is sent.
Releases can always be written, and so can what was read.
-/

namespace MqttClient
variable {v : Version}

/-- Whether a packet can be written. -/
def Packet.IsWritable (v : Version) (p : Packet) : Prop :=
  ∃ bytes, p.encode v = .ok bytes

/-- The size of the body of a message whose block of properties has the given bytes. -/
def Publish.bodySize (m : Publish) (block : Bytes) : Nat :=
  2 + (Bytes.ofText m.topic).length + (if m.isAcknowledged then 2 else 0) + block.length +
    m.payload.length

/-- Whether a message can be written, once it has an identifier if it needs one. -/
structure Publish.IsWritable (v : Version) (m : Publish) : Prop where
  topic_ne : m.topic ≠ ""
  topic_lt : (Bytes.ofText m.topic).length < 65536
  /-- The version has a place for the properties, and the size of the body can be told. -/
  block : ∃ block, Property.encodeFor v m.properties = .ok block ∧
    m.bodySize block ≤ VarInt.maxValue.toNat

/-- A message passes its check if it has a topic and, where it needs one, an identifier. -/
lemma Publish.check_eq_ok_iff {m : Publish} :
    m.check = .ok () ↔ m.topic ≠ "" ∧ (m.isAcknowledged = true → m.packetId ≠ 0) := by
  unfold check
  split
  · simp_all
  · split <;> simp_all

/-- A message is written as its topic, its identifier if it needs one, its properties and its
payload. -/
lemma Publish.encodeBody_eq_ok_iff {m : Publish} {body : Bytes} :
    m.encodeBody v = .ok body ↔
      m.topic ≠ "" ∧ (m.isAcknowledged = true → m.packetId ≠ 0) ∧
        (Bytes.ofText m.topic).length < 65536 ∧
        ∃ block, Property.encodeFor v m.properties = .ok block ∧
          body = Field.word16 (.ofNat (Bytes.ofText m.topic).length) ++ Bytes.ofText m.topic ++
            (if m.isAcknowledged then Field.word16 m.packetId else []) ++ block ++ m.payload := by
  simp only [encodeBody, WireError.bind_eq_ok_iff, WireError.pure_eq_ok_iff, Field.text,
    Field.binary_eq_ok_iff]
  constructor
  · rintro ⟨_, checked, _, ⟨short, rfl⟩, block, written, rfl⟩
    obtain ⟨named, identified⟩ := check_eq_ok_iff.mp checked
    exact ⟨named, identified, short, block, written, rfl⟩
  · rintro ⟨named, identified, short, block, written, rfl⟩
    exact ⟨(), check_eq_ok_iff.mpr ⟨named, identified⟩, _, ⟨short, rfl⟩, block, written, rfl⟩

namespace Packet

/-- A packet is written exactly if its body is, and is not too large. -/
lemma isWritable_iff {p : Packet} :
    p.IsWritable v ↔ ∃ body, p.encodeBody v = .ok body ∧ body.length ≤ VarInt.maxValue.toNat := by
  simp only [IsWritable, encode_eq_ok_iff, ← Field.exists_count_iff]
  constructor
  · rintro ⟨_, body, size, written, count, -⟩
    exact ⟨body, written, size, count⟩
  · rintro ⟨body, written, size, count⟩
    exact ⟨_, body, size, written, count, rfl⟩

/-- Of the identifier of a message matters only whether it has the one that it needs. -/
theorem isWritable_publish_iff {m : Publish} :
    (publish m).IsWritable v ↔
      m.IsWritable v ∧ (m.isAcknowledged = true → m.packetId ≠ 0) := by
  have size (block : Bytes) :
      (Field.word16 (.ofNat (Bytes.ofText m.topic).length) ++ Bytes.ofText m.topic ++
        (if m.isAcknowledged then Field.word16 m.packetId else []) ++ block ++ m.payload).length =
        m.bodySize block := by
    simp only [Publish.bodySize, List.length_append, Field.length_word16, apply_ite List.length,
      List.length_nil]
  rw [isWritable_iff]
  constructor
  · rintro ⟨body, written, le⟩
    obtain ⟨named, identified, short, block, properties, rfl⟩ :=
      Publish.encodeBody_eq_ok_iff.mp written
    rw [size] at le
    exact ⟨⟨named, short, block, properties, le⟩, identified⟩
  · rintro ⟨⟨named, short, block, properties, le⟩, identified⟩
    refine ⟨_, Publish.encodeBody_eq_ok_iff.mpr
      ⟨named, identified, short, block, properties, rfl⟩, ?_⟩
    rwa [size]

/-- The mark of being sent before makes no difference. -/
lemma isWritable_publish_withDup {m : Publish} (dup : Bool) :
    (publish { m with dup }).IsWritable v ↔ (publish m).IsWritable v := by
  rw [isWritable_publish_iff, isWritable_publish_iff]
  constructor <;> exact fun h => ⟨⟨h.1.topic_ne, h.1.topic_lt, h.1.block⟩, h.2⟩

/-- A release of an identifier that is not zero is always written. -/
lemma isWritable_pubrel {id : UInt16} (ne : id ≠ 0) :
    (pubrel { packetId := id }).IsWritable v := by
  rw [isWritable_iff]
  refine ⟨Field.word16 id, ?_, ?_⟩
  · change (checkPacketId id >>= fun id => _) = _
    rw [checkPacketId_eq_ok_iff.mpr ⟨ne, rfl⟩]
    cases v <;> exact congrArg Except.ok (List.append_nil _)
  · rw [Field.length_word16]
    decide

/-- What was read can be written, and is read as it is. -/
lemma isWritable_of_decodeFirst {bytes : Bytes} {p : Packet} {n : Nat}
    (h : decodeFirst bytes v = .ok (some (p, n))) : p.IsWritable v ∧ p.readBack v = p := by
  obtain ⟨header, rest, size, used, body, suffix, rfl, decoded, -, len, whole, rfl⟩ :=
    decodeFirst_eq_ok h
  obtain ⟨t, type, whole⟩ := WireError.bind_eq_ok_iff.mp whole
  obtain ⟨_, check, whole⟩ := WireError.bind_eq_ok_iff.mp whole
  obtain ⟨left, read⟩ : ∃ left, parseBody ⟨header⟩ v t body = .ok (p, left) := by
    change Except.map Prod.fst (parseBody ⟨header⟩ v t body) = .ok p at whole
    cases read : parseBody ⟨header⟩ v t body with
    | error e =>
      rw [read] at whole
      cases whole
    | ok found =>
      rw [read] at whole
      cases whole
      exact ⟨found.2, rfl⟩
  obtain ⟨-, -, same, c, found, left, written, -, short⟩ := recodes type check read
  -- a body that shrinks needs no longer a size in front
  obtain ⟨s, count, -⟩ := short.count decoded len
  exact ⟨⟨_, encode_eq_ok_iff.mpr ⟨c, s, written, count, rfl⟩⟩, same⟩

/-- A message that was read has an identifier only if it waits for an acknowledgment. -/
lemma isAcknowledged_of_decodeFirst {bytes : Bytes} {m : Publish} {n : Nat}
    (h : decodeFirst bytes v = .ok (some (publish m, n))) (named : m.packetId ≠ 0) :
    m.isAcknowledged = true := by
  have same : m.readBack = m := Packet.publish.inj (isWritable_of_decodeFirst h).2
  unfold Publish.readBack at same
  split at same
  · assumption
  · exact absurd (congrArg Publish.packetId same).symm named

end Packet
end MqttClient
