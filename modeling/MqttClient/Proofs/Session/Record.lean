import MqttClient.Session.Record
import MqttClient.Proofs.Packet.Canonical
import Mathlib.Tactic.Common

/-!
# Records

A record is read as it was written: with its place, and with its packet as packets are read again.
-/

namespace MqttClient

/-- Whether a packet that was written is read again as the packet itself. -/
structure Packet.IsStable (v : Version) (p : Packet) : Prop where
  admitted : p.Admitted v
  readBack_eq : p.readBack v = p

/-- What was read of a packet is read again as it is. -/
lemma Packet.isStable_readBack {v : Version} {p : Packet} (h : p.Admitted v) :
    (p.readBack v).IsStable v :=
  ⟨h.readBack, readBack_readBack v p⟩

/-- A message that waits for an acknowledgment is read again as it is. -/
lemma Packet.isStable_publish {v : Version} {m : Publish} (h : m.isAcknowledged = true) :
    (Packet.publish m).IsStable v :=
  ⟨trivial, congrArg publish (if_pos h)⟩

/-- A release without a reason is read again as it is. -/
lemma Packet.isStable_pubrel (v : Version) (id : UInt16) :
    (Packet.pubrel { packetId := id }).IsStable v := by
  refine ⟨fun _ => rfl, ?_⟩
  cases v <;> rfl

namespace Record

/-- A record that was written is found undamaged, so that only its packet is left to be read. -/
lemma decode?_encode_eq (seq : UInt64) (bytes : Bytes) (v : Version) :
    decode? (encode seq bytes) v =
      match Packet.decodeFirst bytes v with
      | .ok (some (p, used)) => if used = bytes.length then some ⟨seq, p⟩ else none
      | _ => none := by
  have front (n : Nat) : (Bytes.bigEndian 4 n).length = 4 := Bytes.length_bigEndian 4 n
  have middle : (Bytes.bigEndian 8 seq.toNat).length = 8 := Bytes.length_bigEndian 8 seq.toNat
  have small : seq.toNat < 256 ^ 8 := seq.toNat_lt
  have place : UInt64.ofNat (Bytes.toNat (Bytes.bigEndian 8 seq.toNat)) = seq := by
    rw [Bytes.toNat_bigEndian, Nat.mod_eq_of_lt small, UInt64.ofNat_toNat]
  unfold decode? encode
  simp only [List.drop_left' (front _), List.take_left' (front _), List.drop_left' middle,
    List.take_left' middle, place, List.length_append, middle, ne_eq, not_true_eq_false, if_false]
  have long : ¬ 8 + bytes.length < 8 := by omega
  refine (if_neg long).trans ?_
  rcases Packet.decodeFirst bytes v with _ | _ | _ <;> rfl

/-- What is found in a record is the packet as it is read again. -/
lemma decode?_encode_readBack {v : Version} {p : Packet} {bytes : Bytes} (seq : UInt64)
    (h : p.encode v = .ok bytes) (admitted : p.Admitted v) :
    decode? (encode seq bytes) v = some ⟨seq, p.readBack v⟩ := by
  have read := Packet.decodeFirst_encode_append h admitted []
  rw [List.append_nil] at read
  rw [decode?_encode_eq, read]
  exact if_pos rfl

/-- A packet is read from a record that was written if the bytes are those of the packet. -/
lemma exists_decode?_encode_iff {seq : UInt64} {bytes : Bytes} {v : Version} {p : Packet} :
    (∃ r, decode? (encode seq bytes) v = some r ∧ r.packet = p) ↔
      Packet.decodeFirst bytes v = .ok (some (p, bytes.length)) := by
  rw [decode?_encode_eq]
  constructor
  · rintro ⟨r, decoded, rfl⟩
    split at decoded
    · rename_i q used read
      split at decoded
      · rename_i whole
        cases decoded
        rw [read, whole]
      · cases decoded
    · cases decoded
  · intro read
    rw [read]
    exact ⟨⟨seq, p⟩, if_pos rfl, rfl⟩

/-- A packet that is stored is a message that waits for an acknowledgment, or a release. -/
lemma slot?_eq_some_iff {p : Packet} {kind : Kind} {id : UInt16} :
    slot? p = some (kind, id) ↔
      (∃ m, p = .publish m ∧ m.isAcknowledged = true ∧ kind = .message ∧ m.packetId = id) ∨
        ∃ a, p = .pubrel a ∧ kind = .release ∧ a.packetId = id := by
  cases p with
  | publish m =>
    simp only [slot?, Packet.publish.injEq, reduceCtorEq, false_and, exists_false, or_false]
    constructor
    · intro h
      split at h
      · rename_i acknowledged
        cases h
        exact ⟨m, rfl, acknowledged, rfl, rfl⟩
      · cases h
    · rintro ⟨_, rfl, acknowledged, rfl, rfl⟩
      rw [if_pos acknowledged]
  | pubrel a =>
    simp only [slot?, Packet.pubrel.injEq, reduceCtorEq, false_and, exists_false, false_or]
    constructor
    · intro h
      cases h
      exact ⟨a, rfl, rfl, rfl⟩
    · rintro ⟨_, rfl, rfl, rfl⟩
      rfl
  | _ => simp [slot?]

/-- A packet belongs in the same slot when it is read again. -/
lemma slot?_readBack (v : Version) (p : Packet) : slot? (p.readBack v) = slot? p := by
  cases p with
  | publish m =>
    change slot? (.publish m.readBack) = slot? (.publish m)
    unfold Publish.readBack
    split
    · rfl
    · rename_i other
      exact (if_neg other).trans (if_neg other).symm
  | _ => rfl

/-- Whether a packet belongs in a slot, and is there as it is read. -/
structure Fits (v : Version) (kind : Kind) (id : UInt16) (p : Packet) : Prop where
  slot : slot? p = some (kind, id)
  stable : p.IsStable v
  ne_zero : id ≠ 0

/-- A packet that belongs in a slot has the identifier of the slot. -/
lemma Fits.packetId? {v : Version} {p : Packet} {kind : Kind} {id : UInt16} (h : Fits v kind id p) :
    p.packetId? = some id := by
  obtain ⟨m, rfl, -, -, rfl⟩ | ⟨a, rfl, -, rfl⟩ := slot?_eq_some_iff.mp h.slot
  · exact if_neg h.ne_zero
  · rfl

/-- A packet that is stored and can be written has an identifier other than zero. -/
lemma ne_zero_of_encode {v : Version} {p : Packet} {kind : Kind} {id : UInt16} {bytes : Bytes}
    (h : slot? p = some (kind, id)) (written : p.encode v = .ok bytes) : id ≠ 0 := by
  obtain ⟨body, -, hbody, -, -⟩ := Packet.encode_eq_ok_iff.mp written
  obtain ⟨m, rfl, acknowledged, -, rfl⟩ | ⟨a, rfl, -, rfl⟩ := slot?_eq_some_iff.mp h
  · obtain ⟨_, check, -⟩ := WireError.bind_eq_ok_iff.mp hbody
    intro zero
    simp only [Publish.check, zero, acknowledged] at check
    split at check <;> cases check
  · obtain ⟨_, check, -⟩ := WireError.bind_eq_ok_iff.mp hbody
    exact (checkPacketId_eq_ok_iff.mp check).1

end Record
end MqttClient
