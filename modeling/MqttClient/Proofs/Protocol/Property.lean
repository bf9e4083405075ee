import MqttClient.Proofs.Wire.Items
import Mathlib.Tactic.Common

/-!
# Properties

A block of properties that was written is read again, whatever follows it.
-/

namespace MqttClient.Property

/-- Properties are written like other items. -/
lemma encodeAll_eq_encodeItems (ps : List Property) : encodeAll ps = encodeItems encode ps := by
  induction ps with
  | nil => rfl
  | cons p ps ih => rw [encodeAll, encodeItems, ih]

/-- The value of a property is read again behind its identifier. -/
lemma parseValue_encodeValue {p : Property} {bytes : Bytes} (h : p.encodeValue = .ok bytes)
    (rest : Bytes) : parseValue p.kind (bytes ++ rest) = .ok (p, rest) := by
  cases p with
  | byte name value =>
    cases h
    rfl
  | word16 name value =>
    cases h
    exact Parse.bind_apply (Parse.word16_eq_ok_iff.mpr rfl) _
  | word32 name value =>
    cases h
    exact Parse.bind_apply (Parse.word32_eq_ok_iff.mpr rfl) _
  | subscriptionIdentifier value => exact Parse.bind_apply (Parse.varInt_encode h rest) _
  | text name value => exact Parse.bind_apply (Parse.text_eq_ok_iff.mpr ⟨bytes, h, rfl⟩) _
  | binary name value => exact Parse.bind_apply (Parse.binary_eq_ok_iff.mpr ⟨bytes, h, rfl⟩) _
  | user key value =>
    simp only [encodeValue, WireError.bind_eq_ok_iff, WireError.pure_eq_ok_iff] at h
    obtain ⟨b, hb, b', hb', rfl⟩ := h
    rw [List.append_assoc, kind, parseValue]
    rw [Parse.bind_apply (Parse.text_eq_ok_iff.mpr ⟨b, hb, rfl⟩)]
    exact Parse.bind_apply (Parse.text_eq_ok_iff.mpr ⟨b', hb', rfl⟩) _

/-- A property that was written takes a byte at least and is read again. -/
lemma parse_encode {p : Property} {bytes : Bytes} (h : p.encode = .ok bytes) :
    bytes ≠ [] ∧ ∀ rest, parse (bytes ++ rest) = .ok (p, rest) := by
  simp only [encode, WireError.bind_eq_ok_iff, WireError.pure_eq_ok_iff] at h
  obtain ⟨value, hv, rfl⟩ := h
  refine ⟨List.cons_ne_nil _ _, fun rest => ?_⟩
  rw [List.cons_append, parse, Parse.bind_apply (Parse.byte_eq_ok_iff.mpr rfl),
    Kind.ofIdentifier?_identifier]
  exact parseValue_encodeValue hv rest

/-- A block has the size of its properties in front. -/
lemma encodeBlock_ne_nil {ps : List Property} {bytes : Bytes} (h : encodeBlock ps = .ok bytes) :
    bytes ≠ [] := by
  simp only [encodeBlock, WireError.bind_eq_ok_iff, WireError.pure_eq_ok_iff] at h
  obtain ⟨block, _, size, hsize, rfl⟩ := h
  obtain ⟨_, enc⟩ := Field.count_eq_ok_iff.mp hsize
  have pos := (VarInt.spells_of_encode enc).1.length_pos
  intro e
  rw [(List.append_eq_nil_iff.mp e).1] at pos
  exact absurd pos (Nat.lt_irrefl 0)

/-- A block that was written is read again. -/
lemma parseBlock_encodeBlock {ps : List Property} {bytes : Bytes} (h : encodeBlock ps = .ok bytes)
    (rest : Bytes) : parseBlock (bytes ++ rest) = .ok (ps, rest) := by
  simp only [encodeBlock, WireError.bind_eq_ok_iff, WireError.pure_eq_ok_iff] at h
  obtain ⟨block, hblock, size, hsize, rfl⟩ := h
  obtain ⟨n, read, hn⟩ := Parse.varInt_count hsize (block ++ rest)
  rw [encodeAll_eq_encodeItems] at hblock
  rw [List.append_assoc, parseBlock, Parse.bind_apply read,
    Parse.bind_apply (Parse.take_eq_ok_iff.mpr ⟨rfl, hn.symm⟩)]
  exact Parse.lift_eq_ok_iff.mpr
    ⟨Parse.items_encodeItems (fun p _ _ hp => parse_encode hp) hblock, rfl⟩

/-- In version 3.1.1 no properties are written, and there must be none. -/
lemma eq_nil_of_encodeFor_v311 {ps : List Property} {bytes : Bytes}
    (h : encodeFor .v311 ps = .ok bytes) : ps = [] ∧ bytes = [] := by
  simp only [encodeFor] at h
  split at h
  · rename_i empty
    cases h
    exact ⟨List.isEmpty_iff.mp empty, rfl⟩
  · cases h

/-- The properties of a packet are read again in the version they were written in. -/
lemma parseFor_encodeFor {v : Version} {ps : List Property} {bytes : Bytes}
    (h : encodeFor v ps = .ok bytes) (rest : Bytes) :
    parseFor v (bytes ++ rest) = .ok (ps, rest) := by
  cases v with
  | v5 => exact parseBlock_encodeBlock h rest
  | v311 =>
    obtain ⟨rfl, rfl⟩ := eq_nil_of_encodeFor_v311 h
    rfl

end MqttClient.Property
