import MqttClient.Proofs.Protocol.Property
import MqttClient.Proofs.Wire.Local
import Mathlib.Tactic.Common

/-!
# Blocks of properties

The properties of a packet are read from their own block. What follows the block does not change
them, and they leave exactly what follows it. A property that begins in the block and ends behind
it is a fault, even if the bytes behind it would make up for it.
-/

namespace MqttClient.Property

/-- Reading the value of a property looks at this value only. -/
lemma isLocal_parseValue (kind : Kind) : (parseValue kind).IsLocal := by
  cases kind with
  | byte name => exact Parse.isLocal_byte.bind fun _ => Parse.isLocal_pure _
  | word16 name => exact Parse.isLocal_word16.bind fun _ => Parse.isLocal_pure _
  | word32 name => exact Parse.isLocal_word32.bind fun _ => Parse.isLocal_pure _
  | subscriptionIdentifier => exact Parse.isLocal_varInt.bind fun _ => Parse.isLocal_pure _
  | text name => exact Parse.isLocal_text.bind fun _ => Parse.isLocal_pure _
  | binary name => exact Parse.isLocal_binary.bind fun _ => Parse.isLocal_pure _
  | user =>
    exact Parse.isLocal_text.bind fun _ => Parse.isLocal_text.bind fun _ => Parse.isLocal_pure _

/-- Reading a property looks at this property only. -/
lemma isLocal_parse : parse.IsLocal := by
  refine Parse.isLocal_byte.bind fun identifier => ?_
  split
  · exact isLocal_parseValue _
  · exact Parse.isLocal_throw _

/-- What is read of a block behind its size, whatever follows it. -/
lemma parseBlock_append {groups block : Bytes} {n : UInt32} (sp : VarInt.Spells groups n.toNat)
    (few : groups.length ≤ VarInt.maxSize) (len : block.length = n.toNat) (suffix : Bytes) :
    parseBlock (groups ++ block ++ suffix) =
      (Parse.items parse block).map fun ps => (ps, suffix) := by
  have decoded := VarInt.decode_append sp few (block ++ suffix)
  rw [UInt32.ofNat_toNat] at decoded
  have size := Parse.varInt_eq_ok_iff.mpr ⟨_, decoded, (List.drop_left ..).symm⟩
  rw [List.append_assoc, parseBlock, Parse.bind_apply size,
    Parse.bind_apply (Parse.take_eq_ok_iff.mpr ⟨rfl, len⟩)]
  cases Parse.items parse block <;> rfl

/-- A fault in a block is one of the first property that cannot be read. -/
lemma items_of_error {front tail : Bytes} {ps : List Property} {e : WireError}
    (read : Parse.items parse front = .ok ps) (ne : tail ≠ []) (fault : parse tail = .error e) :
    Parse.items parse (front ++ tail) = .error e := by
  rw [Parse.items, List.length_append, ← Nat.sub_add_cancel (List.length_pos_iff.mpr ne)]
  exact isLocal_parse.itemsWithin_append read ne fault (tail.length - 1)

/-- Properties that were written are read again in their order, and what follows them is left. Of a
block that is there with all its bytes, what is read does not depend on what follows it, and exactly
this is left. Where properties have been read and the block goes on, a fault of the next one is the
fault of the block, and if it ends behind the last byte of the block the block is truncated. -/
theorem parseBlock_isolated :
    (∀ ps block, encodeBlock ps = .ok block →
      ∀ suffix, parseBlock (block ++ suffix) = .ok (ps, suffix)) ∧
    ∀ (input : Bytes) n used, VarInt.decode input = .ok (some (n, used)) →
      used + n.toNat ≤ input.length →
        (∀ suffix, parseBlock (input.take (used + n.toNat) ++ suffix) =
          (parseBlock (input.take (used + n.toNat))).map fun r => (r.1, suffix)) ∧
        (∀ ps rest, parseBlock input = .ok (ps, rest) → rest = input.drop (used + n.toNat)) ∧
        ∀ front tail ps, (input.drop used).take n.toNat = front ++ tail → tail ≠ [] →
          Parse.items parse front = .ok ps →
            (∀ e, parse tail = .error e → parseBlock input = .error e) ∧
            ∀ more p left, parse (tail ++ more) = .ok (p, left) → left.length < more.length →
              parseBlock input = .error .truncated := by
  refine ⟨fun ps block written => parseBlock_encodeBlock written,
    fun input n used decoded fits => ?_⟩
  obtain ⟨groups, rest, rfl, sp, rfl, few⟩ := VarInt.spells_of_decode decoded
  rw [List.length_append] at fits
  have len : (rest.take n.toNat).length = n.toNat := List.length_take_of_le (by omega)
  -- what is read is told by the block alone; the rest is left
  have read := parseBlock_append sp few len
  have alone := read []
  have whole := read (rest.drop n.toNat)
  rw [List.append_nil] at alone
  rw [List.append_assoc, List.take_append_drop] at whole
  rw [List.take_length_add_append, List.drop_length_add_append, List.drop_left]
  refine ⟨fun suffix => ?_, fun ps left done => ?_, fun front tail ps cut ne done => ?_⟩
  · rw [read, alone]
    cases Parse.items parse (rest.take n.toNat) <;> rfl
  · rw [whole] at done
    cases found : Parse.items parse (rest.take n.toNat) with
    | error e =>
      rw [found] at done
      cases done
    | ok qs =>
      rw [found] at done
      cases done
      rfl
  · have faulty {e : WireError} (fault : parse tail = .error e) :
        parseBlock (groups ++ rest) = .error e := by
      rw [whole, cut, items_of_error done ne fault]
      rfl
    exact ⟨fun e => faulty, fun more p left next less => faulty (isLocal_parse.beyond next less)⟩

/-- A block whose second property is longer than the block says, with all its bytes behind it. -/
theorem parseBlock_isolated_binary :
    let input : Bytes := [0x05, 0x01, 0x01, 0x09, 0x00, 0x02, 0xAA, 0xBB]
    VarInt.decode input = .ok (some (5, 1)) ∧
      parse (input.drop 3) = .ok (.binary .correlationData [0xAA, 0xBB], []) ∧
      parseBlock input = .error .truncated := by
  intro input
  have decoded : VarInt.decode input = .ok (some (5, 1)) := rfl
  have next : parse (input.drop 3) = .ok (.binary .correlationData [0xAA, 0xBB], []) := rfl
  obtain ⟨-, -, inside⟩ := parseBlock_isolated.2 input 5 1 decoded (by decide)
  obtain ⟨-, beyond⟩ := inside [0x01, 0x01] [0x09, 0x00, 0x02] [.byte .payloadFormatIndicator 1]
    rfl (by decide) rfl
  exact ⟨decoded, next, beyond [0xAA, 0xBB] _ [] next (by decide)⟩

end MqttClient.Property
