import MqttClient.Proofs.Packet.RoundTrip
import MqttClient.Proofs.Wire.Shortest
import Mathlib.Tactic.Common

/-!
# Writing what was read

A packet that was read can be written again, and the bytes are the ones that it was read from, but
for variable byte integers that were longer than they need be. Such integers are the size of a
packet, the size of a block of properties and the value of a subscription identifier.
-/

namespace MqttClient

/-- What holds of the 256 bytes holds of each. -/
lemma Bytes.forall_byte {P : UInt8 → Prop} (h : ∀ n : Fin 256, P (UInt8.ofNat n)) (b : UInt8) :
    P b := by
  have e := h ⟨b.toNat, b.toNat_lt⟩
  rwa [UInt8.ofNat_toNat] at e

namespace Property

/-- The variable byte integers in a value of a kind. -/
def valueVarInts : Kind → Parse (List VarInt.Spelling)
  | .subscriptionIdentifier => return [← Parse.spelling]
  | kind => do
    let _ ← parseValue kind
    return []

/-- The variable byte integers in a property. -/
def varInts : Parse (List VarInt.Spelling) := do
  let identifier ← Parse.byte
  match Kind.ofIdentifier? identifier with
  | some kind => valueVarInts kind
  | none => throw (.unknownProperty identifier)

/-- The variable byte integers in a block of properties, its size the first of them. -/
def blockVarInts : Parse (List VarInt.Spelling) := do
  let size ← Parse.spelling
  let block ← Parse.take size.value.toNat
  let ints ← Parse.items varInts block
  return size :: ints.flatten

/-- The variable byte integers in the block of a packet. -/
def varIntsFor : Version → Parse (List VarInt.Spelling)
  | .v5 => blockVarInts
  | .v311 => return []

/-- An identifier that tells a kind is the identifier of this kind. -/
lemma Kind.identifier_of_ofIdentifier? {i : UInt8} {k : Kind} (h : ofIdentifier? i = some k) :
    k.identifier = i := by
  simpa using List.find?_some h

/-- A value is of the kind that it is read as, and without variable byte integers it is read off the
bytes that it is written as. -/
lemma encodeValue_of_parseValue {k : Kind} {input rest : Bytes} {p : Property}
    (hk : k ≠ .subscriptionIdentifier) (h : parseValue k input = .ok (p, rest)) :
    p.kind = k ∧ ∃ b, p.encodeValue = .ok b ∧ input = b ++ rest := by
  -- each field is read exactly where it is written, whatever the kind
  cases k with
  | subscriptionIdentifier => exact absurd rfl hk
  | byte name =>
    obtain ⟨x, mid, read, last⟩ := Parse.bind_eq_ok_iff.mp h
    obtain ⟨rfl, rfl⟩ := Parse.pure_eq_ok_iff.mp last
    obtain rfl := Parse.byte_eq_ok_iff.mp read
    exact ⟨rfl, [x], rfl, rfl⟩
  | word16 name =>
    obtain ⟨x, mid, read, last⟩ := Parse.bind_eq_ok_iff.mp h
    obtain ⟨rfl, rfl⟩ := Parse.pure_eq_ok_iff.mp last
    obtain rfl := Parse.word16_eq_ok_iff.mp read
    exact ⟨rfl, _, rfl, rfl⟩
  | word32 name =>
    obtain ⟨x, mid, read, last⟩ := Parse.bind_eq_ok_iff.mp h
    obtain ⟨rfl, rfl⟩ := Parse.pure_eq_ok_iff.mp last
    obtain rfl := Parse.word32_eq_ok_iff.mp read
    exact ⟨rfl, _, rfl, rfl⟩
  | text name =>
    obtain ⟨x, mid, read, last⟩ := Parse.bind_eq_ok_iff.mp h
    obtain ⟨rfl, rfl⟩ := Parse.pure_eq_ok_iff.mp last
    exact ⟨rfl, Parse.text_eq_ok_iff.mp read⟩
  | binary name =>
    obtain ⟨x, mid, read, last⟩ := Parse.bind_eq_ok_iff.mp h
    obtain ⟨rfl, rfl⟩ := Parse.pure_eq_ok_iff.mp last
    exact ⟨rfl, Parse.binary_eq_ok_iff.mp read⟩
  | user =>
    obtain ⟨key, mid, read, h⟩ := Parse.bind_eq_ok_iff.mp h
    obtain ⟨value, mid', readValue, last⟩ := Parse.bind_eq_ok_iff.mp h
    obtain ⟨rfl, rfl⟩ := Parse.pure_eq_ok_iff.mp last
    obtain ⟨b, enc, rfl⟩ := Parse.text_eq_ok_iff.mp read
    obtain ⟨b', enc', rfl⟩ := Parse.text_eq_ok_iff.mp readValue
    refine ⟨rfl, b ++ b', ?_, (List.append_assoc ..).symm⟩
    simp only [encodeValue, enc, enc']
    rfl

/-- Only subscription identifiers have integers of variable size in their values. -/
lemma valueVarInts_of_parseValue {k : Kind} {input rest : Bytes} {p : Property}
    (hk : k ≠ .subscriptionIdentifier) (h : parseValue k input = .ok (p, rest)) :
    valueVarInts k input = .ok ([], rest) := by
  cases k with
  | subscriptionIdentifier => exact absurd rfl hk
  | _ => exact Parse.bind_apply h _

/-- The value of a property is written again in its shortest form. -/
lemma recodes_value {k : Kind} {input rest : Bytes} {p : Property}
    (h : parseValue k input = .ok (p, rest)) :
    p.kind = k ∧ ∃ b c found, input = b ++ rest ∧ p.encodeValue = .ok c ∧
      valueVarInts k input = .ok (found, rest) ∧ Shortens c b found := by
  by_cases hk : k = .subscriptionIdentifier
  · subst hk
    obtain ⟨n, mid, read, last⟩ := Parse.bind_eq_ok_iff.mp h
    obtain ⟨rfl, rfl⟩ := Parse.pure_eq_ok_iff.mp last
    obtain ⟨used, decoded, rfl⟩ := Parse.varInt_eq_ok_iff.mp read
    obtain ⟨c, enc, -, short⟩ := Shortens.varInt decoded
    exact ⟨rfl, _, c, _, (List.take_append_drop used input).symm, enc,
      Parse.bind_apply (Parse.spelling_of_decode decoded) _, short⟩
  · obtain ⟨kind, b, enc, e⟩ := encodeValue_of_parseValue hk h
    exact ⟨kind, b, b, [], e, enc, valueVarInts_of_parseValue hk h, .refl b⟩

/-- A property is written again in its shortest form. -/
lemma recodes : Recodes parse varInts encode := by
  intro input p rest h
  obtain ⟨i, mid, read, value⟩ := Parse.bind_eq_ok_iff.mp h
  obtain rfl := Parse.byte_eq_ok_iff.mp read
  cases hk : Kind.ofIdentifier? i with
  | none =>
    rw [hk] at value
    exact nomatch value
  | some kind =>
    rw [hk] at value
    obtain ⟨rfl, b, c, found, rfl, enc, ints, short⟩ := recodes_value value
    have identifier := Kind.identifier_of_ofIdentifier? hk
    refine ⟨i :: b, i :: c, found, rfl, ?_, ?_, short.prepend [i]⟩
    · rw [encode, enc, identifier]
      rfl
    · rw [varInts, Parse.bind_apply read, hk]
      exact ints

/-- A block of properties is written again in its shortest form. -/
lemma recodes_block : Recodes parseBlock blockVarInts encodeBlock := by
  intro input ps rest h
  obtain ⟨n, mid, read, h⟩ := Parse.bind_eq_ok_iff.mp h
  obtain ⟨block, mid', take, h⟩ := Parse.bind_eq_ok_iff.mp h
  obtain ⟨items, rfl⟩ := Parse.lift_eq_ok_iff.mp h
  obtain ⟨used, decoded, rfl⟩ := Parse.varInt_eq_ok_iff.mp read
  obtain ⟨tail, size⟩ := Parse.take_eq_ok_iff.mp take
  obtain ⟨c, founds, enc, ints, short⟩ := recodes.itemsWithin items
  obtain ⟨s, hs, short⟩ := short.count decoded size
  refine ⟨input.take used ++ block, s ++ c, _, ?_, ?_, ?_, short⟩
  · rw [List.append_assoc, ← tail, List.take_append_drop]
  · rw [encodeBlock, encodeAll_eq_encodeItems, enc]
    change (Field.count c.length >>= fun size => pure (size ++ c)) = _
    rw [hs]
    rfl
  · rw [blockVarInts, Parse.bind_apply (Parse.spelling_of_decode decoded), Parse.bind_apply take]
    exact Parse.bind_apply (Parse.lift_eq_ok_iff.mpr ⟨ints, rfl⟩) _

/-- The properties of a packet are written again in their shortest form, in either version. -/
lemma recodes_for {v : Version} : Recodes (parseFor v) (varIntsFor v) (encodeFor v) := by
  cases v with
  | v5 => exact recodes_block
  | v311 =>
    intro input ps rest h
    obtain ⟨rfl, rfl⟩ := Parse.pure_eq_ok_iff.mp h
    exact ⟨[], [], [], rfl, rfl, rfl, .refl []⟩

/-- A block between bytes without variable byte integers is written as it was read. -/
lemma recodes_between {α : Type} {skip : Parse α} {x : α} {v : Version} {front input tail : Bytes}
    {ps : List Property} (skipped : skip (front ++ input) = .ok (x, input))
    (read : parseFor v input = .ok (ps, tail)) :
    ∃ c found, encodeFor v ps = .ok c ∧
      (skip >>= fun _ => varIntsFor v) (front ++ input) = .ok (found, tail) ∧
      Shortens (front ++ c ++ tail) (front ++ input) found := by
  obtain ⟨b, c, found, rfl, enc, ints, short⟩ := recodes_for read
  refine ⟨c, found, enc, (Parse.bind_apply skipped _).trans ints, ?_⟩
  rw [List.append_assoc]
  exact (short.extend tail).prepend front

end Property

/-- A body is written as it was read, where `ints` finds the variable byte integers in it. -/
def RecodesAll (written : Except WireError Bytes) (ints : Parse (List VarInt.Spelling))
    (body : Bytes) : Prop :=
  ∃ c found left, written = .ok c ∧ ints body = .ok (found, left) ∧ Shortens c body found

/-- An identifier is read exactly where one that is not zero is written. -/
lemma Parse.packetId_eq_ok_iff {input rest : Bytes} {id : UInt16} :
    packetId input = .ok (id, rest) ↔ id ≠ 0 ∧ input = Field.word16 id ++ rest := by
  constructor
  · intro h
    obtain ⟨n, mid, read, h⟩ := bind_eq_ok_iff.mp h
    obtain ⟨check, rfl⟩ := lift_eq_ok_iff.mp h
    obtain ⟨ne, rfl⟩ := checkPacketId_eq_ok_iff.mp check
    exact ⟨ne, word16_eq_ok_iff.mp read⟩
  · rintro ⟨ne, rfl⟩
    exact packetId_word16 ne rest

/-- The two bytes of a word are taken together. -/
lemma Parse.take_word16 (id : UInt16) (rest : Bytes) :
    take 2 (Field.word16 id ++ rest) = .ok (Field.word16 id, rest) :=
  take_eq_ok_iff.mpr ⟨rfl, Field.length_word16 id⟩

/-- Reason codes that are read are admitted and make up the whole input. -/
lemma Parse.codes_eq_ok {admitted : ReasonCode → Bool} {input rest : Bytes} {cs : List ReasonCode}
    (h : codes admitted input = .ok (cs, rest)) :
    (∀ c ∈ cs, admitted c = true) ∧ cs.map ReasonCode.value = input ∧ rest = [] := by
  obtain ⟨bytes, mid, read, h⟩ := bind_eq_ok_iff.mp h
  obtain ⟨rfl, rfl⟩ := remainder_eq_ok_iff.mp read
  obtain ⟨check, rfl⟩ := lift_eq_ok_iff.mp h
  obtain ⟨all, rfl⟩ := checkCodes_eq_ok_iff.mp check
  exact ⟨all, by simp [List.map_map, Function.comp_def], rfl⟩

namespace Outcome

/-- The variable byte integers in an outcome. -/
def varInts : Version → Parse (List VarInt.Spelling)
  | .v5 => do
    if ← Parse.atEnd then
      return []
    let _ ← Parse.byte
    if ← Parse.atEnd then
      return []
    Property.blockVarInts
  | .v311 => return []

/-- An outcome is written in the extent in which it was seen. -/
lemma encode_seen {reason : ReasonCode} {properties : List Property} {extent : Extent}
    (h : (Extent.required reason properties).rank ≤ extent.rank) :
    (seen reason properties extent).encode =
      match extent with
      | .minimal => .ok []
      | .code => .ok [reason.value]
      | .full => return reason.value :: (← Property.encodeBlock properties) := by
  have written : (seen reason properties extent).extent.sup (.required reason properties) =
      extent := by
    simp only [seen]
    generalize Extent.required reason properties = needed at h
    cases extent <;> cases needed <;> first | rfl | exact absurd h (by decide)
  unfold encode
  rw [show (seen reason properties extent).extent.sup
    (.required (seen reason properties extent).reason (seen reason properties extent).properties) =
      extent from written]
  cases extent <;> rfl

/-- Reading back changes nothing about an outcome that was seen. -/
lemma readBack_seen (reason : ReasonCode) (properties : List Property) (extent : Extent) :
    (seen reason properties extent).readBack .v5 = seen reason properties extent := by
  simp only [seen, readBack]
  generalize Extent.required reason properties = needed
  cases extent <;> cases needed <;> rfl

/-- No content asks for more than the full extent, and none without properties for more than the
reason code. -/
lemma rank_required (reason : ReasonCode) (properties : List Property) :
    (Extent.required reason properties).rank ≤ Extent.full.rank ∧
      (properties = [] → (Extent.required reason properties).rank ≤ Extent.code.rank) := by
  cases properties <;> cases h : reason.isSuccess <;> simp [Extent.required, Extent.rank, h]

/-- An outcome in version 5 is written again in its shortest form. -/
lemma recodes_v5 {body rest : Bytes} {o : Outcome} (h : parse body = .ok (o, rest)) :
    rest = [] ∧ o.reason.isDefined = true ∧ o.readBack .v5 = o ∧
      RecodesAll o.encode (varInts .v5) body := by
  obtain ⟨_, _, atEnd, h⟩ := Parse.bind_eq_ok_iff.mp h
  obtain ⟨rfl, rfl⟩ := Parse.atEnd_eq_ok_iff.mp atEnd
  cases body with
  | nil =>
    obtain ⟨rfl, rfl⟩ := Parse.pure_eq_ok_iff.mp h
    exact ⟨rfl, rfl, rfl, [], [], [], rfl, rfl, .refl []⟩
  | cons code body =>
    obtain ⟨_, _, byte, h⟩ := Parse.bind_eq_ok_iff.mp h
    cases byte
    obtain ⟨_, _, lifted, h⟩ := Parse.bind_eq_ok_iff.mp h
    obtain ⟨checked, rfl⟩ := Parse.lift_eq_ok_iff.mp lifted
    obtain ⟨defined, rfl⟩ := ReasonCode.checked_eq_ok_iff.mp checked
    obtain ⟨_, _, atEnd', h⟩ := Parse.bind_eq_ok_iff.mp h
    obtain ⟨rfl, rfl⟩ := Parse.atEnd_eq_ok_iff.mp atEnd'
    cases body with
    | nil =>
      obtain ⟨rfl, rfl⟩ := Parse.pure_eq_ok_iff.mp h
      exact ⟨rfl, defined, readBack_seen .., [code], [], [], encode_seen ((rank_required ..).2 rfl),
        rfl, .refl _⟩
    | cons b body =>
      obtain ⟨properties, _, block, h⟩ := Parse.bind_eq_ok_iff.mp h
      obtain ⟨_, _, finish, h⟩ := Parse.bind_eq_ok_iff.mp h
      obtain ⟨rfl, rfl⟩ := Parse.finish_eq_ok_iff.mp finish
      obtain ⟨rfl, rfl⟩ := Parse.pure_eq_ok_iff.mp h
      obtain ⟨b', c, found, e, enc, ints, short⟩ := Property.recodes_block block
      rw [List.append_nil] at e
      rw [← e] at short
      refine ⟨rfl, defined, readBack_seen .., code :: c, found, [], ?_, ints, short.prepend [code]⟩
      rw [encode_seen (rank_required ..).1, enc]
      rfl

/-- An outcome is written again in its shortest form, in either version. -/
lemma recodes {v : Version} {body rest : Bytes} {o : Outcome}
    (h : parseFor v body = .ok (o, rest)) :
    rest = [] ∧ (v = .v5 → o.reason.isDefined = true) ∧ o.readBack v = o ∧
      RecodesAll (o.encodeFor v) (varInts v) body := by
  cases v with
  | v5 =>
    obtain ⟨rfl, defined, same, all⟩ := recodes_v5 h
    exact ⟨rfl, fun _ => defined, same, all⟩
  | v311 =>
    obtain ⟨_, _, finish, h⟩ := Parse.bind_eq_ok_iff.mp h
    obtain ⟨rfl, rfl⟩ := Parse.finish_eq_ok_iff.mp finish
    obtain ⟨rfl, rfl⟩ := Parse.pure_eq_ok_iff.mp h
    exact ⟨rfl, nofun, rfl, [], [], [], rfl, rfl, .refl []⟩

end Outcome

/-- A level that tells a version is the level of this version. -/
lemma Version.level_of_ofLevel {b : UInt8} {v : Version} (h : ofLevel b = .ok v) : v.level = b := by
  unfold ofLevel at h
  split_ifs at h with four five
  · cases h
    exact four.symm
  · cases h
    exact five.symm

/-- A flags byte of CONNECT is the one of its flags, and one bit of it speaks of a will. -/
lemma ConnectFlags.toByte_of_ofByte {b : UInt8} {f : ConnectFlags} (h : ofByte b = .ok f) :
    f.toByte = b ∧ (f.will = none ↔ b &&& 0x04 = 0) := by
  have all : ∀ n : Fin 256, ∀ f ∈ (ofByte (UInt8.ofNat n)).toOption,
      f.toByte = UInt8.ofNat n ∧ (f.will = none ↔ UInt8.ofNat n &&& 0x04 = 0) := by decide +kernel
  refine Bytes.forall_byte (P := fun b => ∀ f ∈ (ofByte b).toOption, f.toByte = b ∧
    (f.will = none ↔ b &&& 0x04 = 0)) all b f ?_
  rw [h]
  rfl

/-- The variable byte integers in a will, if the flags speak of one. -/
def Will.varInts (v : Version) (flags : UInt8) : Parse (List VarInt.Spelling) :=
  if flags &&& 0x04 = 0 then return [] else Property.varIntsFor v

/-- A will is written again in its shortest form, and the flags tell of it. -/
lemma Will.recodes {v : Version} {b : UInt8} {f : ConnectFlags} {input rest : Bytes}
    {will : Option Will} (flags : ConnectFlags.ofByte b = .ok f)
    (h : parse? v f.will input = .ok (will, rest)) :
    (will.map fun w => (w.qos, w.retain)) = f.will ∧
      ∃ front c found left, input = front ++ rest ∧
        Connect.encodeOption (Will.encode v) will = .ok c ∧
        varInts v b input = .ok (found, left) ∧ Shortens c front found := by
  have bit := (ConnectFlags.toByte_of_ofByte flags).2
  cases marks : f.will with
  | none =>
    rw [marks] at h
    obtain ⟨rfl, rfl⟩ := Parse.pure_eq_ok_iff.mp h
    refine ⟨rfl, [], [], [], input, rfl, rfl, ?_, .refl []⟩
    rw [varInts, if_pos (bit.mp marks)]
    rfl
  | some qr =>
    rw [marks] at h bit
    obtain ⟨qos, retain⟩ := qr
    obtain ⟨w, mid, read, last⟩ := Parse.bind_eq_ok_iff.mp h
    obtain ⟨rfl, rfl⟩ := Parse.pure_eq_ok_iff.mp last
    obtain ⟨properties, mid₁, block, h⟩ := Parse.bind_eq_ok_iff.mp read
    obtain ⟨topic, mid₂, text, h⟩ := Parse.bind_eq_ok_iff.mp h
    obtain ⟨payload, mid₃, binary, last⟩ := Parse.bind_eq_ok_iff.mp h
    obtain ⟨rfl, rfl⟩ := Parse.pure_eq_ok_iff.mp last
    obtain ⟨t, ht, rfl⟩ := Parse.text_eq_ok_iff.mp text
    obtain ⟨d, hd, rfl⟩ := Parse.binary_eq_ok_iff.mp binary
    obtain ⟨front, c, found, rfl, enc, ints, short⟩ := Property.recodes_for block
    refine ⟨rfl, front ++ t ++ d, c ++ t ++ d, found, t ++ (d ++ mid₃), ?_, ?_, ?_,
      (short.extend t).extend d⟩
    · simp only [List.append_assoc]
    · simp only [Connect.encodeOption, encode, enc, ht, hd]
      rfl
    · rw [varInts, if_neg fun zero => Option.some_ne_none _ (bit.mpr zero)]
      exact ints

namespace Connect

/-- The variable byte integers in the body of CONNECT. -/
def varInts : Parse (List VarInt.Spelling) := do
  let _ ← Parse.text
  let version ← Version.ofLevel (← Parse.byte)
  let flags ← Parse.byte
  let _ ← Parse.word16
  let block ← Property.varIntsFor version
  let _ ← Parse.text
  let will ← Will.varInts version flags
  return block ++ will

/-- A field that may be missing is written again as it was read. -/
lemma encodeOption_of_parseOption {α : Type} {item : Parse α} {encode : α → Except WireError Bytes}
    (reads : ∀ {input x rest}, item input = .ok (x, rest) →
      ∃ b, encode x = .ok b ∧ input = b ++ rest)
    {present : Bool} {input rest : Bytes} {o : Option α}
    (h : parseOption item present input = .ok (o, rest)) :
    o.isSome = present ∧ ∃ b, encodeOption encode o = .ok b ∧ input = b ++ rest := by
  cases present with
  | false =>
    obtain ⟨rfl, rfl⟩ := Parse.pure_eq_ok_iff.mp h
    exact ⟨rfl, [], rfl, rfl⟩
  | true =>
    obtain ⟨x, mid, read, last⟩ := Parse.bind_eq_ok_iff.mp h
    obtain ⟨rfl, rfl⟩ := Parse.pure_eq_ok_iff.mp last
    exact ⟨rfl, reads read⟩

/-- A connect packet is written again in its shortest form. -/
lemma recodes {body rest : Bytes} {c : Connect} (h : parseBody body = .ok (c, rest)) :
    rest = [] ∧ RecodesAll c.encodeBody varInts body := by
  obtain ⟨name, _, readName, h⟩ := Parse.bind_eq_ok_iff.mp h
  obtain ⟨_, _, required, h⟩ := Parse.bind_eq_ok_iff.mp h
  obtain ⟨protocol, rfl⟩ := Parse.require_eq_ok_iff.mp required
  obtain ⟨level, _, readLevel, h⟩ := Parse.bind_eq_ok_iff.mp h
  obtain ⟨version, _, lifted, h⟩ := Parse.bind_eq_ok_iff.mp h
  obtain ⟨hversion, rfl⟩ := Parse.lift_eq_ok_iff.mp lifted
  obtain ⟨b, _, readFlags, h⟩ := Parse.bind_eq_ok_iff.mp h
  obtain ⟨flags, _, lifted, h⟩ := Parse.bind_eq_ok_iff.mp h
  obtain ⟨hflags, rfl⟩ := Parse.lift_eq_ok_iff.mp lifted
  obtain ⟨keepAlive, _, readKeepAlive, h⟩ := Parse.bind_eq_ok_iff.mp h
  obtain ⟨properties, _, readProperties, h⟩ := Parse.bind_eq_ok_iff.mp h
  obtain ⟨clientId, _, readClientId, h⟩ := Parse.bind_eq_ok_iff.mp h
  obtain ⟨will, _, readWill, h⟩ := Parse.bind_eq_ok_iff.mp h
  obtain ⟨username, _, readUsername, h⟩ := Parse.bind_eq_ok_iff.mp h
  obtain ⟨password, _, readPassword, h⟩ := Parse.bind_eq_ok_iff.mp h
  obtain ⟨_, _, finish, last⟩ := Parse.bind_eq_ok_iff.mp h
  obtain ⟨rfl, rfl⟩ := Parse.finish_eq_ok_iff.mp finish
  obtain ⟨rfl, rfl⟩ := Parse.pure_eq_ok_iff.mp last
  -- from the last field to the first, each is written again in front of those behind it
  obtain ⟨hpassword, p, encPassword, rfl⟩ :=
    encodeOption_of_parseOption Parse.binary_eq_ok_iff.mp readPassword
  obtain ⟨husername, u, encUsername, rfl⟩ :=
    encodeOption_of_parseOption Parse.text_eq_ok_iff.mp readUsername
  obtain ⟨hwill, w, w', foundWill, left, rfl, encWill, intsWill, shortWill⟩ :=
    Will.recodes hflags readWill
  obtain ⟨i, encClientId, rfl⟩ := Parse.text_eq_ok_iff.mp readClientId
  obtain ⟨ps, ps', found, rfl, encProperties, ints, short⟩ := Property.recodes_for readProperties
  obtain rfl := Parse.word16_eq_ok_iff.mp readKeepAlive
  obtain rfl := Parse.byte_eq_ok_iff.mp readFlags
  obtain rfl := Parse.byte_eq_ok_iff.mp readLevel
  obtain ⟨n, encName, rfl⟩ := Parse.text_eq_ok_iff.mp readName
  have hname : name = protocolName := of_decide_eq_true protocol
  have hlevel := Version.level_of_ofLevel hversion
  -- the flags are told again by the fields that are there
  have hbyte : ConnectFlags.toByte ⟨username.isSome, password.isSome,
      will.map fun w => (w.qos, w.retain), flags.cleanSession⟩ = b := by
    rw [husername, hpassword, hwill]
    exact (ConnectFlags.toByte_of_ofByte hflags).1
  refine ⟨rfl, n ++ [level, b] ++ Field.word16 keepAlive ++ ps' ++ i ++ w' ++ u ++ p,
    found ++ foundWill, left, ?_, ?_, ?_⟩
  · subst hname
    simp only [encodeBody, encName, encProperties, encClientId, encWill, encUsername, encPassword,
      Connect.flags, hbyte, hlevel]
    rfl
  · rw [varInts, Parse.bind_apply readName, Parse.bind_apply readLevel,
      Parse.bind_apply (Parse.lift_eq_ok_iff.mpr ⟨hversion, rfl⟩), Parse.bind_apply readFlags,
      Parse.bind_apply readKeepAlive, Parse.bind_apply ints, Parse.bind_apply readClientId,
      Parse.bind_apply intsWill]
    rfl
  · have whole := ((((short.prepend (n ++ [level, b] ++ Field.word16 keepAlive)).extend i).append
      shortWill).extend u).extend p
    simpa only [List.append_assoc, List.cons_append, List.nil_append, List.append_nil] using whole

end Connect

/-- The variable byte integers behind two bytes in front of a block. -/
def Property.varIntsBehind (v : Version) : Parse (List VarInt.Spelling) := do
  let _ ← Parse.take 2
  varIntsFor v

/-- The answer to a connect packet is written again in its shortest form. -/
lemma Connack.recodes {v : Version} {body rest : Bytes} {c : Connack}
    (h : parseBody v body = .ok (c, rest)) :
    rest = [] ∧ c.code.isConnackCode v = true ∧
      RecodesAll (c.encodeBody v) (Property.varIntsBehind v) body := by
  obtain ⟨b, _, readFlags, h⟩ := Parse.bind_eq_ok_iff.mp h
  obtain ⟨_, _, required, h⟩ := Parse.bind_eq_ok_iff.mp h
  obtain ⟨plain, rfl⟩ := Parse.require_eq_ok_iff.mp required
  obtain ⟨code, _, readCode, h⟩ := Parse.bind_eq_ok_iff.mp h
  obtain ⟨_, _, lifted, h⟩ := Parse.bind_eq_ok_iff.mp h
  obtain ⟨checked, rfl⟩ := Parse.lift_eq_ok_iff.mp lifted
  obtain ⟨admitted, rfl⟩ := ReasonCode.checked_eq_ok_iff.mp checked
  obtain ⟨properties, _, block, h⟩ := Parse.bind_eq_ok_iff.mp h
  obtain ⟨_, _, finish, last⟩ := Parse.bind_eq_ok_iff.mp h
  obtain ⟨rfl, rfl⟩ := Parse.finish_eq_ok_iff.mp finish
  obtain ⟨rfl, rfl⟩ := Parse.pure_eq_ok_iff.mp last
  obtain rfl := Parse.byte_eq_ok_iff.mp readCode
  obtain rfl := Parse.byte_eq_ok_iff.mp readFlags
  have skipped (input : Bytes) : Parse.take 2 ([b, code] ++ input) = .ok ([b, code], input) := rfl
  obtain ⟨c, found, enc, ints, short⟩ := Property.recodes_between (skipped _) block
  rw [List.append_nil] at short
  have flags : (if decide (b &&& 0x01 ≠ 0) then 1 else 0 : UInt8) = b := by
    have all : ∀ n : Fin 256, UInt8.ofNat n &&& 0xFE = 0 →
        (if decide (UInt8.ofNat n &&& 0x01 ≠ 0) then 1 else 0 : UInt8) = UInt8.ofNat n := by
      decide +kernel
    exact Bytes.forall_byte (P := fun b => b &&& 0xFE = 0 →
      (if decide (b &&& 0x01 ≠ 0) then 1 else 0 : UInt8) = b) all b (of_decide_eq_true plain)
  refine ⟨rfl, admitted, [b, code] ++ c, found, [], ?_, ints, short⟩
  simp only [encodeBody, enc, flags]
  rfl

namespace Publish

/-- The topic and, if there is one, the identifier of a message. -/
def skipFront (h : FixedHeader) : Parse Unit := do
  let _ ← Parse.text
  if h.bits &&& 0x06 = 0 then return () else
    let _ ← Parse.word16

/-- The variable byte integers in the body of PUBLISH. -/
def varInts (h : FixedHeader) (v : Version) : Parse (List VarInt.Spelling) := do
  skipFront h
  Property.varIntsFor v

/-- The first byte of PUBLISH is the one of its marks. -/
lemma header_of_marks {h : FixedHeader} {p : Publish} (type : h.packetType = .ok .publish)
    (qos : h.qos = .ok p.qos) (dup : h.dup = p.dup) (retain : h.retain = p.retain) :
    p.header = h ∧ (p.qos = .atMostOnce ↔ h.bits &&& 0x06 = 0) := by
  have all : ∀ n : Fin 256, FixedHeader.packetType ⟨UInt8.ofNat n⟩ = .ok .publish →
      ∀ q ∈ (FixedHeader.qos ⟨UInt8.ofNat n⟩).toOption,
        ((((FixedHeader.ofType .publish).withDup (FixedHeader.dup ⟨UInt8.ofNat n⟩)).withQos
          q).withRetain (FixedHeader.retain ⟨UInt8.ofNat n⟩)).bits = UInt8.ofNat n ∧
        (q = .atMostOnce ↔ UInt8.ofNat n &&& 0x06 = 0) := by
    decide +kernel
  obtain ⟨b⟩ := h
  obtain ⟨bits, unmarked⟩ := Bytes.forall_byte (P := fun b =>
    FixedHeader.packetType ⟨b⟩ = .ok .publish → ∀ q ∈ (FixedHeader.qos ⟨b⟩).toOption,
      ((((FixedHeader.ofType .publish).withDup (FixedHeader.dup ⟨b⟩)).withQos
        q).withRetain (FixedHeader.retain ⟨b⟩)).bits = b ∧
      (q = .atMostOnce ↔ b &&& 0x06 = 0)) all b type p.qos (by rw [qos]; rfl)
  rw [dup, retain] at bits
  exact ⟨congrArg FixedHeader.mk bits, unmarked⟩

/-- The identifier of a message stands between its topic and its properties if the message waits for
an acknowledgment. -/
lemma parseBody_eq_ok {h : FixedHeader} {v : Version} {body rest : Bytes} {p : Publish}
    (read : parseBody h v body = .ok (p, rest)) :
    h.qos = .ok p.qos ∧ h.dup = p.dup ∧ h.retain = p.retain ∧ p.check = .ok () ∧ rest = [] ∧
      ∃ t id block, Field.text p.topic = .ok t ∧ body = t ++ id ++ block ∧
        (p.qos = .atMostOnce ∧ p.packetId = 0 ∧ id = [] ∨
          p.qos ≠ .atMostOnce ∧ id = Field.word16 p.packetId) ∧
        Property.parseFor v block = .ok (p.properties, p.payload) := by
  obtain ⟨qos, _, lifted, read⟩ := Parse.bind_eq_ok_iff.mp read
  obtain ⟨hqos, rfl⟩ := Parse.lift_eq_ok_iff.mp lifted
  obtain ⟨topic, _, readTopic, read⟩ := Parse.bind_eq_ok_iff.mp read
  split at read
  · obtain ⟨id, _, readId, read⟩ := Parse.bind_eq_ok_iff.mp read
    obtain ⟨rfl, rfl⟩ := Parse.pure_eq_ok_iff.mp readId
    obtain ⟨properties, _, block, read⟩ := Parse.bind_eq_ok_iff.mp read
    obtain ⟨payload, _, readPayload, read⟩ := Parse.bind_eq_ok_iff.mp read
    obtain ⟨_, _, lifted, last⟩ := Parse.bind_eq_ok_iff.mp read
    obtain ⟨check, rfl⟩ := Parse.lift_eq_ok_iff.mp lifted
    obtain ⟨rfl, rfl⟩ := Parse.pure_eq_ok_iff.mp last
    obtain ⟨rfl, rfl⟩ := Parse.remainder_eq_ok_iff.mp readPayload
    obtain ⟨t, encTopic, rfl⟩ := Parse.text_eq_ok_iff.mp readTopic
    exact ⟨hqos, rfl, rfl, check, rfl, t, [], _, encTopic, by rw [List.append_nil],
      .inl ⟨‹_›, rfl, rfl⟩, block⟩
  · obtain ⟨id, _, readId, read⟩ := Parse.bind_eq_ok_iff.mp read
    obtain ⟨properties, _, block, read⟩ := Parse.bind_eq_ok_iff.mp read
    obtain ⟨payload, _, readPayload, read⟩ := Parse.bind_eq_ok_iff.mp read
    obtain ⟨_, _, lifted, last⟩ := Parse.bind_eq_ok_iff.mp read
    obtain ⟨check, rfl⟩ := Parse.lift_eq_ok_iff.mp lifted
    obtain ⟨rfl, rfl⟩ := Parse.pure_eq_ok_iff.mp last
    obtain ⟨rfl, rfl⟩ := Parse.remainder_eq_ok_iff.mp readPayload
    obtain rfl := Parse.word16_eq_ok_iff.mp readId
    obtain ⟨t, encTopic, rfl⟩ := Parse.text_eq_ok_iff.mp readTopic
    exact ⟨hqos, rfl, rfl, check, rfl, t, _, _, encTopic, (List.append_assoc ..).symm,
      .inr ⟨‹_›, rfl⟩, block⟩

/-- A message is written again in its shortest form, under the same header. -/
lemma recodes {h : FixedHeader} {v : Version} {body rest : Bytes} {p : Publish}
    (type : h.packetType = .ok .publish) (read : parseBody h v body = .ok (p, rest)) :
    rest = [] ∧ p.header = h ∧ p.readBack = p ∧
      RecodesAll (p.encodeBody v) (varInts h v) body := by
  obtain ⟨qos, dup, retain, check, rfl, t, id, mid, encTopic, rfl, ident, block⟩ :=
    parseBody_eq_ok read
  obtain ⟨header, unmarked⟩ := header_of_marks type qos dup retain
  have readTopic : Parse.text (t ++ (id ++ mid)) = .ok (p.topic, id ++ mid) :=
    Parse.text_eq_ok_iff.mpr ⟨t, encTopic, rfl⟩
  have skipped : skipFront h (t ++ id ++ mid) = .ok ((), mid) := by
    rw [List.append_assoc, skipFront, Parse.bind_apply readTopic]
    obtain ⟨unacknowledged, -, rfl⟩ | ⟨acknowledged, rfl⟩ := ident
    · rw [if_pos (unmarked.mp unacknowledged)]
      rfl
    · rw [if_neg (fun zero => acknowledged (unmarked.mpr zero)),
        Parse.bind_apply (Parse.word16_eq_ok_iff.mpr rfl)]
      rfl
  have same : p.readBack = p := by
    obtain ⟨unacknowledged, zero, -⟩ | ⟨acknowledged, -⟩ := ident
    · rw [readBack, if_neg (by simp [isAcknowledged, unacknowledged]), ← zero]
    · rw [readBack, if_pos (by simp [isAcknowledged, acknowledged])]
  have written : (if p.isAcknowledged then Field.word16 p.packetId else []) = id := by
    obtain ⟨unacknowledged, -, rfl⟩ | ⟨acknowledged, rfl⟩ := ident
    · rw [if_neg (by simp [isAcknowledged, unacknowledged])]
    · rw [if_pos (by simp [isAcknowledged, acknowledged])]
  obtain ⟨c, found, enc, ints, short⟩ := Property.recodes_between skipped block
  refine ⟨rfl, header, same, t ++ id ++ c ++ p.payload, found, p.payload, ?_, ints, short⟩
  simp only [encodeBody, check, encTopic, enc, written]
  rfl

end Publish

/-- The variable byte integers behind the identifier of an acknowledgment. -/
def Ack.varInts (v : Version) : Parse (List VarInt.Spelling) := do
  let _ ← Parse.take 2
  Outcome.varInts v

/-- An acknowledgment is written again in its shortest form. -/
lemma Ack.recodes {v : Version} {body rest : Bytes} {a : Ack}
    (h : parseBody v body = .ok (a, rest)) :
    rest = [] ∧ (v = .v5 → a.outcome.reason.isDefined = true) ∧ a.readBack v = a ∧
      RecodesAll (a.encodeBody v) (varInts v) body := by
  obtain ⟨id, _, readId, h⟩ := Parse.bind_eq_ok_iff.mp h
  obtain ⟨outcome, _, read, last⟩ := Parse.bind_eq_ok_iff.mp h
  obtain ⟨rfl, rfl⟩ := Parse.pure_eq_ok_iff.mp last
  obtain ⟨ne, rfl⟩ := Parse.packetId_eq_ok_iff.mp readId
  obtain ⟨rfl, defined, same, c, found, left, enc, ints, short⟩ := Outcome.recodes read
  refine ⟨rfl, defined, by rw [readBack, same], Field.word16 id ++ c, found, left, ?_, ?_,
    short.prepend _⟩
  · simp only [encodeBody, checkPacketId_eq_ok_iff.mpr ⟨ne, rfl⟩, enc]
    rfl
  · rw [varInts, Parse.bind_apply (Parse.take_word16 id _)]
    exact ints

/-- A byte that tells options is the byte of these options. -/
lemma SubscriptionOptions.toByte_of_ofByte {b : UInt8} {v : Version} {o : SubscriptionOptions}
    (h : ofByte b v = .ok o) : o.toByte = b ∧ o.fits v = true := by
  have all : ∀ v ∈ [Version.v311, .v5], ∀ n : Fin 256, ∀ o ∈ (ofByte (UInt8.ofNat n) v).toOption,
      o.toByte = UInt8.ofNat n ∧ o.fits v = true := by decide +kernel
  refine Bytes.forall_byte (P := fun b => ∀ o ∈ (ofByte b v).toOption,
    o.toByte = b ∧ o.fits v = true) (all v (by cases v <;> simp)) b o ?_
  rw [h]
  rfl

/-- A subscription is written again as it was read. -/
lemma Subscription.encode_of_parse {v : Version} {input rest : Bytes} {s : Subscription}
    (h : parse v input = .ok (s, rest)) :
    s.options.fits v = true ∧ ∃ b, s.encode = .ok b ∧ input = b ++ rest := by
  obtain ⟨filter, _, readFilter, h⟩ := Parse.bind_eq_ok_iff.mp h
  obtain ⟨b, _, readByte, h⟩ := Parse.bind_eq_ok_iff.mp h
  obtain ⟨options, _, lifted, last⟩ := Parse.bind_eq_ok_iff.mp h
  obtain ⟨hoptions, rfl⟩ := Parse.lift_eq_ok_iff.mp lifted
  obtain ⟨rfl, rfl⟩ := Parse.pure_eq_ok_iff.mp last
  obtain rfl := Parse.byte_eq_ok_iff.mp readByte
  obtain ⟨f, encFilter, rfl⟩ := Parse.text_eq_ok_iff.mp readFilter
  obtain ⟨byte, fits⟩ := SubscriptionOptions.toByte_of_ofByte hoptions
  refine ⟨fits, f ++ [b], ?_, by rw [List.append_assoc]; rfl⟩
  simp only [encode, encFilter, byte]
  rfl

/-- What the reader grants of every item holds of all items that were read. -/
lemma Parse.forall_of_itemsWithin {α : Type} {item : Parse α} {P : α → Prop}
    (h : ∀ {input x rest}, item input = .ok (x, rest) → P x) {fuel : Nat} {input : Bytes}
    {xs : List α} (read : itemsWithin item fuel input = .ok xs) : ∀ x ∈ xs, P x := by
  induction fuel generalizing input xs with
  | zero =>
    cases input with
    | nil =>
      cases read
      exact nofun
    | cons b input => cases read
  | succ fuel ih =>
    by_cases ne : input = []
    · cases ne
      cases read
      exact nofun
    · rw [itemsWithin_succ ne] at read
      simp only [WireError.bind_eq_ok_iff, WireError.pure_eq_ok_iff, Prod.exists] at read
      obtain ⟨x, rest, hx, ys, hys, rfl⟩ := read
      exact List.forall_mem_cons.mpr ⟨h hx, ih hys⟩

/-- A request to subscribe is written again in its shortest form. -/
lemma Subscribe.recodes {v : Version} {body rest : Bytes} {s : Subscribe}
    (h : parseBody v body = .ok (s, rest)) :
    rest = [] ∧ (∀ x ∈ s.subscriptions, x.options.fits v = true) ∧
      RecodesAll (s.encodeBody v) (Property.varIntsBehind v) body := by
  obtain ⟨id, _, readId, h⟩ := Parse.bind_eq_ok_iff.mp h
  obtain ⟨properties, tail, block, h⟩ := Parse.bind_eq_ok_iff.mp h
  obtain ⟨subscriptions, _, many, h⟩ := Parse.bind_eq_ok_iff.mp h
  obtain ⟨_, _, lifted, last⟩ := Parse.bind_eq_ok_iff.mp h
  obtain ⟨nonempty, rfl⟩ := Parse.lift_eq_ok_iff.mp lifted
  obtain ⟨rfl, rfl⟩ := Parse.pure_eq_ok_iff.mp last
  obtain ⟨ne, rfl⟩ := checkNonempty_eq_ok_iff.mp nonempty
  obtain ⟨hid, rfl⟩ := Parse.packetId_eq_ok_iff.mp readId
  have fits : ∀ x ∈ subscriptions, x.options.fits v = true := by
    simp only [Parse.many, WireError.bind_eq_ok_iff, WireError.pure_eq_ok_iff,
      Prod.mk.injEq] at many
    obtain ⟨_, items, rfl, -⟩ := many
    exact Parse.forall_of_itemsWithin (fun hx => (Subscription.encode_of_parse hx).1) items
  obtain ⟨encItems, rfl⟩ := encodeItems_of_many (fun hx => (Subscription.encode_of_parse hx).2) many
  obtain ⟨c, found, enc, ints, short⟩ :=
    Property.recodes_between (Parse.take_word16 id _) block
  refine ⟨rfl, fits, Field.word16 id ++ c ++ tail, found, tail, ?_, ints, short⟩
  simp only [encodeBody, checkPacketId_eq_ok_iff.mpr ⟨hid, rfl⟩,
    checkNonempty_eq_ok_iff.mpr ⟨ne, rfl⟩, enc]
  change (encodeItems Subscription.encode subscriptions >>=
    fun bs => pure (Field.word16 id ++ c ++ bs)) = _
  rw [encItems]
  rfl

/-- The answer to a request to subscribe is written again in its shortest form. -/
lemma Suback.recodes {v : Version} {body rest : Bytes} {s : Suback}
    (h : parseBody v body = .ok (s, rest)) :
    rest = [] ∧ RecodesAll (s.encodeBody v) (Property.varIntsBehind v) body := by
  obtain ⟨id, _, readId, h⟩ := Parse.bind_eq_ok_iff.mp h
  obtain ⟨properties, tail, block, h⟩ := Parse.bind_eq_ok_iff.mp h
  obtain ⟨codes, _, readCodes, last⟩ := Parse.bind_eq_ok_iff.mp h
  obtain ⟨rfl, rfl⟩ := Parse.pure_eq_ok_iff.mp last
  obtain ⟨admitted, values, rfl⟩ := Parse.codes_eq_ok readCodes
  obtain ⟨hid, rfl⟩ := Parse.packetId_eq_ok_iff.mp readId
  obtain ⟨c, found, enc, ints, short⟩ :=
    Property.recodes_between (Parse.take_word16 id _) block
  refine ⟨rfl, Field.word16 id ++ c ++ tail, found, tail, ?_, ints, short⟩
  simp only [encodeBody, checkPacketId_eq_ok_iff.mpr ⟨hid, rfl⟩, enc,
    checkCodes_eq_ok_iff.mpr ⟨admitted, rfl⟩]
  rw [← values]
  rfl

/-- A request to unsubscribe is written again in its shortest form. -/
lemma Unsubscribe.recodes {v : Version} {body rest : Bytes} {u : Unsubscribe}
    (h : parseBody v body = .ok (u, rest)) :
    rest = [] ∧ RecodesAll (u.encodeBody v) (Property.varIntsBehind v) body := by
  obtain ⟨id, _, readId, h⟩ := Parse.bind_eq_ok_iff.mp h
  obtain ⟨properties, tail, block, h⟩ := Parse.bind_eq_ok_iff.mp h
  obtain ⟨filters, _, many, h⟩ := Parse.bind_eq_ok_iff.mp h
  obtain ⟨_, _, lifted, last⟩ := Parse.bind_eq_ok_iff.mp h
  obtain ⟨nonempty, rfl⟩ := Parse.lift_eq_ok_iff.mp lifted
  obtain ⟨rfl, rfl⟩ := Parse.pure_eq_ok_iff.mp last
  obtain ⟨ne, rfl⟩ := checkNonempty_eq_ok_iff.mp nonempty
  obtain ⟨hid, rfl⟩ := Parse.packetId_eq_ok_iff.mp readId
  obtain ⟨encItems, rfl⟩ := encodeItems_of_many Parse.text_eq_ok_iff.mp many
  obtain ⟨c, found, enc, ints, short⟩ :=
    Property.recodes_between (Parse.take_word16 id _) block
  refine ⟨rfl, Field.word16 id ++ c ++ tail, found, tail, ?_, ints, short⟩
  simp only [encodeBody, checkPacketId_eq_ok_iff.mpr ⟨hid, rfl⟩,
    checkNonempty_eq_ok_iff.mpr ⟨ne, rfl⟩, enc]
  change (encodeItems Field.text filters >>= fun bs => pure (Field.word16 id ++ c ++ bs)) = _
  rw [encItems]
  rfl

/-- The answer to a request to unsubscribe is written again in its shortest form. -/
lemma Unsuback.recodes {v : Version} {body rest : Bytes} {u : Unsuback}
    (h : parseBody v body = .ok (u, rest)) :
    rest = [] ∧ RecodesAll (u.encodeBody v) (Property.varIntsBehind v) body := by
  obtain ⟨id, _, readId, h⟩ := Parse.bind_eq_ok_iff.mp h
  obtain ⟨properties, tail, block, more⟩ := Parse.bind_eq_ok_iff.mp h
  obtain ⟨hid, rfl⟩ := Parse.packetId_eq_ok_iff.mp readId
  obtain ⟨c, found, enc, ints, short⟩ :=
    Property.recodes_between (Parse.take_word16 id _) block
  cases v with
  | v5 =>
    obtain ⟨codes, _, readCodes, last⟩ := Parse.bind_eq_ok_iff.mp more
    obtain ⟨rfl, rfl⟩ := Parse.pure_eq_ok_iff.mp last
    obtain ⟨admitted, values, rfl⟩ := Parse.codes_eq_ok readCodes
    refine ⟨rfl, Field.word16 id ++ c ++ tail, found, tail, ?_, ints, short⟩
    simp only [encodeBody, checkPacketId_eq_ok_iff.mpr ⟨hid, rfl⟩, enc,
      checkCodes_eq_ok_iff.mpr ⟨admitted, rfl⟩]
    rw [← values]
    rfl
  | v311 =>
    obtain ⟨_, _, finish, last⟩ := Parse.bind_eq_ok_iff.mp more
    obtain ⟨rfl, rfl⟩ := Parse.finish_eq_ok_iff.mp finish
    obtain ⟨rfl, rfl⟩ := Parse.pure_eq_ok_iff.mp last
    obtain ⟨rfl, rfl⟩ := Property.eq_nil_of_encodeFor_v311 enc
    refine ⟨rfl, Field.word16 id ++ [] ++ [], found, [], ?_, ints, short⟩
    simp only [encodeBody, checkPacketId_eq_ok_iff.mpr ⟨hid, rfl⟩, enc]
    rw [List.append_nil, List.append_nil]
    rfl

/-- The packet type fixes the first byte of all packets but PUBLISH. -/
lemma FixedHeader.eq_ofType {h : FixedHeader} {t : PacketType} (ne : t ≠ .publish)
    (type : h.packetType = .ok t) (check : h.check t = .ok ()) : ofType t = h := by
  have all : ∀ n : Fin 256, ∀ t ∈ (packetType ⟨UInt8.ofNat n⟩).toOption, t ≠ .publish →
      FixedHeader.check ⟨UInt8.ofNat n⟩ t = .ok () → (ofType t).bits = UInt8.ofNat n := by
    decide +kernel
  obtain ⟨b⟩ := h
  exact congrArg mk (Bytes.forall_byte (P := fun b => ∀ t ∈ (packetType ⟨b⟩).toOption,
    t ≠ .publish → FixedHeader.check ⟨b⟩ t = .ok () → (ofType t).bits = b) all b t
      (by rw [type]; rfl) ne check)

namespace Packet

/-- The variable byte integers in the body of a packet of the given type. -/
def bodyVarInts (h : FixedHeader) (v : Version) : PacketType → Parse (List VarInt.Spelling)
  | .connect => Connect.varInts
  | .publish => Publish.varInts h v
  | .connack | .subscribe | .suback | .unsubscribe | .unsuback => Property.varIntsBehind v
  | .puback | .pubrec | .pubrel | .pubcomp => Ack.varInts v
  | .disconnect | .auth => Outcome.varInts v
  | .pingreq | .pingresp => return []

/-- The variable byte integers in a packet, the size of its body the first of them. -/
def varInts (v : Version) : Parse (List VarInt.Spelling) := do
  let header ← Parse.byte
  let size ← Parse.spelling
  let body ← Parse.take size.value.toNat
  let t ← FixedHeader.packetType ⟨header⟩
  let ints ← (bodyVarInts ⟨header⟩ v t).run' body
  return size :: ints

/-- A packet is written again in its shortest form, and is one that may be written. -/
lemma recodes {h : FixedHeader} {v : Version} {t : PacketType} {body rest : Bytes} {p : Packet}
    (type : h.packetType = .ok t) (check : h.check t = .ok ())
    (read : parseBody h v t body = .ok (p, rest)) :
    p.header = h ∧ p.Admitted v ∧ p.readBack v = p ∧
      RecodesAll (p.encodeBody v) (bodyVarInts h v t) body := by
  -- all headers but those of messages are fixed by their type
  have fixed (ne : t ≠ .publish) := FixedHeader.eq_ofType ne type check
  cases t with
  | publish =>
    obtain ⟨m, whole, rfl⟩ := Parse.map_eq_ok_iff.mp read
    obtain ⟨rfl, header, same, all⟩ := Publish.recodes type whole
    exact ⟨header, trivial, congrArg publish same, all⟩
  | connect =>
    obtain ⟨c, whole, rfl⟩ := Parse.map_eq_ok_iff.mp read
    obtain ⟨rfl, all⟩ := Connect.recodes whole
    exact ⟨fixed nofun, trivial, rfl, all⟩
  | connack =>
    obtain ⟨c, whole, rfl⟩ := Parse.map_eq_ok_iff.mp read
    obtain ⟨rfl, admitted, all⟩ := Connack.recodes whole
    exact ⟨fixed nofun, admitted, rfl, all⟩
  | puback =>
    obtain ⟨a, whole, rfl⟩ := Parse.map_eq_ok_iff.mp read
    obtain ⟨rfl, defined, same, all⟩ := Ack.recodes whole
    exact ⟨fixed nofun, defined, congrArg puback same, all⟩
  | pubrec =>
    obtain ⟨a, whole, rfl⟩ := Parse.map_eq_ok_iff.mp read
    obtain ⟨rfl, defined, same, all⟩ := Ack.recodes whole
    exact ⟨fixed nofun, defined, congrArg pubrec same, all⟩
  | pubrel =>
    obtain ⟨a, whole, rfl⟩ := Parse.map_eq_ok_iff.mp read
    obtain ⟨rfl, defined, same, all⟩ := Ack.recodes whole
    exact ⟨fixed nofun, defined, congrArg pubrel same, all⟩
  | pubcomp =>
    obtain ⟨a, whole, rfl⟩ := Parse.map_eq_ok_iff.mp read
    obtain ⟨rfl, defined, same, all⟩ := Ack.recodes whole
    exact ⟨fixed nofun, defined, congrArg pubcomp same, all⟩
  | subscribe =>
    obtain ⟨s, whole, rfl⟩ := Parse.map_eq_ok_iff.mp read
    obtain ⟨rfl, fits, all⟩ := Subscribe.recodes whole
    refine ⟨fixed nofun, fun old x hx => ?_, rfl, all⟩
    subst old
    exact fits x hx
  | suback =>
    obtain ⟨s, whole, rfl⟩ := Parse.map_eq_ok_iff.mp read
    obtain ⟨rfl, all⟩ := Suback.recodes whole
    exact ⟨fixed nofun, trivial, rfl, all⟩
  | unsubscribe =>
    obtain ⟨u, whole, rfl⟩ := Parse.map_eq_ok_iff.mp read
    obtain ⟨rfl, all⟩ := Unsubscribe.recodes whole
    exact ⟨fixed nofun, trivial, rfl, all⟩
  | unsuback =>
    obtain ⟨u, whole, rfl⟩ := Parse.map_eq_ok_iff.mp read
    obtain ⟨rfl, all⟩ := Unsuback.recodes whole
    exact ⟨fixed nofun, trivial, rfl, all⟩
  | pingreq =>
    obtain ⟨_, _, finish, last⟩ := Parse.bind_eq_ok_iff.mp read
    obtain ⟨rfl, rfl⟩ := Parse.finish_eq_ok_iff.mp finish
    obtain ⟨rfl, rfl⟩ := Parse.pure_eq_ok_iff.mp last
    exact ⟨fixed nofun, trivial, rfl, [], [], [], rfl, rfl, .refl []⟩
  | pingresp =>
    obtain ⟨_, _, finish, last⟩ := Parse.bind_eq_ok_iff.mp read
    obtain ⟨rfl, rfl⟩ := Parse.finish_eq_ok_iff.mp finish
    obtain ⟨rfl, rfl⟩ := Parse.pure_eq_ok_iff.mp last
    exact ⟨fixed nofun, trivial, rfl, [], [], [], rfl, rfl, .refl []⟩
  | disconnect =>
    obtain ⟨o, whole, rfl⟩ := Parse.map_eq_ok_iff.mp read
    obtain ⟨rfl, defined, same, all⟩ := Outcome.recodes whole
    exact ⟨fixed nofun, defined, congrArg disconnect same, all⟩
  | auth =>
    obtain ⟨o, whole, rfl⟩ := Parse.map_eq_ok_iff.mp read
    cases v with
    | v311 => exact nomatch whole
    | v5 =>
      obtain ⟨o, _, outcome, more⟩ := Parse.bind_eq_ok_iff.mp whole
      obtain ⟨_, _, lifted, last⟩ := Parse.bind_eq_ok_iff.mp more
      obtain ⟨checked, rfl⟩ := Parse.lift_eq_ok_iff.mp lifted
      obtain ⟨rfl, rfl⟩ := Parse.pure_eq_ok_iff.mp last
      obtain ⟨rfl, -, same, all⟩ := Outcome.recodes_v5 outcome
      exact ⟨fixed nofun, (ReasonCode.checked_eq_ok_iff.mp checked).1,
        congrArg auth same, all⟩

/-- A packet that is read is a header, a size and a body of this size. -/
lemma decodeFirst_eq_ok {bytes : Bytes} {v : Version} {p : Packet} {n : Nat}
    (h : decodeFirst bytes v = .ok (some (p, n))) :
    ∃ header rest size used body suffix, bytes = header :: rest ∧
      VarInt.decode rest = .ok (some (size, used)) ∧ rest.drop used = body ++ suffix ∧
      body.length = size.toNat ∧ decode ⟨header⟩ body v = .ok p ∧ n = 1 + used + body.length := by
  cases bytes with
  | nil => exact nomatch h
  | cons header rest =>
    obtain ⟨found, decoded, h⟩ := WireError.bind_eq_ok_iff.mp h
    cases found with
    | none => exact nomatch h
    | some found =>
      obtain ⟨size, used⟩ := found
      simp only at h
      split at h
      · exact nomatch h
      · rename_i enough
        obtain ⟨q, whole, last⟩ := WireError.bind_eq_ok_iff.mp h
        cases last
        have len : ((rest.drop used).take size.toNat).length = size.toNat :=
          Nat.le_antisymm (List.length_take_le ..) (Nat.le_of_not_lt enough)
        exact ⟨header, rest, size, used, _, _, rfl, decoded, (List.take_append_drop ..).symm, len,
          whole, by rw [len]⟩

/-- Writing what was read gives the shortest form of the bytes: a packet that was read off the front
of `bytes` can be written again and is then read as the same packet. The new bytes are no more than
the old ones, and they are the old ones exactly if all variable byte integers among those had their
shortest form. -/
theorem encode_decodeFirst {bytes : Bytes} {v : Version} {p : Packet} {n : Nat}
    (h : decodeFirst bytes v = .ok (some (p, n))) :
    ∃ short ints, p.encode v = .ok short ∧
      decodeFirst short v = .ok (some (p, short.length)) ∧
      short.length ≤ n ∧ n ≤ bytes.length ∧ varInts v bytes = .ok (ints, bytes.drop n) ∧
      (short = bytes.take n ↔ ∀ i ∈ ints, i.IsShortest) := by
  obtain ⟨header, rest, size, used, body, suffix, rfl, decoded, tail, len, whole, rfl⟩ :=
    decodeFirst_eq_ok h
  obtain ⟨t, type, whole⟩ := WireError.bind_eq_ok_iff.mp whole
  obtain ⟨_, check, whole⟩ := WireError.bind_eq_ok_iff.mp whole
  obtain ⟨left, read⟩ : ∃ left, parseBody ⟨header⟩ v t body = .ok (p, left) := by
    change Except.map Prod.fst (parseBody ⟨header⟩ v t body) = .ok p at whole
    cases read : parseBody ⟨header⟩ v t body with
    | error e =>
      rw [read] at whole
      cases whole
    | ok found =>
      rw [read] at whole
      cases whole
      exact ⟨found.2, rfl⟩
  obtain ⟨first, admitted, same, c, found, left, enc, ints, short⟩ := recodes type check read
  -- a body that shrinks needs no longer a size in front
  obtain ⟨s, count, short⟩ := short.count decoded len
  have written : p.encode v = .ok (header :: s ++ c) := by
    refine encode_eq_ok_iff.mpr ⟨c, s, enc, count, ?_⟩
    rw [first]
  have again := decodeFirst_encode_append written admitted []
  rw [same, List.append_nil] at again
  -- the bytes that were read are the first byte, the size and the body
  obtain ⟨_, -, -, -, most, -⟩ := VarInt.encode_of_decode decoded
  have parts : rest = (rest.take used ++ body) ++ suffix := by
    rw [List.append_assoc, ← tail, List.take_append_drop]
  have total : (rest.take used ++ body).length = used + body.length := by
    rw [List.length_append, List.length_take, Nat.min_eq_left most]
  have taken : (header :: rest).take (1 + used + body.length) =
      header :: (rest.take used ++ body) := by
    rw [show 1 + used + body.length = (used + body.length) + 1 from by omega, List.take_succ_cons,
      ← total]
    exact congrArg _ ((congrArg _ parts).trans (List.take_left ..))
  have dropped : (header :: rest).drop (1 + used + body.length) = suffix := by
    rw [show 1 + used + body.length = (used + body.length) + 1 from by omega, List.drop_succ_cons,
      ← total]
    exact (congrArg _ parts).trans (List.drop_left ..)
  refine ⟨header :: s ++ c, ⟨size, used⟩ :: found, written, again, ?_, ?_, ?_, ?_⟩
  · have le := short.length_le
    rw [total, List.length_append] at le
    rw [List.cons_append, List.length_cons, List.length_append]
    omega
  · have := congrArg List.length parts
    rw [List.length_append, total] at this
    rw [List.length_cons]
    omega
  · have inner : (bodyVarInts ⟨header⟩ v t).run' body = .ok found := by
      change Except.map Prod.fst (bodyVarInts ⟨header⟩ v t body) = _
      rw [ints]
      rfl
    rw [dropped, varInts, Parse.bind_apply (Parse.byte_eq_ok_iff.mpr rfl),
      Parse.bind_apply (Parse.spelling_of_decode decoded), tail,
      Parse.bind_apply (Parse.take_eq_ok_iff.mpr ⟨rfl, len⟩),
      Parse.bind_apply (Parse.lift_eq_ok_iff.mpr ⟨type, rfl⟩)]
    exact Parse.bind_apply (Parse.lift_eq_ok_iff.mpr ⟨inner, rfl⟩) _
  · rw [taken]
    exact (short.prepend [header]).eq_iff

/-- A message in which the size of the packet, the size of the block and the subscription identifier
take a byte more than they need, in front of the first byte of PINGREQ. -/
theorem encode_decodeFirst_overlong :
    let bytes : Bytes := [0x32, 0x8B, 0, 0, 1, 0x61, 0, 7, 0x83, 0, 0x0B, 0x85, 0, 0x78, 0xC0]
    let p : Packet := .publish {
      qos := .atLeastOnce, topic := "a", packetId := 7, properties := [.subscriptionIdentifier 5],
      payload := [0x78] }
    decodeFirst bytes .v5 = .ok (some (p, 14)) ∧
      varInts .v5 bytes = .ok ([⟨11, 2⟩, ⟨3, 2⟩, ⟨5, 2⟩], [0xC0]) ∧
      ∃ short, p.encode .v5 = .ok short ∧ short.length = 11 ∧
        decodeFirst short .v5 = .ok (some (p, 11)) ∧ short ≠ bytes.take 14 := by
  intro bytes p
  have read : decodeFirst bytes .v5 = .ok (some (p, 14)) := by decide
  have found : varInts .v5 bytes = .ok ([⟨11, 2⟩, ⟨3, 2⟩, ⟨5, 2⟩], [0xC0]) := by decide
  have written : p.encode .v5 =
      .ok [0x32, 9, 0, 1, 0x61, 0, 7, 2, 0x0B, 5, 0x78] := by decide
  obtain ⟨short, ints, enc, again, -, -, ints', eq⟩ := encode_decodeFirst read
  rw [written] at enc
  cases enc
  rw [found] at ints'
  cases ints'
  exact ⟨read, found, _, written, rfl, again, fun same =>
    absurd (eq.mp same ⟨11, 2⟩ (by simp)) (by simp [VarInt.Spelling.IsShortest, VarInt.size])⟩

end Packet

end MqttClient
