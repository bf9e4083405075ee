import MqttClient.Packet.Basic
import MqttClient.Proofs.Protocol.Property
import Mathlib.Tactic.Common

/-!
# Reading undoes writing

A packet that was written is read again from any input that begins with its bytes. What is read is
the packet itself, but for what the bytes do not carry: the identifier of a message that waits for
no acknowledgment, and an extent that the content of an outcome asks for anyway. The codes and
options must be such that the reader admits them, as the writer does not look at all of them.
-/

namespace MqttClient

open Parse in
/-- An identifier that is not zero is read again. -/
lemma Parse.packetId_word16 {id : UInt16} (h : id ≠ 0) (rest : Bytes) :
    packetId (Field.word16 id ++ rest) = .ok (id, rest) := by
  rw [packetId, bind_apply (word16_eq_ok_iff.mpr rfl)]
  exact lift_eq_ok_iff.mpr ⟨if_neg h, rfl⟩

/-- Exactly the identifiers that are not zero pass their check. -/
lemma checkPacketId_eq_ok_iff {id id' : UInt16} :
    checkPacketId id = .ok id' ↔ id ≠ 0 ∧ id = id' := by
  unfold checkPacketId
  split <;> simp_all

/-- Exactly the codes that are admitted pass their check. -/
lemma ReasonCode.checked_eq_ok_iff {c c' : ReasonCode} {admitted : Bool} :
    c.checked admitted = .ok c' ↔ admitted = true ∧ c = c' := by
  unfold checked
  split <;> simp_all

/-- A list of codes passes its check exactly if all of them are admitted. -/
lemma checkCodes_eq_ok_iff {admitted : ReasonCode → Bool} {cs cs' : List ReasonCode} :
    checkCodes admitted cs = .ok cs' ↔ (∀ c ∈ cs, admitted c = true) ∧ cs = cs' := by
  induction cs generalizing cs' with
  | nil => simp [checkCodes]
  | cons c cs ih =>
    simp only [checkCodes, WireError.bind_eq_ok_iff, WireError.pure_eq_ok_iff,
      ReasonCode.checked_eq_ok_iff, ih]
    grind

/-- A list passes its check exactly if it has an element. -/
lemma checkNonempty_eq_ok_iff {α : Type} {xs xs' : List α} :
    checkNonempty xs = .ok xs' ↔ xs ≠ [] ∧ xs = xs' := by
  unfold checkNonempty
  split <;> simp_all

/-- Codes that are admitted are read again from their bytes. -/
lemma Parse.codes_map_value {admitted : ReasonCode → Bool} {cs : List ReasonCode}
    (h : ∀ c ∈ cs, admitted c = true) :
    Parse.codes admitted (cs.map ReasonCode.value) = .ok (cs, []) := by
  rw [Parse.codes, bind_apply (remainder_eq_ok_iff.mpr ⟨rfl, rfl⟩)]
  refine lift_eq_ok_iff.mpr ⟨?_, rfl⟩
  have map : (cs.map ReasonCode.value).map ReasonCode.mk = cs := by
    simp [List.map_map, Function.comp_def]
  rw [map]
  exact checkCodes_eq_ok_iff.mpr ⟨h, rfl⟩

namespace Outcome

/-- An outcome as it is read again: version 5.0 keeps an extent that is greater than the content
asks for. -/
def readBack (v : Version) (o : Outcome) : Outcome :=
  { o with
    extent :=
      if v = .v5 ∧ (Extent.required o.reason o.properties).rank < o.extent.rank then o.extent
      else .minimal }

/-- What was read of an outcome is read again as it is. -/
lemma readBack_readBack (v : Version) (o : Outcome) : (o.readBack v).readBack v = o.readBack v := by
  unfold readBack
  simp only
  split
  · rfl
  · rw [if_neg fun wide => Nat.not_lt_zero _ wide.2]

/-- A plain outcome is a success without properties. -/
lemma isPlain_iff {o : Outcome} :
    o.isPlain = true ↔ o.reason = .success ∧ o.properties = [] := by
  rcases o with ⟨⟨value⟩, properties, extent⟩
  simp [isPlain, ReasonCode.isSuccess, ReasonCode.success]

/-- Success without properties is written at no length. -/
lemma eq_of_sup_eq_minimal {o : Outcome}
    (h : o.extent.sup (.required o.reason o.properties) = .minimal) : o = {} := by
  obtain ⟨⟨value⟩, properties, extent⟩ := o
  cases properties <;> cases extent <;> by_cases hv : value = 0 <;>
    simp_all [Extent.sup, Extent.required, Extent.rank, ReasonCode.isSuccess, ReasonCode.success]

/-- What is read in the extent in which an outcome is written is the outcome itself, but for an
extent that the content asks for. -/
lemma seen_of_sup {o : Outcome} :
    seen o.reason o.properties (o.extent.sup (.required o.reason o.properties)) =
      o.readBack .v5 := by
  obtain ⟨reason, properties, extent⟩ := o
  simp only [seen, readBack]
  generalize Extent.required reason properties = needed
  cases extent <;> cases needed <;> rfl

/-- An outcome that is written as a code alone has no properties. -/
lemma properties_eq_nil_of_sup_eq_code {o : Outcome}
    (h : o.extent.sup (.required o.reason o.properties) = .code) : o.properties = [] := by
  obtain ⟨reason, properties, extent⟩ := o
  cases properties <;> cases extent <;> simp_all [Extent.sup, Extent.required, Extent.rank]

/-- An outcome with a code that is defined is read again in version 5. -/
lemma parse_encode {o : Outcome} {bytes : Bytes} (h : o.encode = .ok bytes)
    (defined : o.reason.isDefined = true) : parse bytes = .ok (o.readBack .v5, []) := by
  have checked : (ReasonCode.mk o.reason.value).checked (ReasonCode.mk o.reason.value).isDefined =
      .ok o.reason := ReasonCode.checked_eq_ok_iff.mpr ⟨defined, rfl⟩
  have seen := seen_of_sup (o := o)
  unfold encode at h
  -- the extent in which the outcome is written is the one that the reader sees
  cases written : o.extent.sup (.required o.reason o.properties) with
  | minimal =>
    rw [written] at h seen
    cases h
    rw [← seen, eq_of_sup_eq_minimal written]
    rfl
  | code =>
    rw [written] at h seen
    cases h
    rw [properties_eq_nil_of_sup_eq_code written] at seen
    rw [parse, Parse.bind_apply (Parse.atEnd_eq_ok_iff.mpr ⟨rfl, rfl⟩), if_neg (by simp),
      Parse.bind_apply (Parse.byte_eq_ok_iff.mpr rfl),
      Parse.bind_apply (Parse.lift_eq_ok_iff.mpr ⟨checked, rfl⟩),
      Parse.bind_apply (Parse.atEnd_eq_ok_iff.mpr ⟨rfl, rfl⟩), if_pos (by simp), seen]
    rfl
  | full =>
    rw [written] at h seen
    simp only [WireError.bind_eq_ok_iff, WireError.pure_eq_ok_iff] at h
    obtain ⟨block, hblock, rfl⟩ := h
    have ne := Property.encodeBlock_ne_nil hblock
    have read := Property.parseBlock_encodeBlock hblock []
    rw [List.append_nil] at read
    rw [parse, Parse.bind_apply (Parse.atEnd_eq_ok_iff.mpr ⟨rfl, rfl⟩), if_neg (by simp),
      Parse.bind_apply (Parse.byte_eq_ok_iff.mpr rfl),
      Parse.bind_apply (Parse.lift_eq_ok_iff.mpr ⟨checked, rfl⟩),
      Parse.bind_apply (Parse.atEnd_eq_ok_iff.mpr ⟨rfl, rfl⟩), if_neg (by simpa using ne),
      Parse.bind_apply read, Parse.bind_apply (x := ()) rfl, seen]
    rfl

/-- An outcome is read again in the version it was written in. -/
lemma parseFor_encodeFor {v : Version} {o : Outcome} {bytes : Bytes}
    (h : o.encodeFor v = .ok bytes) (defined : v = .v5 → o.reason.isDefined = true) :
    parseFor v bytes = .ok (o.readBack v, []) := by
  cases v with
  | v5 => exact parse_encode h (defined rfl)
  | v311 =>
    simp only [encodeFor] at h
    split at h
    · rename_i plain
      cases h
      obtain ⟨⟨value⟩, properties, extent⟩ := o
      simp only [isPlain, ReasonCode.isSuccess, Bool.and_eq_true, decide_eq_true_eq,
        List.isEmpty_iff] at plain
      obtain ⟨rfl, rfl⟩ := plain
      rfl
    · cases h

end Outcome

/-- The flags of a connect packet are told by their byte. -/
lemma ConnectFlags.ofByte_toByte (f : ConnectFlags) : ofByte f.toByte = .ok f := by
  obtain ⟨username, password, will, cleanSession⟩ := f
  rcases will with _ | ⟨⟨⟩, _ | _⟩ <;> cases username <;> cases password <;>
    cases cleanSession <;> rfl

/-- A will is read again, if the flags tell of it. -/
lemma Will.parse?_encode {v : Version} {will : Option Will} {bytes : Bytes}
    (h : Connect.encodeOption (Will.encode v) will = .ok bytes) (rest : Bytes) :
    Will.parse? v (will.map fun w => (w.qos, w.retain)) (bytes ++ rest) = .ok (will, rest) := by
  cases will with
  | none =>
    cases h
    rfl
  | some w =>
    simp only [Connect.encodeOption, Will.encode, WireError.bind_eq_ok_iff,
      WireError.pure_eq_ok_iff] at h
    obtain ⟨properties, hp, topic, ht, payload, hl, rfl⟩ := h
    refine Parse.bind_eq_ok_iff.mpr ⟨w, rest, ?_, rfl⟩
    rw [Will.parse, List.append_assoc, List.append_assoc,
      Parse.bind_apply (Property.parseFor_encodeFor hp _),
      Parse.bind_apply (Parse.text_eq_ok_iff.mpr ⟨topic, ht, rfl⟩),
      Parse.bind_apply (Parse.binary_eq_ok_iff.mpr ⟨payload, hl, rfl⟩)]
    rfl

namespace Connect

/-- A field that may be missing is read again, if the flags tell of it. -/
lemma parseOption_encodeOption {α : Type} {item : Parse α} {encode : α → Except WireError Bytes}
    (reads : ∀ x b, encode x = .ok b → ∀ rest, item (b ++ rest) = .ok (x, rest))
    {o : Option α} {bytes : Bytes} (h : encodeOption encode o = .ok bytes) (rest : Bytes) :
    parseOption item o.isSome (bytes ++ rest) = .ok (o, rest) := by
  cases o with
  | none =>
    cases h
    rfl
  | some x => exact Parse.bind_eq_ok_iff.mpr ⟨x, rest, reads x bytes h rest, rfl⟩

/-- The body of a connect packet is read again to its end. -/
lemma parseBody_encodeBody {c : Connect} {body : Bytes} (h : c.encodeBody = .ok body) :
    parseBody body = .ok (c, []) := by
  simp only [encodeBody, WireError.bind_eq_ok_iff, WireError.pure_eq_ok_iff] at h
  obtain ⟨name, hname, properties, hproperties, clientId, hclientId, will, hwill, username,
    husername, password, hpassword, rfl⟩ := h
  have readWill : Will.parse? c.version c.flags.will (will ++ (username ++ password)) =
      .ok (c.will, username ++ password) := Will.parse?_encode hwill _
  have readUsername : parseOption Parse.text c.flags.username (username ++ password) =
      .ok (c.username, password) := parseOption_encodeOption
    (fun s b hb rest => Parse.text_eq_ok_iff.mpr ⟨b, hb, rfl⟩) husername password
  have readPassword : parseOption Parse.binary c.flags.password (password ++ []) =
      .ok (c.password, []) := parseOption_encodeOption
    (fun d b hb rest => Parse.binary_eq_ok_iff.mpr ⟨b, hb, rfl⟩) hpassword []
  rw [List.append_nil] at readPassword
  simp only [List.append_assoc, List.cons_append, List.nil_append]
  rw [parseBody, Parse.bind_apply (Parse.text_eq_ok_iff.mpr ⟨name, hname, rfl⟩),
    Parse.bind_apply (Parse.require_eq_ok_iff.mpr ⟨by simp, rfl⟩) (x := ()),
    Parse.bind_apply (Parse.byte_eq_ok_iff.mpr rfl),
    Parse.bind_apply (Parse.lift_eq_ok_iff.mpr ⟨Version.ofLevel_level _, rfl⟩),
    Parse.bind_apply (Parse.byte_eq_ok_iff.mpr rfl),
    Parse.bind_apply (Parse.lift_eq_ok_iff.mpr ⟨ConnectFlags.ofByte_toByte _, rfl⟩),
    Parse.bind_apply (Parse.word16_eq_ok_iff.mpr rfl),
    Parse.bind_apply (Property.parseFor_encodeFor hproperties _),
    Parse.bind_apply (Parse.text_eq_ok_iff.mpr ⟨clientId, hclientId, rfl⟩),
    Parse.bind_apply readWill, Parse.bind_apply readUsername, Parse.bind_apply readPassword,
    Parse.bind_apply (x := ()) rfl]
  rfl

end Connect

/-- The answer to a connect packet is read again, if its code is one of the version. -/
lemma Connack.parseBody_encodeBody {v : Version} {c : Connack} {body : Bytes}
    (h : c.encodeBody v = .ok body) (admitted : c.code.isConnackCode v = true) :
    parseBody v body = .ok (c, []) := by
  obtain ⟨sessionPresent, code, ps⟩ := c
  simp only [encodeBody, WireError.bind_eq_ok_iff, WireError.pure_eq_ok_iff] at h
  obtain ⟨properties, hproperties, rfl⟩ := h
  have read := Property.parseFor_encodeFor hproperties []
  rw [List.append_nil] at read
  have flags : (if sessionPresent then 1 else 0 : UInt8) &&& 0xFE = 0 := by
    cases sessionPresent <;> rfl
  have present : decide ((if sessionPresent then 1 else 0 : UInt8) &&& 0x01 ≠ 0) =
      sessionPresent := by
    cases sessionPresent <;> rfl
  rw [parseBody, List.cons_append, List.cons_append, List.nil_append,
    Parse.bind_apply (Parse.byte_eq_ok_iff.mpr rfl),
    Parse.bind_apply (Parse.require_eq_ok_iff.mpr ⟨by simpa using flags, rfl⟩) (x := ()),
    Parse.bind_apply (Parse.byte_eq_ok_iff.mpr rfl),
    Parse.bind_apply (Parse.lift_eq_ok_iff.mpr
      ⟨ReasonCode.checked_eq_ok_iff.mpr ⟨admitted, rfl⟩, rfl⟩),
    Parse.bind_apply read, Parse.bind_apply (x := ()) rfl, present]
  rfl

namespace Publish

/-- The marks of a message are read again from its header. -/
lemma header_marks (p : Publish) :
    p.header.packetType = .ok .publish ∧ p.header.qos = .ok p.qos ∧ p.header.dup = p.dup ∧
      p.header.retain = p.retain := by
  obtain ⟨dup, qos, retain, topic, packetId, properties, payload⟩ := p
  simp only [header]
  cases dup <;> cases qos <;> cases retain <;> decide

/-- A message as it is read again: without acknowledgment there is no identifier. -/
def readBack (p : Publish) : Publish :=
  if p.isAcknowledged then p else { p with packetId := 0 }

/-- What was read of a message is read again as it is. -/
lemma readBack_readBack (p : Publish) : p.readBack.readBack = p.readBack := by
  unfold readBack
  by_cases acknowledged : p.isAcknowledged = true
  · rw [if_pos acknowledged, if_pos acknowledged]
  · rw [if_neg acknowledged]
    exact if_neg acknowledged

/-- The body of a message is read again under its header. -/
lemma parseBody_encodeBody {v : Version} {p : Publish} {body : Bytes}
    (h : p.encodeBody v = .ok body) :
    parseBody p.header v body = .ok (p.readBack, []) := by
  simp only [encodeBody, WireError.bind_eq_ok_iff, WireError.pure_eq_ok_iff] at h
  obtain ⟨_, check, topic, htopic, properties, hproperties, rfl⟩ := h
  obtain ⟨_, qos, dup, retain⟩ := p.header_marks
  simp only [List.append_assoc]
  rw [parseBody, Parse.bind_apply (Parse.lift_eq_ok_iff.mpr ⟨qos, rfl⟩),
    Parse.bind_apply (Parse.text_eq_ok_iff.mpr ⟨topic, htopic, rfl⟩)]
  by_cases hq : p.qos = .atMostOnce
  · have unacknowledged : p.isAcknowledged = false := by simp [isAcknowledged, hq]
    have check' : Publish.check { p with packetId := 0 } = .ok () := by
      simpa [Publish.check, isAcknowledged, hq] using check
    rw [if_pos hq, if_neg (by simp [unacknowledged]), List.nil_append,
      Parse.bind_apply (Parse.pure_eq_ok_iff.mpr ⟨rfl, rfl⟩)]
    beta_reduce
    rw [Parse.bind_apply (Property.parseFor_encodeFor hproperties _),
      Parse.bind_apply (Parse.remainder_eq_ok_iff.mpr ⟨rfl, rfl⟩), dup, retain, readBack,
      if_neg (by simp [unacknowledged])]
    exact Parse.bind_apply (Parse.lift_eq_ok_iff.mpr ⟨check', rfl⟩) _
  · have acknowledged : p.isAcknowledged = true := by simp [isAcknowledged, hq]
    rw [if_neg hq, if_pos acknowledged, Parse.bind_apply (Parse.word16_eq_ok_iff.mpr rfl)]
    beta_reduce
    rw [Parse.bind_apply (Property.parseFor_encodeFor hproperties _),
      Parse.bind_apply (Parse.remainder_eq_ok_iff.mpr ⟨rfl, rfl⟩), dup, retain, readBack,
      if_pos acknowledged]
    exact Parse.bind_apply (Parse.lift_eq_ok_iff.mpr ⟨check, rfl⟩) _

end Publish

namespace Ack

/-- An acknowledgment as it is read again: its outcome is. -/
def readBack (v : Version) (a : Ack) : Ack :=
  { a with outcome := a.outcome.readBack v }

/-- What was read of an acknowledgment is read again as it is. -/
lemma readBack_readBack (v : Version) (a : Ack) : (a.readBack v).readBack v = a.readBack v :=
  congrArg (fun o => { a with outcome := o }) (a.outcome.readBack_readBack v)

/-- The body of an acknowledgment is read again, if its code is defined. -/
lemma parseBody_encodeBody {v : Version} {a : Ack} {body : Bytes} (h : a.encodeBody v = .ok body)
    (defined : v = .v5 → a.outcome.reason.isDefined = true) :
    parseBody v body = .ok (a.readBack v, []) := by
  simp only [encodeBody, WireError.bind_eq_ok_iff, WireError.pure_eq_ok_iff,
    checkPacketId_eq_ok_iff] at h
  obtain ⟨_, ⟨hid, rfl⟩, outcome, houtcome, rfl⟩ := h
  rw [parseBody, Parse.bind_apply (Parse.packetId_word16 hid _),
    Parse.bind_apply (Outcome.parseFor_encodeFor houtcome defined)]
  rfl

end Ack

namespace SubscriptionOptions

/-- Whether the options say no more than a quality of service. -/
def isPlain (o : SubscriptionOptions) : Bool :=
  !o.noLocal && !o.retainAsPublished && o.retainHandling = .always

/-- Whether a version has a place for the options. -/
def fits (v : Version) (o : SubscriptionOptions) : Bool :=
  v.isV5 || o.isPlain

/-- Options that fit the version are told by their byte. -/
lemma ofByte_toByte {v : Version} {o : SubscriptionOptions} (h : o.fits v = true) :
    ofByte o.toByte v = .ok o := by
  obtain ⟨qos, noLocal, retainAsPublished, retainHandling⟩ := o
  cases v <;> cases qos <;> cases noLocal <;> cases retainAsPublished <;> cases retainHandling <;>
    first | rfl | exact absurd h (by decide)

end SubscriptionOptions

/-- A subscription takes a byte at least, and is read again if its options fit the version. -/
lemma Subscription.parse_encode {v : Version} {s : Subscription} {bytes : Bytes}
    (h : s.encode = .ok bytes) (fits : s.options.fits v = true) :
    bytes ≠ [] ∧ ∀ rest, parse v (bytes ++ rest) = .ok (s, rest) := by
  simp only [encode, WireError.bind_eq_ok_iff, WireError.pure_eq_ok_iff] at h
  obtain ⟨filter, hfilter, rfl⟩ := h
  refine ⟨by simp, fun rest => ?_⟩
  rw [List.append_assoc, List.singleton_append, parse,
    Parse.bind_apply (Parse.text_eq_ok_iff.mpr ⟨filter, hfilter, rfl⟩),
    Parse.bind_apply (Parse.byte_eq_ok_iff.mpr rfl),
    Parse.bind_apply (Parse.lift_eq_ok_iff.mpr ⟨SubscriptionOptions.ofByte_toByte fits, rfl⟩)]
  rfl

/-- Items that make up the rest of the input are read again. -/
lemma Parse.many_encodeItems {α : Type} {item : Parse α} {encode : α → Except WireError Bytes}
    {xs : List α} {bytes : Bytes}
    (reads : ∀ x ∈ xs, ∀ b, encode x = .ok b →
      b ≠ [] ∧ ∀ rest, item (b ++ rest) = .ok (x, rest))
    (h : encodeItems encode xs = .ok bytes) : many item bytes = .ok (xs, []) := by
  change (items item bytes >>= fun ys => pure (ys, [])) = _
  rw [items_encodeItems reads h]
  rfl

/-- A request to subscribe is read again, if all options fit the version. -/
lemma Subscribe.parseBody_encodeBody {v : Version} {s : Subscribe} {body : Bytes}
    (h : s.encodeBody v = .ok body) (fits : ∀ x ∈ s.subscriptions, x.options.fits v = true) :
    parseBody v body = .ok (s, []) := by
  simp only [encodeBody, WireError.bind_eq_ok_iff, WireError.pure_eq_ok_iff,
    checkPacketId_eq_ok_iff, checkNonempty_eq_ok_iff] at h
  obtain ⟨_, ⟨hid, rfl⟩, _, ⟨hne, rfl⟩, properties, hproperties, items, hitems, rfl⟩ := h
  have read := Parse.many_encodeItems (fun x hx _ hb => Subscription.parse_encode hb (fits x hx))
    hitems
  rw [List.append_assoc, parseBody, Parse.bind_apply (Parse.packetId_word16 hid _),
    Parse.bind_apply (Property.parseFor_encodeFor hproperties _), Parse.bind_apply read,
    Parse.bind_apply (Parse.lift_eq_ok_iff.mpr ⟨checkNonempty_eq_ok_iff.mpr ⟨hne, rfl⟩, rfl⟩)]
  rfl

/-- The answer to a request to subscribe is read again. -/
lemma Suback.parseBody_encodeBody {v : Version} {s : Suback} {body : Bytes}
    (h : s.encodeBody v = .ok body) : parseBody v body = .ok (s, []) := by
  simp only [encodeBody, WireError.bind_eq_ok_iff, WireError.pure_eq_ok_iff,
    checkPacketId_eq_ok_iff, checkCodes_eq_ok_iff] at h
  obtain ⟨_, ⟨hid, rfl⟩, properties, hproperties, _, ⟨hcodes, rfl⟩, rfl⟩ := h
  rw [List.append_assoc, parseBody, Parse.bind_apply (Parse.packetId_word16 hid _),
    Parse.bind_apply (Property.parseFor_encodeFor hproperties _),
    Parse.bind_apply (Parse.codes_map_value hcodes)]
  rfl

/-- A request to unsubscribe is read again. -/
lemma Unsubscribe.parseBody_encodeBody {v : Version} {u : Unsubscribe} {body : Bytes}
    (h : u.encodeBody v = .ok body) : parseBody v body = .ok (u, []) := by
  simp only [encodeBody, WireError.bind_eq_ok_iff, WireError.pure_eq_ok_iff,
    checkPacketId_eq_ok_iff, checkNonempty_eq_ok_iff] at h
  obtain ⟨_, ⟨hid, rfl⟩, _, ⟨hne, rfl⟩, properties, hproperties, items, hitems, rfl⟩ := h
  have reads : ∀ x ∈ u.filters, ∀ b, Field.text x = .ok b →
      b ≠ [] ∧ ∀ rest, Parse.text (b ++ rest) = .ok (x, rest) := fun x _ b hb =>
    ⟨Field.text_ne_nil hb, fun rest => Parse.text_eq_ok_iff.mpr ⟨b, hb, rfl⟩⟩
  have read := Parse.many_encodeItems reads hitems
  rw [List.append_assoc, parseBody, Parse.bind_apply (Parse.packetId_word16 hid _),
    Parse.bind_apply (Property.parseFor_encodeFor hproperties _), Parse.bind_apply read,
    Parse.bind_apply (Parse.lift_eq_ok_iff.mpr ⟨checkNonempty_eq_ok_iff.mpr ⟨hne, rfl⟩, rfl⟩)]
  rfl

/-- The answer to a request to unsubscribe is read again. -/
lemma Unsuback.parseBody_encodeBody {v : Version} {u : Unsuback} {body : Bytes}
    (h : u.encodeBody v = .ok body) : parseBody v body = .ok (u, []) := by
  obtain ⟨id, ps, codes⟩ := u
  simp only [encodeBody, WireError.bind_eq_ok_iff, checkPacketId_eq_ok_iff] at h
  obtain ⟨_, ⟨hid, rfl⟩, properties, hproperties, h⟩ := h
  cases v with
  | v5 =>
    simp only [WireError.bind_eq_ok_iff, WireError.pure_eq_ok_iff, checkCodes_eq_ok_iff] at h
    obtain ⟨_, ⟨hcodes, rfl⟩, rfl⟩ := h
    rw [List.append_assoc, parseBody, Parse.bind_apply (Parse.packetId_word16 hid _),
      Parse.bind_apply (Property.parseFor_encodeFor hproperties _)]
    exact Parse.bind_apply (Parse.codes_map_value hcodes) _
  | v311 =>
    simp only at h
    split at h
    · rename_i empty
      rw [List.isEmpty_iff] at empty
      cases empty
      cases h
      obtain ⟨rfl, rfl⟩ := Property.eq_nil_of_encodeFor_v311 hproperties
      rw [← List.append_nil (Field.word16 id), parseBody,
        Parse.bind_apply (Parse.packetId_word16 hid _)]
      rfl
    · cases h

/-- The codes of an authentication are defined. -/
lemma ReasonCode.isDefined_of_isAuthCode {c : ReasonCode} (h : c.isAuthCode = true) :
    c.isDefined = true := by
  simp only [isAuthCode, Bool.or_eq_true, decide_eq_true_eq] at h
  obtain (rfl | rfl) | rfl := h <;> rfl

/-- The header that is made for a type is one of this type. -/
lemma FixedHeader.ofType_type {t : PacketType} :
    (ofType t).packetType = .ok t ∧ (ofType t).check t = .ok () := by
  cases t <;> exact ⟨rfl, rfl⟩

namespace Packet

/-- Whether the reader admits the reason codes of a packet and, in version 3.1.1, the options of its
subscriptions. -/
def Admitted (v : Version) : Packet → Prop
  | connack c => c.code.isConnackCode v = true
  | puback a | pubrec a | pubrel a | pubcomp a => v = .v5 → a.outcome.reason.isDefined = true
  | subscribe s => v = .v311 → ∀ x ∈ s.subscriptions, x.options.isPlain = true
  | disconnect o => v = .v5 → o.reason.isDefined = true
  | auth o => o.reason.isAuthCode = true
  | connect _ | publish _ | suback _ | unsubscribe _ | unsuback _ | pingreq | pingresp => True

/-- A packet as it is read again. -/
def readBack (v : Version) : Packet → Packet
  | publish p => publish p.readBack
  | puback a => puback (a.readBack v)
  | pubrec a => pubrec (a.readBack v)
  | pubrel a => pubrel (a.readBack v)
  | pubcomp a => pubcomp (a.readBack v)
  | disconnect o => disconnect (o.readBack v)
  | auth o => auth (o.readBack v)
  | p => p

/-- What was read once is read again as it is. -/
lemma readBack_readBack (v : Version) (p : Packet) : (p.readBack v).readBack v = p.readBack v := by
  cases p with
  | publish m => exact congrArg publish m.readBack_readBack
  | puback a => exact congrArg puback (a.readBack_readBack v)
  | pubrec a => exact congrArg pubrec (a.readBack_readBack v)
  | pubrel a => exact congrArg pubrel (a.readBack_readBack v)
  | pubcomp a => exact congrArg pubcomp (a.readBack_readBack v)
  | disconnect o => exact congrArg disconnect (o.readBack_readBack v)
  | auth o => exact congrArg auth (o.readBack_readBack v)
  | _ => rfl

/-- What was read of a packet that may be written may be written. -/
lemma Admitted.readBack {v : Version} {p : Packet} (h : p.Admitted v) :
    (p.readBack v).Admitted v := by
  cases p <;> exact h

/-- The header of a packet is one of its type. -/
lemma header_type (p : Packet) :
    p.header.packetType = .ok p.type ∧ p.header.check p.type = .ok () := by
  cases p with
  | publish p => exact ⟨p.header_marks.1, rfl⟩
  | _ => exact FixedHeader.ofType_type

/-- The body of a packet that may be written is read again under its header. -/
lemma parseBody_encodeBody {v : Version} {p : Packet} {body : Bytes}
    (h : p.encodeBody v = .ok body) (admitted : p.Admitted v) :
    parseBody p.header v p.type body = .ok (p.readBack v, []) := by
  cases p with
  | connect c => exact Parse.bind_apply (Connect.parseBody_encodeBody h) _
  | connack c => exact Parse.bind_apply (Connack.parseBody_encodeBody h admitted) _
  | publish p => exact Parse.bind_apply (Publish.parseBody_encodeBody h) _
  | puback a => exact Parse.bind_apply (Ack.parseBody_encodeBody h admitted) _
  | pubrec a => exact Parse.bind_apply (Ack.parseBody_encodeBody h admitted) _
  | pubrel a => exact Parse.bind_apply (Ack.parseBody_encodeBody h admitted) _
  | pubcomp a => exact Parse.bind_apply (Ack.parseBody_encodeBody h admitted) _
  | subscribe s =>
    refine Parse.bind_apply (Subscribe.parseBody_encodeBody h fun x hx => ?_) _
    cases v with
    | v5 => rfl
    | v311 => exact admitted rfl x hx
  | suback s => exact Parse.bind_apply (Suback.parseBody_encodeBody h) _
  | unsubscribe u => exact Parse.bind_apply (Unsubscribe.parseBody_encodeBody h) _
  | unsuback u => exact Parse.bind_apply (Unsuback.parseBody_encodeBody h) _
  | pingreq =>
    cases h
    rfl
  | pingresp =>
    cases h
    rfl
  | disconnect o => exact Parse.bind_apply (Outcome.parseFor_encodeFor h admitted) _
  | auth o =>
    cases v with
    | v311 => cases h
    | v5 =>
      have defined := ReasonCode.isDefined_of_isAuthCode admitted
      have code : (o.readBack .v5).reason.checked (o.readBack .v5).reason.isAuthCode =
          .ok o.reason := ReasonCode.checked_eq_ok_iff.mpr ⟨admitted, rfl⟩
      refine Parse.bind_apply (x := o.readBack .v5) ?_ _
      rw [parseAuth, Parse.bind_apply (Outcome.parse_encode h defined),
        Parse.bind_apply (Parse.lift_eq_ok_iff.mpr ⟨code, rfl⟩)]
      rfl

/-- A packet is written as its header, the size of its body and its body. -/
lemma encode_eq_ok_iff {v : Version} {p : Packet} {bytes : Bytes} :
    p.encode v = .ok bytes ↔
      ∃ body size, p.encodeBody v = .ok body ∧ Field.count body.length = .ok size ∧
        bytes = p.header.bits :: size ++ body := by
  simp only [encode, WireError.bind_eq_ok_iff, WireError.pure_eq_ok_iff]
  grind

/-- A packet is read off the front of its input if its size and its body are there. -/
lemma decodeFirst_append {v : Version} {h : FixedHeader} {size : UInt32} {used : Nat}
    {body rest suffix : Bytes} (decoded : VarInt.decode rest = .ok (some (size, used)))
    (tail : rest.drop used = body ++ suffix) (len : size.toNat = body.length) :
    decodeFirst (h.bits :: rest) v =
      (decode h body v).map fun p => some (p, 1 + used + body.length) := by
  rw [decodeFirst, decoded]
  change (if ((rest.drop used).take size.toNat).length < size.toNat then pure none
    else decode h ((rest.drop used).take size.toNat) v >>= fun p =>
      pure (some (p, 1 + used + size.toNat)) : Except WireError _) = _
  rw [tail, len, List.take_left, if_neg (Nat.lt_irrefl _)]
  cases decode h body v <;> rfl

/-- What is read off the bytes of a packet, in whatever version, is what is read off its body. -/
lemma decodeFirst_append_of_encode {v : Version} {p : Packet} {bytes : Bytes}
    (h : p.encode v = .ok bytes) :
    ∃ body, p.encodeBody v = .ok body ∧ ∀ w suffix, decodeFirst (bytes ++ suffix) w =
      (parseBody p.header w p.type body).map fun read => some (read.1, bytes.length) := by
  obtain ⟨body, size, hbody, hsize, rfl⟩ := encode_eq_ok_iff.mp h
  obtain ⟨lt, enc⟩ := Field.count_eq_ok_iff.mp hsize
  refine ⟨body, hbody, fun w suffix => ?_⟩
  have decoded := VarInt.decode_encode enc (body ++ suffix)
  have len : (UInt32.ofNat body.length).toNat = body.length := by
    rw [UInt32.toNat_ofNat', Nat.mod_eq_of_lt lt]
  have whole : decode p.header body w = (parseBody p.header w p.type body).map Prod.fst := by
    rw [decode, p.header_type.1]
    change (p.header.check p.type >>= fun _ => decodeBody p.type p.header body w) = _
    rw [p.header_type.2]
    rfl
  have taken : (p.header.bits :: (size ++ body)).length = 1 + size.length + body.length := by
    rw [List.length_cons, List.length_append]
    omega
  rw [List.cons_append, List.cons_append, List.append_assoc,
    decodeFirst_append decoded (List.drop_left ..) len, whole, taken]
  cases parseBody p.header w p.type body <;> rfl

/-- A packet that may be written is read again, whatever follows it. -/
lemma decodeFirst_encode_append {v : Version} {p : Packet} {bytes : Bytes}
    (h : p.encode v = .ok bytes) (admitted : p.Admitted v) (suffix : Bytes) :
    decodeFirst (bytes ++ suffix) v = .ok (some (p.readBack v, bytes.length)) := by
  obtain ⟨body, written, read⟩ := decodeFirst_append_of_encode h
  rw [read, parseBody_encodeBody written admitted]
  rfl

/-- Reading undoes writing: a packet that was written is read again as its `readBack`, whatever
follows it, and takes the bytes that were written. CONNECT is written and read by the version that
it names, so any version may be spoken where it is read. -/
theorem decodeFirst_encode {v w : Version} {p : Packet} {bytes : Bytes}
    (h : p.encode v = .ok bytes) (admitted : p.Admitted v)
    (spoken : w = v ∨ p.type = .connect) (suffix : Bytes) :
    decodeFirst (bytes ++ suffix) w = .ok (some (p.readBack v, bytes.length)) := by
  obtain rfl | connect := spoken
  · exact decodeFirst_encode_append h admitted suffix
  · cases p with
    | connect c =>
      have h' : (Packet.connect c).encode w = .ok bytes := h
      exact decodeFirst_encode_append h' trivial suffix
    | _ => cases connect

/-- A subscription request with properties and options, in front of the first byte of PINGREQ. -/
theorem decodeFirst_encode_subscribe :
    let p : Packet := .subscribe {
      packetId := 7
      properties := [.subscriptionIdentifier 300, .user "k" "v"]
      subscriptions :=
        [⟨"a/b", { qos := .exactlyOnce, noLocal := true, retainHandling := .never }⟩] }
    let bytes : Bytes :=
      [0x82, 19, 0, 7, 10, 0x0B, 0xAC, 0x02, 0x26, 0, 1, 0x6B, 0, 1, 0x76, 0, 3, 0x61, 0x2F, 0x62,
        0x26]
    p.encode .v5 = .ok bytes ∧ p.Admitted .v5 ∧
      decodeFirst (bytes ++ [0xC0]) .v5 = .ok (some (p, 21)) := by
  intro p bytes
  have written : p.encode .v5 = .ok bytes := by decide
  have admitted : p.Admitted .v5 := nofun
  exact ⟨written, admitted, decodeFirst_encode written admitted (.inl rfl) [0xC0]⟩

end Packet

end MqttClient
