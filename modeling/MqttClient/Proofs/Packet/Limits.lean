import MqttClient.Proofs.Packet.Writable
import MqttClient.Proofs.Wire.Measured
import Mathlib.Tactic.Common

/-!
# Which packets can be written

A packet can be written exactly if each of its fields fits behind its length, its content is
complete, the version has a place for it, and its body is no larger than four groups count. How
large the body is can be told from the content alone.
-/

namespace MqttClient

namespace Property

/-- The texts and binary data of a property. -/
def fields : Property → List Bytes
  | byte .. | word16 .. | word32 .. | subscriptionIdentifier _ => []
  | text _ value => [Bytes.ofText value]
  | binary _ value => [value]
  | user key value => [Bytes.ofText key, Bytes.ofText value]

/-- Whether a property can be written: its texts and binary data fit behind their lengths, and a
subscription identifier fits into four groups. -/
structure Fits (p : Property) : Prop where
  fields : ∀ field ∈ p.fields, field.length ≤ 65535
  identifier : ∀ n, p = .subscriptionIdentifier n → n.toNat ≤ 268435455

/-- The size of the value of a property. -/
def valueSize : Property → Nat
  | byte .. => 1
  | word16 .. => 2
  | word32 .. => 4
  | subscriptionIdentifier n => VarInt.size n
  | text _ value => 2 + (Bytes.ofText value).length
  | binary _ value => 2 + value.length
  | user key value => 2 + (Bytes.ofText key).length + (2 + (Bytes.ofText value).length)

/-- The size of properties, each with its identifier. -/
def sizeAll : List Property → Nat :=
  itemsSize fun p => 1 + p.valueSize

/-- The size of the block of properties of a packet, with the size in front of it. -/
def blockSize (ps : List Property) : Version → Nat
  | .v311 => 0
  | .v5 => VarInt.size (.ofNat (sizeAll ps)) + sizeAll ps

/-- Whether the block of properties of a packet can be written, if it is not too large. -/
structure AllFit (v : Version) (ps : List Property) : Prop where
  fits : ∀ p ∈ ps, p.Fits
  absent : v = .v311 → ps = []

/-- The value of a property is written if it fits its kind. -/
lemma measured_encodeValue (p : Property) : Measured p.encodeValue p.Fits p.valueSize := by
  cases p with
  | byte | word16 | word32 =>
    refine (Measured.pure (by simp [valueSize])).congr (iff_of_true trivial ⟨?_, nofun⟩) rfl
    exact List.forall_mem_nil _
  | subscriptionIdentifier n =>
    refine (VarInt.measured_encode n).congr ⟨fun le => ⟨List.forall_mem_nil _, ?_⟩, ?_⟩ rfl
    · rintro m ⟨⟩
      exact le
    · exact fun h => h.identifier n rfl
  | text name s =>
    refine (Field.measured_text s).congr ⟨fun le => ⟨?_, nofun⟩, fun h => ?_⟩ rfl
    · exact List.forall_mem_singleton.mpr le
    · exact h.fields _ (List.mem_singleton_self _)
  | binary name data =>
    refine (Field.measured_binary data).congr ⟨fun le => ⟨?_, nofun⟩, fun h => ?_⟩ rfl
    · exact List.forall_mem_singleton.mpr le
    · exact h.fields _ (List.mem_singleton_self _)
  | user key value =>
    refine ((Field.measured_text key).bind (fun b length => (Field.measured_text value).bind
      (fun b' length' => .pure ?_) ?_) ?_).congr ?_ rfl
    · rw [List.length_append, length, length', valueSize]
    · exact Nat.le_add_left ..
    · exact Nat.le_add_right ..
    · refine ⟨fun ⟨le, le', _⟩ => ⟨?_, nofun⟩, fun h => ⟨h.fields _ ?_, h.fields _ ?_, trivial⟩⟩
      · exact List.forall_mem_cons.mpr ⟨le, List.forall_mem_singleton.mpr le'⟩
      · exact List.mem_cons_self ..
      · exact List.mem_cons_of_mem _ (List.mem_singleton_self _)

/-- A property takes a byte more than its value. -/
lemma measured_encode (p : Property) : Measured p.encode p.Fits (1 + p.valueSize) := by
  refine (p.measured_encodeValue.bind (fun b length => .pure ?_) (Nat.le_add_left ..)).congr
    (and_iff_left trivial) rfl
  rw [List.length_cons, length, Nat.add_comm]

/-- Properties are written if each of them is, and their sizes add up. -/
lemma measured_encodeAll (ps : List Property) :
    Measured (encodeAll ps) (∀ p ∈ ps, p.Fits) (sizeAll ps) := by
  rw [encodeAll_eq_encodeItems]
  exact measured_encodeItems measured_encode ps

/-- In version 5 properties fit if each of them does. -/
lemma allFit_v5_iff {ps : List Property} : AllFit .v5 ps ↔ ∀ p ∈ ps, p.Fits :=
  ⟨AllFit.fits, fun fits => ⟨fits, nofun⟩⟩

/-- In version 3.1.1 properties fit only if there are none. -/
lemma allFit_v311_iff {ps : List Property} : AllFit .v311 ps ↔ ps = [] := by
  constructor
  · exact fun h => h.absent rfl
  · rintro rfl
    exact ⟨List.forall_mem_nil _, fun _ => rfl⟩

/-- The properties of a packet are written if they fit the version. -/
lemma measured_encodeFor (v : Version) (ps : List Property) :
    Measured (encodeFor v ps) (AllFit v ps) (blockSize ps v) := by
  cases v with
  | v5 =>
    exact ((measured_encodeAll ps).bind (fun block => Field.measured_count)
      (Nat.le_add_left ..)).congr ((and_iff_left trivial).trans allFit_v5_iff.symm) rfl
  | v311 =>
    rw [encodeFor]
    split
    · rename_i empty
      rw [List.isEmpty_iff, ← allFit_v311_iff] at empty
      exact (Measured.pure rfl).congr (iff_of_true trivial empty) rfl
    · rename_i laden
      rw [List.isEmpty_iff, ← allFit_v311_iff] at laden
      exact (Measured.error ..).congr (iff_of_false id laden) rfl

/-- Properties fit together if both parts do. -/
lemma allFit_append {v : Version} {ps qs : List Property} :
    AllFit v (ps ++ qs) ↔ AllFit v ps ∧ AllFit v qs := by
  constructor
  · rintro ⟨fits, absent⟩
    rw [List.forall_mem_append] at fits
    exact ⟨⟨fits.1, fun old => (List.append_eq_nil_iff.mp (absent old)).1⟩,
      ⟨fits.2, fun old => (List.append_eq_nil_iff.mp (absent old)).2⟩⟩
  · rintro ⟨first, rest⟩
    refine ⟨List.forall_mem_append.mpr ⟨first.fits, rest.fits⟩, fun old => ?_⟩
    rw [first.absent old, rest.absent old, List.append_nil]

end Property

/-- The size of an outcome. -/
def Outcome.size (o : Outcome) : Version → Nat
  | .v311 => 0
  | .v5 =>
    match o.extent.sup (.required o.reason o.properties) with
    | .minimal => 0
    | .code => 1
    | .full => 1 + Property.blockSize o.properties .v5

/-- An outcome is written if it fits, in version 3.1.1 only if it is a success. -/
lemma Outcome.measured_encodeFor (v : Version) (o : Outcome) :
    Measured (o.encodeFor v)
      (Property.AllFit v o.properties ∧ (v = .v311 → o.reason = .success)) (o.size v) := by
  cases v with
  | v311 =>
    have plain : o.isPlain = true ↔
        Property.AllFit .v311 o.properties ∧ (Version.v311 = .v311 → o.reason = .success) := by
      rw [isPlain_iff, Property.allFit_v311_iff, and_comm, forall_prop_of_true rfl]
    rw [encodeFor]
    split
    · rename_i yes
      exact (Measured.pure rfl).congr (iff_of_true trivial (plain.mp yes)) rfl
    · rename_i no
      exact (Measured.error ..).congr (iff_of_false id (mt plain.mpr no)) rfl
  | v5 =>
    have always (old : Version.v5 = .v311) : o.reason = .success := Version.noConfusion old
    change Measured o.encode _ _
    unfold encode size
    -- an outcome that is not written in full has no properties
    cases extent : o.extent.sup (.required o.reason o.properties) with
    | minimal =>
      refine (Measured.pure rfl).congr (iff_of_true trivial ⟨?_, always⟩) rfl
      rw [eq_of_sup_eq_minimal extent, Property.allFit_v5_iff]
      exact List.forall_mem_nil _
    | code =>
      refine (Measured.pure rfl).congr (iff_of_true trivial ⟨?_, always⟩) rfl
      rw [properties_eq_nil_of_sup_eq_code extent, Property.allFit_v5_iff]
      exact List.forall_mem_nil _
    | full =>
      refine ((Property.measured_encodeFor .v5 o.properties).bind (fun block length => .pure ?_)
        (Nat.le_add_left ..)).congr (and_congr_right fun _ => iff_of_true trivial always) rfl
      rw [List.length_cons, length, Nat.add_comm]

namespace Packet

/-- The version that a packet is written in: CONNECT names its own. -/
def spoken (v : Version) : Packet → Version
  | connect c => c.version
  | _ => v

/-- The texts and binary data of a packet that have their length in front, but for those of its
properties. -/
def fields : Packet → List Bytes
  | connect c => Bytes.ofText c.clientId ::
      c.will.elim [] (fun w => [Bytes.ofText w.topic, w.payload]) ++
      c.username.toList.map Bytes.ofText ++ c.password.toList
  | publish m => [Bytes.ofText m.topic]
  | subscribe s => s.subscriptions.map fun x => Bytes.ofText x.filter
  | unsubscribe u => u.filters.map Bytes.ofText
  | _ => []

/-- The properties of a packet, with those of a will. -/
def properties : Packet → List Property
  | connect c => c.properties ++ c.will.elim [] Will.properties
  | connack c => c.properties
  | publish m => m.properties
  | puback a | pubrec a | pubrel a | pubcomp a => a.outcome.properties
  | subscribe s => s.properties
  | suback s => s.properties
  | unsubscribe u => u.properties
  | unsuback u => u.properties
  | disconnect o | auth o => o.properties
  | pingreq | pingresp => []

/-- Whether a packet has all that its type asks for: a topic, a packet identifier, something to ask
for, and codes that mean something. -/
def IsComplete (v : Version) : Packet → Prop
  | publish m => m.topic ≠ "" ∧ (m.isAcknowledged = true → m.packetId ≠ 0)
  | puback a | pubrec a | pubrel a | pubcomp a => a.packetId ≠ 0
  | subscribe s => s.packetId ≠ 0 ∧ s.subscriptions ≠ []
  | suback s => s.packetId ≠ 0 ∧ ∀ c ∈ s.codes, c.isSubackCode v = true
  | unsubscribe u => u.packetId ≠ 0 ∧ u.filters ≠ []
  | unsuback u => u.packetId ≠ 0 ∧ (v = .v5 → ∀ c ∈ u.codes, c.isDefined = true)
  | connect _ | connack _ | pingreq | pingresp | disconnect _ | auth _ => True

/-- Whether a packet says nothing that version 3.1.1 has no place for, but for its properties. -/
def IsPlain : Packet → Prop
  | puback a | pubrec a | pubrel a | pubcomp a => a.outcome.reason = .success
  | unsuback u => u.codes = []
  | disconnect o => o.reason = .success
  | auth _ => False
  | _ => True

/-- Whether a packet can be written, if it is not too large. -/
structure Fits (v : Version) (p : Packet) : Prop where
  fields : ∀ field ∈ p.fields, field.length ≤ 65535
  properties : Property.AllFit (p.spoken v) p.properties
  complete : p.IsComplete v
  plain : p.spoken v = .v311 → p.IsPlain

/-- The size of the body of a packet. -/
def bodySize (v : Version) : Packet → Nat
  | connect c => 10 + Property.blockSize c.properties c.version +
      (2 + (Bytes.ofText c.clientId).length) +
      c.will.elim 0 (fun w => Property.blockSize w.properties c.version +
        (2 + (Bytes.ofText w.topic).length) + (2 + w.payload.length)) +
      c.username.elim 0 (fun s => 2 + (Bytes.ofText s).length) +
      c.password.elim 0 (fun b => 2 + b.length)
  | connack c => 2 + Property.blockSize c.properties v
  | publish m => (2 + (Bytes.ofText m.topic).length) + (if m.isAcknowledged then 2 else 0) +
      Property.blockSize m.properties v + m.payload.length
  | puback a | pubrec a | pubrel a | pubcomp a => 2 + a.outcome.size v
  | subscribe s => 2 + Property.blockSize s.properties v +
      itemsSize (fun x => 2 + (Bytes.ofText x.filter).length + 1) s.subscriptions
  | suback s => 2 + Property.blockSize s.properties v + s.codes.length
  | unsubscribe u => 2 + Property.blockSize u.properties v +
      itemsSize (fun x => 2 + (Bytes.ofText x).length) u.filters
  | unsuback u => 2 + Property.blockSize u.properties v + u.codes.length
  | pingreq | pingresp => 0
  | disconnect o | auth o => o.size v

end Packet
variable {v : Version} {size : Nat}

/-- The body of a message is written if the message fits. -/
lemma Publish.measured_encodeBody (v : Version) (m : Publish) :
    Measured (m.encodeBody v) ((Packet.publish m).Fits v) ((Packet.publish m).bodySize v) := by
  have passes {y : Unit} : m.check = .ok y ↔ (Packet.publish m).IsComplete v ∧ () = y :=
    check_eq_ok_iff.trans (and_iff_left rfl).symm
  refine (Measured.check passes ((Field.measured_text m.topic).bind
    (fun b length => (Property.measured_encodeFor v m.properties).bind
      (fun b' length' => .pure ?_) ?_) ?_)).congr ?_ rfl
  · simp only [List.length_append, length, length', apply_ite List.length, Field.length_word16,
      List.length_nil, Packet.bodySize]
  · simp only [Packet.bodySize]
    omega
  · simp only [Packet.bodySize]
    omega
  · exact ⟨fun h => ⟨List.forall_mem_singleton.mpr h.2.1, h.2.2.1, h.1, fun _ => trivial⟩,
      fun h => ⟨h.complete, h.fields _ (List.mem_singleton_self _), h.properties, trivial⟩⟩

/-- The body of an acknowledgment is written if its identifier and its outcome fit. -/
lemma Ack.measured_encodeBody (v : Version) (a : Ack) :
    Measured (a.encodeBody v)
      (a.packetId ≠ 0 ∧ Property.AllFit v a.outcome.properties ∧
        (v = .v311 → a.outcome.reason = .success)) (2 + a.outcome.size v) := by
  refine (Measured.check checkPacketId_eq_ok_iff ((a.outcome.measured_encodeFor v).bind
    (fun b length => .pure ?_) (Nat.le_add_left ..))).congr
    (and_congr_right fun _ => and_iff_left trivial) rfl
  rw [List.length_append, Field.length_word16, length]

/-- The acknowledgments of messages share one layout. -/
lemma Packet.fits_ack {p : Packet} {a : Ack} (ack : p ∈ [puback a, pubrec a, pubrel a, pubcomp a]) :
    p.Fits v ↔ a.packetId ≠ 0 ∧ Property.AllFit v a.outcome.properties ∧
      (v = .v311 → a.outcome.reason = .success) := by
  simp only [List.mem_cons, List.not_mem_nil, or_false] at ack
  obtain rfl | rfl | rfl | rfl := ack <;>
    exact ⟨fun h => ⟨h.complete, h.properties, h.plain⟩,
      fun h => ⟨List.forall_mem_nil _, h.2.1, h.1, h.2.2⟩⟩

/-- A subscription is written if its filter is short enough. -/
lemma Subscription.measured_encode (s : Subscription) :
    Measured s.encode ((Bytes.ofText s.filter).length ≤ 65535)
      (2 + (Bytes.ofText s.filter).length + 1) := by
  refine ((Field.measured_text s.filter).bind (fun b length => .pure ?_)
    (Nat.le_add_right ..)).congr (and_iff_left trivial) rfl
  rw [List.length_append, length, List.length_singleton]

/-- What begins with a packet identifier. -/
lemma length_word16_append (id : UInt16) {bytes : Bytes} (length : bytes.length = size) :
    (Field.word16 id ++ bytes).length = 2 + size := by
  rw [List.length_append, Field.length_word16, length]

/-- A request: an identifier, properties, and one thing at least that is asked for. -/
lemma measured_request {α : Type} {encode : α → Except WireError Bytes} {fits : α → Prop}
    {size : α → Nat} (each : ∀ x, Measured (encode x) (fits x) (size x)) (v : Version)
    (id : UInt16) (ps : List Property) (xs : List α) :
    Measured (do
        let id ← checkPacketId id
        let xs ← checkNonempty xs
        let properties ← Property.encodeFor v ps
        return Field.word16 id ++ properties ++ (← encodeItems encode xs))
      (id ≠ 0 ∧ xs ≠ [] ∧ Property.AllFit v ps ∧ ∀ x ∈ xs, fits x)
      (2 + Property.blockSize ps v + itemsSize size xs) := by
  refine (Measured.check checkPacketId_eq_ok_iff (.check checkNonempty_eq_ok_iff
    ((Property.measured_encodeFor v ps).bind (fun b length =>
      (measured_encodeItems each xs).bind (fun b' length' => .pure ?_) ?_) ?_))).congr ?_ rfl
  · rw [List.length_append, length_word16_append id length, length']
  · exact Nat.le_add_left ..
  · omega
  · rw [and_true]

/-- A reply: an identifier, properties, and codes. -/
lemma measured_reply (admitted : ReasonCode → Bool) (v : Version) (id : UInt16)
    (ps : List Property) (cs : List ReasonCode) :
    Measured (do
        let id ← checkPacketId id
        let properties ← Property.encodeFor v ps
        let codes ← checkCodes admitted cs
        return Field.word16 id ++ properties ++ codes.map ReasonCode.value)
      (id ≠ 0 ∧ Property.AllFit v ps ∧ ∀ c ∈ cs, admitted c = true)
      (2 + Property.blockSize ps v + cs.length) := by
  have codes {b : Bytes} (length : b.length = Property.blockSize ps v) :
      Measured (do return Field.word16 id ++ b ++ (← checkCodes admitted cs).map ReasonCode.value)
        (∀ c ∈ cs, admitted c = true) (2 + Property.blockSize ps v + cs.length) := by
    refine (Measured.check checkCodes_eq_ok_iff (.pure ?_)).congr (and_iff_left trivial) rfl
    rw [List.length_append, length_word16_append id length, List.length_map]
  refine Measured.check checkPacketId_eq_ok_iff
    ((Property.measured_encodeFor v ps).bind (fun b => codes) ?_)
  omega

/-- The body of a request to subscribe is written if the request fits. -/
lemma Subscribe.measured_encodeBody (v : Version) (s : Subscribe) :
    Measured (s.encodeBody v) ((Packet.subscribe s).Fits v) ((Packet.subscribe s).bodySize v) := by
  refine (measured_request Subscription.measured_encode v s.packetId s.properties
    s.subscriptions).congr ⟨?_, fun h => ?_⟩ rfl
  · rintro ⟨identified, asks, properties, filters⟩
    exact ⟨List.forall_mem_map.mpr filters, properties, ⟨identified, asks⟩, fun _ => trivial⟩
  · exact ⟨h.complete.1, h.complete.2, h.properties, List.forall_mem_map.mp h.fields⟩

/-- The body of a request to unsubscribe is written if the request fits. -/
lemma Unsubscribe.measured_encodeBody (v : Version) (u : Unsubscribe) :
    Measured (u.encodeBody v) ((Packet.unsubscribe u).Fits v)
      ((Packet.unsubscribe u).bodySize v) := by
  refine (measured_request Field.measured_text v u.packetId u.properties u.filters).congr
    ⟨?_, fun h => ?_⟩ rfl
  · rintro ⟨identified, asks, properties, filters⟩
    exact ⟨List.forall_mem_map.mpr filters, properties, ⟨identified, asks⟩, fun _ => trivial⟩
  · exact ⟨h.complete.1, h.complete.2, h.properties, List.forall_mem_map.mp h.fields⟩

/-- The body of the answer to a request to subscribe is written if the answer fits. -/
lemma Suback.measured_encodeBody (v : Version) (s : Suback) :
    Measured (s.encodeBody v) ((Packet.suback s).Fits v) ((Packet.suback s).bodySize v) := by
  refine (measured_reply (·.isSubackCode v) v s.packetId s.properties s.codes).congr
    ⟨?_, fun h => ⟨h.complete.1, h.properties, h.complete.2⟩⟩ rfl
  rintro ⟨identified, properties, codes⟩
  exact ⟨List.forall_mem_nil _, properties, ⟨identified, codes⟩, fun _ => trivial⟩

/-- The body of the answer to a request to unsubscribe is written if the answer fits. -/
lemma Unsuback.measured_encodeBody (v : Version) (u : Unsuback) :
    Measured (u.encodeBody v) ((Packet.unsuback u).Fits v) ((Packet.unsuback u).bodySize v) := by
  cases v with
  | v5 =>
    refine (measured_reply (·.isDefined) .v5 u.packetId u.properties u.codes).congr
      ⟨?_, fun h => ⟨h.complete.1, h.properties, h.complete.2 rfl⟩⟩ rfl
    rintro ⟨identified, properties, codes⟩
    exact ⟨List.forall_mem_nil _, properties, ⟨identified, fun _ => codes⟩, nofun⟩
  | v311 =>
    have codes : Measured
        (if u.codes.isEmpty then pure (Field.word16 u.packetId) else .error .unsupported)
        (u.codes = []) (2 + u.codes.length) := by
      split
      · rename_i empty
        rw [List.isEmpty_iff] at empty
        refine (Measured.pure ?_).congr (iff_of_true trivial empty) rfl
        rw [empty, Field.length_word16]
        rfl
      · rename_i laden
        exact (Measured.error ..).congr (iff_of_false id (mt List.isEmpty_iff.mpr laden)) rfl
    refine (Measured.check checkPacketId_eq_ok_iff
      ((Property.measured_encodeFor .v311 u.properties).bind
        (fun _ _ => codes) (Nat.zero_le _))).congr ⟨?_, fun h => ?_⟩ rfl
    · rintro ⟨identified, properties, codes⟩
      exact ⟨List.forall_mem_nil _, properties, ⟨identified, nofun⟩, fun _ => codes⟩
    · exact ⟨h.complete.1, h.properties, h.plain rfl⟩

/-- A will is written if its properties, topic and payload fit. -/
lemma Will.measured_encode (v : Version) (w : Will) :
    Measured (w.encode v)
      (Property.AllFit v w.properties ∧ (Bytes.ofText w.topic).length ≤ 65535 ∧
        w.payload.length ≤ 65535)
      (Property.blockSize w.properties v + (2 + (Bytes.ofText w.topic).length) +
        (2 + w.payload.length)) := by
  refine ((Property.measured_encodeFor v w.properties).bind (fun b length =>
    (Field.measured_text w.topic).bind (fun b' length' =>
      (Field.measured_binary w.payload).bind (fun b'' length'' => .pure ?_) ?_) ?_) ?_).congr
    ?_ rfl
  · rw [List.length_append, List.length_append, length, length', length'']
  · omega
  · omega
  · omega
  · rw [and_true]

/-- What CONNECT has in front is there, and each of the other fields may be left out. -/
lemma Connect.fits_iff {c : Connect} {v : Version} :
    (Packet.connect c).Fits v ↔ Property.AllFit c.version c.properties ∧
      (Bytes.ofText c.clientId).length ≤ 65535 ∧
      (∀ w ∈ c.will, Property.AllFit c.version w.properties ∧
        (Bytes.ofText w.topic).length ≤ 65535 ∧ w.payload.length ≤ 65535) ∧
      (∀ s ∈ c.username, (Bytes.ofText s).length ≤ 65535) ∧
      ∀ b ∈ c.password, b.length ≤ 65535 := by
  have same : (Packet.connect c).Fits v ↔
      (∀ field ∈ (Packet.connect c).fields, field.length ≤ 65535) ∧
        Property.AllFit c.version (Packet.connect c).properties :=
    ⟨fun h => ⟨h.fields, h.properties⟩, fun h => ⟨h.1, h.2, trivial, fun _ => trivial⟩⟩
  have none : Property.AllFit c.version [] := ⟨nofun, fun _ => rfl⟩
  rw [same, Packet.fields, Packet.properties, Property.allFit_append]
  cases c.will <;> simp [none, or_imp, forall_and] <;> tauto

/-- The body of a connect packet is written if the packet fits. -/
lemma Connect.measured_encodeBody (c : Connect) (v : Version) :
    Measured c.encodeBody ((Packet.connect c).Fits v) ((Packet.connect c).bodySize v) := by
  have name : Measured (Field.text protocolName) True 6 :=
    (Field.measured_text protocolName).congr (iff_of_true (by decide +kernel) trivial) rfl
  simp only [Packet.bodySize]
  refine (name.bind (fun b₁ length₁ => (Property.measured_encodeFor c.version c.properties).bind
    (fun b₂ length₂ => (Field.measured_text c.clientId).bind (fun b₃ length₃ =>
      (measured_encodeOption (Will.measured_encode c.version) c.will).bind (fun b₄ length₄ =>
        (measured_encodeOption Field.measured_text c.username).bind (fun b₅ length₅ =>
          (measured_encodeOption Field.measured_binary c.password).bind
            (fun b₆ length₆ => .pure ?_) ?_) ?_) ?_) ?_) ?_) ?_).congr ?_ rfl
  · simp only [List.length_append, length₁, length₂, length₃, length₄, length₅, length₆,
      Field.length_word16, List.length_cons, List.length_nil]
  · omega
  · omega
  · omega
  · omega
  · omega
  · omega
  · rw [fits_iff]
    tauto

/-- The body of the answer to a connect packet is written if the answer fits. -/
lemma Connack.measured_encodeBody (v : Version) (c : Connack) :
    Measured (c.encodeBody v) ((Packet.connack c).Fits v) ((Packet.connack c).bodySize v) := by
  refine ((Property.measured_encodeFor v c.properties).bind (fun b length => .pure ?_)
    (Nat.le_add_left ..)).congr ⟨fun h => ?_, fun h => ⟨h.properties, trivial⟩⟩ rfl
  · rw [List.length_append, length]
    rfl
  · exact ⟨List.forall_mem_nil _, h.1, trivial, fun _ => trivial⟩

/-- The body of a packet is written if the packet fits, and has the size that is told of it. -/
lemma Packet.measured_encodeBody (v : Version) (p : Packet) :
    Measured (p.encodeBody v) (p.Fits v) (p.bodySize v) := by
  cases p with
  | connect c => exact c.measured_encodeBody v
  | connack c => exact c.measured_encodeBody v
  | publish m => exact m.measured_encodeBody v
  | puback a => exact (a.measured_encodeBody v).congr (fits_ack (by simp)).symm rfl
  | pubrec a => exact (a.measured_encodeBody v).congr (fits_ack (by simp)).symm rfl
  | pubrel a => exact (a.measured_encodeBody v).congr (fits_ack (by simp)).symm rfl
  | pubcomp a => exact (a.measured_encodeBody v).congr (fits_ack (by simp)).symm rfl
  | subscribe s => exact s.measured_encodeBody v
  | suback s => exact s.measured_encodeBody v
  | unsubscribe u => exact u.measured_encodeBody v
  | unsuback u => exact u.measured_encodeBody v
  | pingreq | pingresp =>
    refine (Measured.pure rfl).congr (iff_of_true trivial ⟨?_, ?_, trivial, fun _ => trivial⟩) rfl
    · exact List.forall_mem_nil _
    · exact ⟨List.forall_mem_nil _, fun _ => rfl⟩
  | disconnect o =>
    refine (o.measured_encodeFor v).congr ⟨fun h => ?_, fun h => ⟨h.properties, h.plain⟩⟩ rfl
    exact ⟨List.forall_mem_nil _, h.1, trivial, h.2⟩
  | auth o =>
    cases v with
    | v311 => exact (Measured.error ..).congr (iff_of_false id fun h => h.plain rfl) rfl
    | v5 =>
      refine (o.measured_encodeFor .v5).congr ⟨fun h => ?_, fun h => ⟨h.properties, nofun⟩⟩ rfl
      exact ⟨List.forall_mem_nil _, h.1, trivial, nofun⟩

/-- A packet can be written in a version exactly if its fields fit behind their lengths, it is
complete, the version has a place for all it says, and its body is not too large; the content tells
the size of the body. What is written is the first byte, the size of the body in the fewest groups
that spell it, and the body. -/
theorem Packet.encode_ok_iff_fits (v : Version) (p : Packet) :
    ((∃ bytes, p.encode v = .ok bytes) ↔ p.Fits v ∧ p.bodySize v ≤ 268435455) ∧
      ∀ bytes, p.encode v = .ok bytes →
        ∃ body size, p.encodeBody v = .ok body ∧ body.length = p.bodySize v ∧
          VarInt.Spells size body.length ∧
          (∀ other, VarInt.Spells other body.length → size.length ≤ other.length) ∧
          bytes = p.header.bits :: size ++ body := by
  have measured := p.measured_encodeBody v
  constructor
  · change p.IsWritable v ↔ _
    rw [isWritable_iff]
    constructor
    · rintro ⟨body, written, le⟩
      obtain ⟨fits, length⟩ := measured.sound written
      exact ⟨fits, length ▸ le⟩
    · rintro ⟨fits, le⟩
      obtain ⟨body, written⟩ := measured.complete fits le
      exact ⟨body, written, (measured.sound written).2.symm ▸ le⟩
  · intro bytes h
    obtain ⟨body, size, written, counted, rfl⟩ := encode_eq_ok_iff.mp h
    obtain ⟨lt, enc⟩ := Field.count_eq_ok_iff.mp counted
    obtain ⟨spells, shortest⟩ := VarInt.spells_of_encode enc
    have number : (UInt32.ofNat body.length).toNat = body.length :=
      UInt32.toNat_ofNat_of_lt' lt
    rw [number] at spells
    refine ⟨body, size, written, (measured.sound written).2, spells, fun other same => ?_, rfl⟩
    rw [shortest]
    exact VarInt.Spells.size_le (number.symm ▸ same)

end MqttClient
