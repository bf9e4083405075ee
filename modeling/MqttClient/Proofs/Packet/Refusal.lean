import MqttClient.Proofs.Packet.RoundTrip
import Mathlib.Tactic.Common

/-!
# Packets that are written and not read

The writer does not look at all reason codes, nor at the options of a subscription. What it lets
pass, the reader refuses: a packet that was written is read again exactly if its codes and options
are admitted, and otherwise the reader names the first of them that is not.
-/

namespace MqttClient

/-- A code that is not admitted is refused, whatever was to be read behind it. -/
lemma Parse.checked_of_not {α : Type} {c : ReasonCode} {admitted : Bool} (h : admitted = false)
    (next : ReasonCode → Parse α) (input : Bytes) :
    ((liftM (c.checked admitted) : Parse ReasonCode) >>= next) input =
      .error (.invalidReasonCode c.value) := by
  rw [ReasonCode.checked, if_neg (Bool.eq_false_iff.mp h)]
  exact bind_of_error rfl next

/-- What the reader reports of a code that was written. -/
def ReasonCode.fault? (c : ReasonCode) (admitted : Bool) : Option WireError :=
  if admitted then none else some (.invalidReasonCode c.value)

/-- Exactly the codes that are admitted have no fault. -/
lemma ReasonCode.fault?_eq_none_iff {c : ReasonCode} {admitted : Bool} :
    c.fault? admitted = none ↔ admitted = true := by
  cases admitted <;> simp [fault?]

/-- The fault of a code that is not admitted names the code. -/
lemma ReasonCode.fault?_eq_some_iff {c : ReasonCode} {admitted : Bool} {e : WireError} :
    c.fault? admitted = some e ↔ admitted = false ∧ .invalidReasonCode c.value = e := by
  cases admitted <;> simp [fault?]

/-- Items are read up to the first one that is refused. -/
lemma Parse.itemsWithin_of_refused {α : Type} {item : Parse α} {encode : α → Except WireError Bytes}
    {before after : List α} {x : α} {bytes : Bytes} {fuel : Nat} {e : WireError}
    (len : bytes.length ≤ fuel)
    (reads : ∀ y ∈ before, ∀ b, encode y = .ok b →
      b ≠ [] ∧ ∀ rest, item (b ++ rest) = .ok (y, rest))
    (refuses : ∀ b, encode x = .ok b → b ≠ [] ∧ ∀ rest, item (b ++ rest) = .error e)
    (h : encodeItems encode (before ++ x :: after) = .ok bytes) :
    itemsWithin item fuel bytes = .error e := by
  induction before generalizing bytes fuel with
  | nil =>
    obtain ⟨b, bs, hb, -, rfl⟩ := encodeItems_cons_eq_ok_iff.mp h
    obtain ⟨ne, refused⟩ := refuses b hb
    have pos : 0 < b.length := List.length_pos_iff.mpr ne
    rw [List.length_append] at len
    obtain ⟨fuel, rfl⟩ : ∃ k, fuel = k + 1 := ⟨fuel - 1, by omega⟩
    rw [itemsWithin_succ (by simp [ne]), refused bs]
    rfl
  | cons y before ih =>
    obtain ⟨b, bs, hb, hbs, rfl⟩ := encodeItems_cons_eq_ok_iff.mp h
    obtain ⟨ne, read⟩ := reads y (by simp) b hb
    have pos : 0 < b.length := List.length_pos_iff.mpr ne
    rw [List.length_append] at len
    obtain ⟨fuel, rfl⟩ : ∃ k, fuel = k + 1 := ⟨fuel - 1, by omega⟩
    have tail := ih (by omega : bs.length ≤ fuel) (fun z hz => reads z (by simp [hz])) hbs
    rw [itemsWithin_succ (by simp [ne]), read bs]
    change (itemsWithin item fuel bs >>= fun ys => pure (y :: ys)) = _
    rw [tail]
    rfl

namespace Outcome

/-- What the reader reports of an outcome that was written. Version 3.1.1 writes none. -/
def fault? (o : Outcome) : Version → Option WireError
  | .v5 => o.reason.fault? o.reason.isDefined
  | .v311 => none

/-- An outcome has a fault only in version 5, if its code is not defined. -/
lemma fault?_eq_none_iff {v : Version} {o : Outcome} :
    o.fault? v = none ↔ (v = .v5 → o.reason.isDefined = true) := by
  cases v with
  | v5 => simp [fault?, ReasonCode.fault?_eq_none_iff]
  | v311 => simp [fault?]

/-- Any reason but success is written, so that the reader meets it first. -/
lemma exists_encode_eq_cons {o : Outcome} {bytes : Bytes} (h : o.encode = .ok bytes)
    (failed : o.reason.isSuccess = false) : ∃ rest, bytes = o.reason.value :: rest := by
  obtain ⟨reason, properties, extent⟩ := o
  unfold encode at h
  cases written : extent.sup (.required reason properties) with
  | minimal =>
    have plain := eq_of_sup_eq_minimal (o := ⟨reason, properties, extent⟩) written
    cases plain
    cases failed
  | code =>
    rw [written] at h
    cases h
    exact ⟨[], rfl⟩
  | full =>
    rw [written] at h
    simp only [WireError.bind_eq_ok_iff, WireError.pure_eq_ok_iff] at h
    obtain ⟨block, -, rfl⟩ := h
    exact ⟨block, rfl⟩

/-- An outcome with a code that is not defined is refused for this code. -/
lemma parse_of_undefined {o : Outcome} {bytes : Bytes} (h : o.encode = .ok bytes)
    (undefined : o.reason.isDefined = false) :
    parse bytes = .error (.invalidReasonCode o.reason.value) := by
  have failed : o.reason.isSuccess = false := by
    obtain ⟨⟨value⟩, properties, extent⟩ := o
    by_contra success
    simp only [ReasonCode.isSuccess, Bool.not_eq_false, decide_eq_true_eq] at success
    subst success
    cases undefined
  obtain ⟨rest, rfl⟩ := exists_encode_eq_cons h failed
  rw [parse, Parse.bind_apply (Parse.atEnd_eq_ok_iff.mpr ⟨rfl, rfl⟩), if_neg (by simp),
    Parse.bind_apply (Parse.byte_eq_ok_iff.mpr rfl)]
  exact Parse.checked_of_not (c := ⟨o.reason.value⟩) undefined _ rest

/-- An outcome with a fault is refused for it. -/
lemma parseFor_of_fault? {v : Version} {o : Outcome} {bytes : Bytes} {e : WireError}
    (h : o.encodeFor v = .ok bytes) (fault : o.fault? v = some e) :
    parseFor v bytes = .error e := by
  cases v with
  | v5 =>
    obtain ⟨undefined, rfl⟩ := ReasonCode.fault?_eq_some_iff.mp fault
    exact parse_of_undefined h undefined
  | v311 => cases fault

end Outcome

/-- An acknowledgment whose outcome has a fault is refused for it. -/
lemma Ack.parseBody_of_fault? {v : Version} {a : Ack} {body : Bytes} {e : WireError}
    (h : a.encodeBody v = .ok body) (fault : a.outcome.fault? v = some e) :
    parseBody v body = .error e := by
  simp only [encodeBody, WireError.bind_eq_ok_iff, WireError.pure_eq_ok_iff,
    checkPacketId_eq_ok_iff] at h
  obtain ⟨_, ⟨hid, rfl⟩, outcome, houtcome, rfl⟩ := h
  rw [parseBody, Parse.bind_apply (Parse.packetId_word16 hid _)]
  exact Parse.bind_of_error (Outcome.parseFor_of_fault? houtcome fault) _

/-- The answer to a connect packet is refused for a code that is none of this version. -/
lemma Connack.parseBody_of_not {v : Version} {c : Connack} {body : Bytes}
    (h : c.encodeBody v = .ok body) (unknown : c.code.isConnackCode v = false) :
    parseBody v body = .error (.invalidReasonCode c.code.value) := by
  simp only [encodeBody, WireError.bind_eq_ok_iff, WireError.pure_eq_ok_iff] at h
  obtain ⟨properties, -, rfl⟩ := h
  have flags : (if c.sessionPresent then 1 else 0 : UInt8) &&& 0xFE = 0 := by
    cases c.sessionPresent <;> rfl
  rw [parseBody, List.cons_append, List.cons_append, List.nil_append,
    Parse.bind_apply (Parse.byte_eq_ok_iff.mpr rfl),
    Parse.bind_apply (Parse.require_eq_ok_iff.mpr ⟨by simpa using flags, rfl⟩) (x := ()),
    Parse.bind_apply (Parse.byte_eq_ok_iff.mpr rfl)]
  exact Parse.checked_of_not (c := ⟨c.code.value⟩) unknown _ properties

/-- Options that do not fit the version are refused for their byte. -/
lemma SubscriptionOptions.ofByte_of_not_fits {v : Version} {o : SubscriptionOptions}
    (h : o.fits v = false) : ofByte o.toByte v = .error (.invalidFlags o.toByte) := by
  obtain ⟨qos, noLocal, retainAsPublished, retainHandling⟩ := o
  cases v with
  | v5 => cases h
  | v311 =>
    cases qos <;> cases noLocal <;> cases retainAsPublished <;> cases retainHandling <;>
      first | rfl | exact absurd h (by decide)

/-- A subscription is refused for options that do not fit the version. -/
lemma Subscription.parse_of_not_fits {v : Version} {s : Subscription} {bytes : Bytes}
    (h : s.encode = .ok bytes) (unfit : s.options.fits v = false) :
    bytes ≠ [] ∧ ∀ rest, parse v (bytes ++ rest) = .error (.invalidFlags s.options.toByte) := by
  simp only [encode, WireError.bind_eq_ok_iff, WireError.pure_eq_ok_iff] at h
  obtain ⟨filter, hfilter, rfl⟩ := h
  refine ⟨by simp, fun rest => ?_⟩
  rw [List.append_assoc, List.singleton_append, parse,
    Parse.bind_apply (Parse.text_eq_ok_iff.mpr ⟨filter, hfilter, rfl⟩),
    Parse.bind_apply (Parse.byte_eq_ok_iff.mpr rfl), SubscriptionOptions.ofByte_of_not_fits unfit]
  exact Parse.bind_of_error rfl _

namespace Subscribe

/-- What the reader reports of a subscription request that was written: the first options that the
version has no place for. -/
def fault? (v : Version) (s : Subscribe) : Option WireError :=
  (s.subscriptions.find? fun x => !x.options.fits v).map fun x => .invalidFlags x.options.toByte

/-- A request to subscribe has a fault only in version 3.1.1, if some options are not plain. -/
lemma fault?_eq_none_iff {v : Version} {s : Subscribe} :
    s.fault? v = none ↔ (v = .v311 → ∀ x ∈ s.subscriptions, x.options.isPlain = true) := by
  rw [fault?, Option.map_eq_none_iff, List.find?_eq_none]
  cases v <;> simp [SubscriptionOptions.fits, Version.isV5]

/-- A request to subscribe that has a fault is refused for it. -/
lemma parseBody_of_fault? {v : Version} {s : Subscribe} {body : Bytes} {e : WireError}
    (h : s.encodeBody v = .ok body) (fault : s.fault? v = some e) :
    parseBody v body = .error e := by
  simp only [encodeBody, WireError.bind_eq_ok_iff, WireError.pure_eq_ok_iff,
    checkPacketId_eq_ok_iff, checkNonempty_eq_ok_iff] at h
  obtain ⟨_, ⟨hid, rfl⟩, _, ⟨-, rfl⟩, properties, hproperties, items, hitems, rfl⟩ := h
  obtain ⟨x, found, rfl⟩ := Option.map_eq_some_iff.mp fault
  obtain ⟨unfit, before, after, split, fit⟩ := List.find?_eq_some_iff_append.mp found
  rw [split] at hitems
  have refused : Parse.items (Subscription.parse v) items =
      .error (.invalidFlags x.options.toByte) := by
    refine Parse.itemsWithin_of_refused (Nat.le_refl _) ?_ ?_ hitems
    · exact fun y hy b hb => Subscription.parse_encode hb (by simpa using fit y hy)
    · exact fun b hb => Subscription.parse_of_not_fits hb (by simpa using unfit)
  have many : Parse.many (Subscription.parse v) items =
      .error (.invalidFlags x.options.toByte) := by
    change (Parse.items (Subscription.parse v) items >>= fun ys => pure (ys, [])) = _
    rw [refused]
    rfl
  rw [List.append_assoc, parseBody, Parse.bind_apply (Parse.packetId_word16 hid _),
    Parse.bind_apply (Property.parseFor_encodeFor hproperties _)]
  exact Parse.bind_of_error many _

end Subscribe

namespace Packet

/-- What the reader reports of a packet that was written. -/
def fault? (v : Version) : Packet → Option WireError
  | connack c => c.code.fault? (c.code.isConnackCode v)
  | puback a | pubrec a | pubrel a | pubcomp a => a.outcome.fault? v
  | subscribe s => s.fault? v
  | disconnect o => o.fault? v
  | auth o => o.reason.fault? o.reason.isAuthCode
  | connect _ | publish _ | suback _ | unsubscribe _ | unsuback _ | pingreq | pingresp => none

/-- Exactly the packets that may be written have no fault. -/
lemma fault?_eq_none_iff {v : Version} {p : Packet} : p.fault? v = none ↔ p.Admitted v := by
  cases p with
  | subscribe s => exact Subscribe.fault?_eq_none_iff
  | puback a => exact Outcome.fault?_eq_none_iff
  | pubrec a => exact Outcome.fault?_eq_none_iff
  | pubrel a => exact Outcome.fault?_eq_none_iff
  | pubcomp a => exact Outcome.fault?_eq_none_iff
  | disconnect o => exact Outcome.fault?_eq_none_iff
  | connack c => exact ReasonCode.fault?_eq_none_iff
  | auth o => exact ReasonCode.fault?_eq_none_iff
  | _ => simp [fault?, Admitted]

/-- An outcome that AUTH does not admit is refused for its reason, whether the reason is defined
elsewhere or not. -/
lemma parseAuth_of_not {o : Outcome} {body : Bytes} (h : o.encode = .ok body)
    (unknown : o.reason.isAuthCode = false) :
    parseAuth .v5 body = .error (.invalidReasonCode o.reason.value) := by
  cases defined : o.reason.isDefined with
  | false => exact Parse.bind_of_error (Outcome.parse_of_undefined h defined) _
  | true =>
    rw [parseAuth, Parse.bind_apply (Outcome.parse_encode h defined)]
    exact Parse.checked_of_not (c := (o.readBack .v5).reason) unknown _ []

/-- The body of a packet with a fault is refused for the fault. -/
lemma parseBody_of_fault? {v : Version} {p : Packet} {body : Bytes} {e : WireError}
    (h : p.encodeBody v = .ok body) (fault : p.fault? v = some e) :
    parseBody p.header v p.type body = .error e := by
  cases p with
  | connack c =>
    obtain ⟨unknown, rfl⟩ := ReasonCode.fault?_eq_some_iff.mp fault
    exact Parse.bind_of_error (Connack.parseBody_of_not h unknown) _
  | puback a => exact Parse.bind_of_error (Ack.parseBody_of_fault? h fault) _
  | pubrec a => exact Parse.bind_of_error (Ack.parseBody_of_fault? h fault) _
  | pubrel a => exact Parse.bind_of_error (Ack.parseBody_of_fault? h fault) _
  | pubcomp a => exact Parse.bind_of_error (Ack.parseBody_of_fault? h fault) _
  | subscribe s => exact Parse.bind_of_error (Subscribe.parseBody_of_fault? h fault) _
  | disconnect o => exact Parse.bind_of_error (Outcome.parseFor_of_fault? h fault) _
  | auth o =>
    obtain ⟨unknown, rfl⟩ := ReasonCode.fault?_eq_some_iff.mp fault
    cases v with
    | v5 => exact Parse.bind_of_error (parseAuth_of_not h unknown) _
    | v311 => cases h
  | _ => cases fault

/-- A packet with a fault is refused for it, whatever follows. -/
lemma decodeFirst_of_fault? {v : Version} {p : Packet} {bytes : Bytes} {e : WireError}
    (h : p.encode v = .ok bytes) (fault : p.fault? v = some e) (suffix : Bytes) :
    decodeFirst (bytes ++ suffix) v = .error e := by
  obtain ⟨body, written, read⟩ := decodeFirst_append_of_encode h
  rw [read, parseBody_of_fault? written fault]
  rfl

/-- A packet that was written is read again, and takes the bytes that were written, exactly if the
reader admits its codes and options. Otherwise it is refused for the first of them that the reader
does not admit. -/
theorem exists_decodeFirst_encode_iff {v : Version} {p : Packet} {bytes : Bytes}
    (h : p.encode v = .ok bytes) (suffix : Bytes) :
    ((∃ q, decodeFirst (bytes ++ suffix) v = .ok (some (q, bytes.length))) ↔ p.Admitted v) ∧
      ∀ e, decodeFirst (bytes ++ suffix) v = .error e ↔ p.fault? v = some e := by
  cases fault : p.fault? v with
  | none =>
    have admitted := fault?_eq_none_iff.mp fault
    have read := decodeFirst_encode_append h admitted suffix
    refine ⟨iff_of_true ⟨_, read⟩ admitted, fun e => ?_⟩
    rw [read]
    exact iff_of_false (by nofun) (by nofun)
  | some e =>
    have refused := decodeFirst_of_fault? h fault suffix
    have unknown : ¬ p.Admitted v := fun admitted => by
      rw [fault?_eq_none_iff.mpr admitted] at fault
      cases fault
    refine ⟨iff_of_false ?_ unknown, fun e' => ?_⟩
    · rintro ⟨q, read⟩
      rw [refused] at read
      cases read
    · rw [refused, Except.error.injEq, Option.some_inj]

/-- The second subscription has options that version 3.1.1 does not know. -/
theorem decodeFirst_encode_reserved :
    let p : Packet := .subscribe {
      packetId := 7
      subscriptions := [⟨"a", {}⟩, ⟨"b", { qos := .atLeastOnce, noLocal := true }⟩] }
    let bytes : Bytes := [0x82, 10, 0, 7, 0, 1, 0x61, 0, 0, 1, 0x62, 5]
    p.encode .v311 = .ok bytes ∧ ¬ p.Admitted .v311 ∧
      decodeFirst (bytes ++ [0xC0]) .v311 = .error (.invalidFlags 5) := by
  intro p bytes
  have written : p.encode .v311 = .ok bytes := by decide
  have unknown : ¬ p.Admitted .v311 := fun admitted =>
    absurd (admitted rfl ⟨"b", { qos := .atLeastOnce, noLocal := true }⟩ (by simp)) (by decide)
  have refused := (exists_decodeFirst_encode_iff written [0xC0]).2 (.invalidFlags 5)
  exact ⟨written, unknown, refused.mpr (by decide)⟩

/-- CONNACK is written with a code that version 3.1.1 does not define, and is not read again. -/
theorem not_decodeFirst_encode_connack :
    let p : Packet := .connack { code := ⟨6⟩ }
    p.encode .v311 = .ok [0x20, 2, 0, 6] ∧
      decodeFirst [0x20, 2, 0, 6] .v311 = .error (.invalidReasonCode 6) ∧
      ¬ ∃ q n, decodeFirst [0x20, 2, 0, 6] .v311 = .ok (some (q, n)) := by
  intro p
  have refused : decodeFirst [0x20, 2, 0, 6] .v311 = .error (.invalidReasonCode 6) := by decide
  refine ⟨by decide, refused, ?_⟩
  rintro ⟨q, n, read⟩
  rw [refused] at read
  cases read

end Packet

end MqttClient
