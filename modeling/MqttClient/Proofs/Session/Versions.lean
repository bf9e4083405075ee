import MqttClient.Proofs.Packet.Versions
import MqttClient.Proofs.Session.Ownership
import MqttClient.Proofs.Session.Replay
import Mathlib.Tactic.Common

/-!
# Journals that are opened in another version

A record does not tell the version in which its packet was written, and a journal that is opened in
another version reads it all the same. What comes out is the packet, or nothing, or a message whose
payload begins elsewhere. Nothing is read but what was written, and nothing that was written keeps
the rest from being read.
-/

namespace MqttClient
variable {v w : Version}

namespace Packet
variable {p q : Packet} {slot : Record.Kind × UInt16}

/-- Whether the bytes of a packet of version `v` are those of another packet in version `w`. -/
def Passes (v w : Version) (p q : Packet) : Prop :=
  ∃ bytes, p.encode v = .ok bytes ∧ decodeFirst bytes w = .ok (some (q, bytes.length))

/-- Whatever the version of the reader, it sees a stored packet up to where its payload begins. -/
lemma Passes.isReadAs (h : p.Passes v w q) (stored : Record.slot? p = some slot) :
    p.IsReadAs v w q := by
  obtain ⟨bytes, written, read⟩ := h
  obtain ⟨body, hbody, whole⟩ := decodeFirst_append_of_encode written
  specialize whole w []
  rw [List.append_nil, read] at whole
  cases found : parseBody p.header w p.type body with
  | error e =>
    rw [found] at whole
    cases whole
  | ok answer =>
    obtain ⟨q', rest⟩ := answer
    rw [found] at whole
    cases whole
    rcases Record.slot?_eq_some_iff.mp stored with ⟨m, rfl, acknowledged, -⟩ | ⟨a, rfl, -⟩
    · obtain ⟨m', _, seen, last⟩ := Parse.bind_eq_ok_iff.mp found
      obtain ⟨rfl, -⟩ := Parse.pure_eq_ok_iff.mp last
      exact .publish (Publish.isReadAs_of_parseBody acknowledged hbody seen)
    · obtain ⟨a', _, seen, last⟩ := Parse.bind_eq_ok_iff.mp found
      obtain ⟨rfl, -⟩ := Parse.pure_eq_ok_iff.mp last
      exact .pubrel (Ack.saysAs_of_parseBody hbody seen)

/-- A reader of the same version sees the packet as it is read back. -/
lemma Passes.eq_readBack (h : p.Passes v v q) : q = p.readBack v := by
  obtain ⟨bytes, written, read⟩ := h
  cases fault : p.fault? v with
  | some e =>
    have refused := decodeFirst_of_fault? written fault []
    rw [List.append_nil, read] at refused
    cases refused
  | none =>
    have again := decodeFirst_encode_append written (fault?_eq_none_iff.mp fault) []
    rw [List.append_nil, read] at again
    cases again
    rfl

end Packet

namespace Journal
variable {start : Bytes} {ps : List Packet} {records : Bytes → Option Bytes} {p q : Packet}
  {kind : Record.Kind} {id : UInt16}

/-- The last of the packets that were stored in a slot. -/
def latest? (ps : List Packet) (kind : Record.Kind) (id : UInt16) : Option Packet :=
  ps.reverse.find? fun p => Record.slot? p = some (kind, id)

/-- A packet that is stored is the last one of its slot. -/
lemma latest?_concat (ps : List Packet) (p : Packet) (kind : Record.Kind) (id : UInt16) :
    latest? (ps ++ [p]) kind id =
      if Record.slot? p = some (kind, id) then some p else latest? ps kind id := by
  rw [latest?, List.reverse_concat, List.find?_cons]
  by_cases here : Record.slot? p = some (kind, id)
  · simp only [here, decide_true, if_true]
  · simp only [here, decide_false, if_false]
    rfl

/-- The last packet of a slot was stored, and in this slot. -/
lemma of_latest?_eq_some (h : latest? ps kind id = some p) :
    p ∈ ps ∧ Record.slot? p = some (kind, id) := by
  unfold latest? at h
  have slot := List.find?_some h
  exact ⟨List.mem_reverse.mp (List.mem_of_find?_eq_some h), of_decide_eq_true slot⟩

/-- Whether the keys of a client hold the last packet of each slot, written in the version. -/
structure Holds (start : Bytes) (v : Version) (ps : List Packet)
    (records : Bytes → Option Bytes) : Prop where
  absent : ∀ {kind id}, latest? ps kind id = none → records (keyAt start kind id) = none
  present : ∀ {kind id p}, latest? ps kind id = some p → ∃ seq bytes, p.encode v = .ok bytes ∧
    records (keyAt start kind id) = some (Record.encode seq bytes)
  only : ∀ {k}, start <+: k → records k ≠ none → ∃ kind id, k = keyAt start kind id

/-- Whether a packet is read in version `w` where packets were stored in version `v`: it is what the
last packet of some slot is taken for. -/
def IsShown (v w : Version) (ps : List Packet) (q : Packet) : Prop :=
  ∃ kind id p, latest? ps kind id = some p ∧ p.Passes v w q

/-- Without keys of the client, no packets were stored. -/
lemma Holds.of_none (none : ∀ k, start <+: k → records k = none) : Holds start v [] records where
  absent _ := none _ (prefix_keyAt ..)
  present h := nomatch h
  only front ne := absurd (none _ front) ne

/-- A packet without a slot changes nothing. -/
lemma Holds.concat_of_none (h : Holds start v ps records) (aside : Record.slot? p = none) :
    Holds start v (ps ++ [p]) records := by
  have same (kind : Record.Kind) (id : UInt16) :
      latest? (ps ++ [p]) kind id = latest? ps kind id := by
    rw [latest?_concat, aside]
    exact if_neg nofun
  refine ⟨fun none => ?_, fun some => ?_, h.only⟩
  · rw [same] at none
    exact h.absent none
  · rw [same] at some
    exact h.present some

/-- A packet that is put under its key is the last one of its slot. -/
lemma Holds.put {bytes : Bytes} (h : Holds start v ps records)
    (slot : Record.slot? p = some (kind, id)) (written : p.encode v = .ok bytes) (seq : UInt64) :
    Holds start v (ps ++ [p])
      (Function.update records (keyAt start kind id) (some (Record.encode seq bytes))) where
  absent {k i} none := by
    rw [latest?_concat] at none
    split at none
    · cases none
    · rename_i other
      rw [Function.update_of_ne]
      · exact h.absent none
      · intro same
        obtain ⟨rfl, rfl⟩ := keyAt_inj.mp same
        exact other slot
  present {k i q} some := by
    rw [latest?_concat] at some
    split at some
    · rename_i here
      cases some
      cases slot.symm.trans here
      exact ⟨seq, bytes, written, Function.update_self ..⟩
    · rename_i other
      rw [Function.update_of_ne]
      · exact h.present some
      · intro same
        obtain ⟨rfl, rfl⟩ := keyAt_inj.mp same
        exact other slot
  only {k} front ne := by
    by_cases same : k = keyAt start kind id
    · exact ⟨kind, id, same⟩
    · rw [Function.update_of_ne same] at ne
      exact h.only front ne

/-- What is read under the keys of the client is what the last packets are taken for. -/
lemma Holds.isShown_iff (h : Holds start v ps records) :
    IsShown v w ps q ↔ ∃ k, start <+: k ∧
      ∃ r, (records k).bind (Record.decode? · w) = some r ∧ r.packet = q := by
  constructor
  · rintro ⟨kind, id, p, latest, bytes, written, read⟩
    obtain ⟨seq, bytes', written', value⟩ := h.present latest
    cases written.symm.trans written'
    refine ⟨keyAt start kind id, prefix_keyAt .., ?_⟩
    rw [value, Option.bind_some]
    exact Record.exists_decode?_encode_iff.mpr read
  · rintro ⟨k, front, r, read, rfl⟩
    obtain ⟨value, found, decoded⟩ := Option.bind_eq_some_iff.mp read
    obtain ⟨kind, id, rfl⟩ := h.only front (Option.ne_none_iff_exists'.mpr ⟨value, found⟩)
    cases latest : latest? ps kind id with
    | none =>
      rw [h.absent latest] at found
      cases found
    | some p =>
      obtain ⟨seq, bytes, written, value'⟩ := h.present latest
      cases found.symm.trans value'
      exact ⟨kind, id, p, latest, bytes, written,
        Record.exists_decode?_encode_iff.mp ⟨r, decoded, rfl⟩⟩

variable {σ : Type} [RecordStore σ] {V : StoreView σ} {j j' : Journal} {s s' : σ}

/-- Stores packets one after the other. -/
def writeAll : List Packet → JournalM σ Unit
  | [] => pure ()
  | p :: ps => do
    let _ ← write p
    writeAll ps

section
variable (law : V.Lawful) (takes : TakesAll V start)
include law takes

/-- A packet that is stored is the last one of its slot. -/
lemma Holds.write (h : Holds start v ps (V.records s)) (live : V.live s) (ours : j.start = start)
    (version : j.version = v) {stored : Bool} (written : write p (j, s) = (.ok stored, j', s')) :
    V.Leads s s' ∧ Holds start v (ps ++ [p]) (V.records s') := by
  subst ours
  subst version
  cases slot : Record.slot? p with
  | none =>
    unfold Journal.write at written
    rw [slot] at written
    cases written
    exact ⟨.refl live, h.concat_of_none slot⟩
  | some there =>
    obtain ⟨kind, id⟩ := there
    obtain ⟨leads, seq, bytes, encoded, records, -⟩ :=
      (meets_write_any law takes slot live).of_ok written
    change V.records s' = _ at records
    refine ⟨⟨leads.live, leads.sound⟩, ?_⟩
    rw [records]
    exact h.put slot encoded seq

/-- After packets are stored one after the other, the last one of each slot is there. -/
lemma Holds.writeAll {qs : List Packet} (h : Holds start v qs (V.records s)) (live : V.live s)
    (ours : j.start = start) (version : j.version = v)
    (written : writeAll ps (j, s) = (.ok (), j', s')) :
    V.Leads s s' ∧ Holds start v (qs ++ ps) (V.records s') := by
  induction ps generalizing qs j s with
  | nil =>
    cases written
    rw [List.append_nil]
    exact ⟨.refl live, h⟩
  | cons p ps ih =>
    obtain ⟨stored, ⟨j₁, s₁⟩, first, rest⟩ := StoreM.bind_eq_ok_iff.mp written
    obtain ⟨leads, h₁⟩ := h.write law takes live ours version first
    have stays := stays_write p j s
    rw [first] at stays
    obtain ⟨leads', h'⟩ := ih h₁ leads.live (stays.1.trans ours) (stays.2.trans version) rest
    rw [List.append_assoc] at h'
    exact ⟨leads.trans leads', h'⟩

/-- In any version all records are read in which there is something to read, and the others are
skipped. -/
lemma meets_load_of_holds (h : Holds start v ps (V.records s)) (live : V.live s) :
    V.Meets (load w start) s
      (fun rs s' => (∀ q, (∃ r ∈ rs, r.packet = q) ↔ IsShown v w ps q) ∧
        V.records s' = V.records s)
      (V.Fails s) := by
  have loads := meets_load_keys (v := w) law takes.takes_start live (takes.of_only h.only)
  refine loads.imp (fun rs s' _ loaded => ?_) fun _ _ _ fails => fails
  obtain ⟨⟨keys, -, mem, rfl⟩, same⟩ := loaded
  refine ⟨fun q => ?_, same⟩
  rw [h.isShown_iff]
  constructor
  · rintro ⟨r, read, rfl⟩
    obtain ⟨k, hk, read⟩ := List.mem_filterMap.mp read
    exact ⟨k, ((mem k).mp hk).1, r, read, rfl⟩
  · rintro ⟨k, front, r, read, rfl⟩
    refine ⟨r, List.mem_filterMap.mpr ⟨k, (mem k).mpr ⟨front, fun none => ?_⟩, read⟩, rfl⟩
    rw [none] at read
    cases read

end

/-- Packets are stored in one version, and the journal is opened in another one. It is read all the
same: the last packet of each slot is there as far as its bytes are those of a packet in that
version, without the messages that are released. What is read is each time a packet that was stored,
but for where the payload of a message begins, which the versions tell differently. -/
theorem readAll_of_writeAll (law : V.Lawful) {clientId : String}
    (takes : TakesAll V (startOf (Bytes.ofText clientId))) {s₀ s₁ s₂ : σ} (live : V.live s₀)
    (sound : V.sound s₀)
    (fresh : ∀ key, startOf (Bytes.ofText clientId) <+: key → V.records s₀ key = none)
    (opened : openFor clientId v s₀ = (.ok j, s₁))
    (written : writeAll ps (j, s₁) = (.ok (), j', s₂)) (w : Version) :
    ∃ k s₃ qs s₄, openFor clientId w s₂ = (.ok k, s₃) ∧ readAll (k, s₃) = (.ok qs, k, s₄) ∧
      (∀ q, q ∈ qs ↔ IsShown v w ps q ∧
        ∀ m a, q = .publish m → IsShown v w ps (.pubrel a) → a.packetId ≠ m.packetId) ∧
      ∀ q ∈ qs, ∃ p ∈ ps, p.IsReadAs v w q ∧ (w = v → q = p.readBack v) := by
  have blank : Keeps _ v (V.records s₀) Slots.empty := .of_none fresh
  obtain ⟨leads₁, ⟨ours, version, -⟩, same₁⟩ := (meets_openFor law takes live blank).of_ok opened
  have holds₁ : Holds (startOf (Bytes.ofText clientId)) v [] (V.records s₁) := by
    rw [same₁]
    exact .of_none fresh
  obtain ⟨leads₂, holds₂⟩ := holds₁.writeAll law takes leads₁.live ours version written
  rw [List.nil_append] at holds₂
  -- a sound store does not fail, so the journal is opened again and read
  have sound₂ : V.sound s₂ := leads₂.sound (leads₁.sound sound)
  have loads₂ := meets_load_of_holds (w := w) law takes holds₂ leads₂.live
  obtain ⟨k, s₃, opened', leads₃, ⟨ours', version'⟩, rs, ⟨-, same₃⟩, -⟩ :=
    (meets_openFor_of_load leads₂.live loads₂).answers fun e s' fails => by
      rcases fails with long | fails
      · exact Nat.not_lt.mpr long (length_lt_of_openFor opened)
      · exact fails.unsound sound₂
  rw [← same₃] at holds₂
  have loads₃ := meets_load_of_holds (w := w) law takes holds₂ leads₃.live
  rw [← ours', ← version'] at loads₃
  obtain ⟨qs, ⟨k', s₄⟩, read, -, rfl, rs', ⟨shown, -⟩, rfl⟩ :=
    (meets_readAll_of_load leads₃.live loads₃).answers fun e js fails =>
      fails.2.unsound (leads₃.sound sound₂)
  rw [version'] at shown
  refine ⟨k', s₃, _, s₄, opened', read, fun q => ?_, fun q mem => ?_⟩
  · rw [mem_replay, shown]
    refine and_congr_right fun _ => ?_
    constructor
    · intro visible m a message released
      obtain ⟨r, hr, release⟩ := (shown _).mpr released
      exact visible m message r hr a release
    · intro visible m message r hr a release
      exact visible m a message ((shown _).mp ⟨r, hr, release⟩)
  · obtain ⟨kind, id, p, latest, passes⟩ := (shown q).mp (mem_replay.mp mem).1
    obtain ⟨among, slot⟩ := of_latest?_eq_some latest
    refine ⟨p, among, passes.isReadAs slot, ?_⟩
    rintro rfl
    exact passes.eq_readBack

/-- The payload of a message of version 3.1.1 is no block of properties, so that version 5.0 skips
its record and reads the release beside it. -/
theorem readAll_of_writeAll_skipped :
    let m : Publish := { qos := .atLeastOnce, topic := "a", packetId := 1, payload := [1] }
    let written := writeAll [.publish m, .pubrel { packetId := 2 }]
      (⟨[0, 1, 97], .v311, 0⟩, Table.empty)
    written.1 = .ok () ∧ ∃ k s₃ qs s₄, openFor "a" .v5 written.2.2 = (.ok k, s₃) ∧
      readAll (k, s₃) = (.ok qs, k, s₄) ∧ ∀ q, q ∈ qs ↔ q = .pubrel { packetId := 2 } := by
  intro m written
  have succeeds : written.1 = .ok () := by decide +kernel
  obtain ⟨k, s₃, qs, s₄, opened, read, shown, -⟩ := readAll_of_writeAll (V := Table.view)
    Table.lawful ⟨trivial, fun _ _ => trivial⟩ trivial trivial (fun _ _ => rfl)
    (rfl : openFor "a" .v311 Table.empty = _) (Prod.ext succeeds rfl) .v5
  refine ⟨succeeds, k, s₃, qs, s₄, opened, read, fun q => ?_⟩
  have message : (Packet.publish m).encode .v311 = .ok [0x32, 6, 0, 1, 0x61, 0, 1, 1] := by
    decide +kernel
  have refused : Packet.decodeFirst [0x32, 6, 0, 1, 0x61, 0, 1, 1] .v5 = .error .truncated := by
    decide +kernel
  have release : (Packet.pubrel { packetId := 2 }).encode .v311 = .ok [0x62, 2, 0, 2] := by
    decide +kernel
  have seen : Packet.decodeFirst [0x62, 2, 0, 2] .v5 =
      .ok (some (.pubrel { packetId := 2 }, 4)) := by
    decide +kernel
  rw [shown]
  constructor
  · rintro ⟨⟨kind, id, p, latest, bytes, encoded, decoded⟩, -⟩
    rcases List.mem_cons.mp (of_latest?_eq_some latest).1 with rfl | last
    · cases message.symm.trans encoded
      cases refused.symm.trans decoded
    · cases List.mem_singleton.mp last
      cases release.symm.trans encoded
      cases seen.symm.trans decoded
      rfl
  · rintro rfl
    exact ⟨⟨.release, 2, _, rfl, _, release, seen⟩, nofun⟩

/-- Version 3.1.1 takes the empty block of properties of a message of version 5.0 for the first byte
of its payload. -/
theorem not_readAll_of_writeAll_subset :
    let m : Publish := { qos := .atLeastOnce, topic := "a", packetId := 1, payload := [1] }
    let written := writeAll [.publish m] (⟨[0, 1, 97], .v5, 0⟩, Table.empty)
    let reopened := openFor "a" .v311 written.2.2
    openFor "a" .v5 Table.empty = (.ok ⟨[0, 1, 97], .v5, 0⟩, Table.empty) ∧ written.1 = .ok () ∧
      reopened.1 = .ok ⟨[0, 1, 97], .v311, 1⟩ ∧
      ∃ q, (readAll (⟨[0, 1, 97], .v311, 1⟩, reopened.2)).1 = .ok [q] ∧ q ∉ [.publish m] ∧
        q = .publish { m with payload := [0, 1] } := by
  intro m written reopened
  refine ⟨rfl, by decide +kernel, by decide +kernel, _, ?_, ?_, rfl⟩
  · decide +kernel
  · decide

end Journal
end MqttClient
