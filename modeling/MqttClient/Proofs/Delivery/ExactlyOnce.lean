import MqttClient.Proofs.Delivery.Interruption
import Mathlib.Tactic.Common

/-!
# Exactly once

A handshake of quality of service 2 ends with PUBCOMP, and nothing of it should be sent again then,
nor be left in the store. This holds, whenever couriers stop afterwards, exactly if no record of the
message stands beside its release when PUBCOMP comes: only the record of the release is removed
then.
-/

namespace MqttClient.Courier
variable {σ : Type} [RecordStore σ] {V : StoreView σ} {clientId : String} {v : Version}
  {c : Courier σ} {recs : Slots} {id : UInt16} {now : Instant}

/-- Whether the handshakes under an identifier are over for good, but for those of messages that
entered the window since: whatever couriers come, the store has no record under the identifier
unless a message got it since, and each packet that is sent stems from such a message. -/
def Gone (V : StoreView σ) (clientId : String) (v : Version) (id : UInt16) (since : List Packet)
    (c : Courier σ) : Prop :=
  ∀ later c', Descends V clientId v c later c' →
    ((∀ m, .publish m ∈ since ++ later → m.packetId ≠ id) →
      ∀ s kind, c'.archive.store? = some s →
        V.records s (Journal.keyAt (Journal.startOf (Bytes.ofText clientId)) kind id) = none) ∧
    ∀ op, ∀ p ∈ (c'.call op).1, p.Stems id (since ++ later ++ c'.entered op)

section
variable (law : V.Lawful) (takes : Journal.TakesAll V (Journal.startOf (Bytes.ofText clientId)))
  (h : c.Regular V (Journal.startOf (Bytes.ofText clientId)) v recs)
include law takes h

/-- Handshakes are over if nothing is there but what stems from messages since. -/
lemma gone_of_stems {since : List Packet} (stems : ∀ p, c.Has recs p → p.Stems id since) :
    Gone V clientId v id since c := by
  intro later c' descends
  obtain ⟨recs', h', all⟩ := descends.regular law takes h
  refine ⟨fun free s kind stored => ?_, fun op p mem => ?_⟩
  · obtain ⟨s', stored', -, keeps⟩ := h'.holds.store
    rw [stored] at stored'
    cases stored'
    refine keeps.eq_none_iff.mpr ?_
    cases found : recs' kind id with
    | none => rfl
    | some r =>
      obtain ⟨m, mem, hid, -⟩ := all id since stems r.packet (.inr ⟨kind, id, r, found, rfl⟩) kind
        (keeps.fits found).slot
      exact absurd hid (free m mem)
  · obtain ⟨recs'', -, sent⟩ := h'.stems_steps law takes (steps_call c' op).2
    exact (sent id _ (all id since stems)).1 p mem

variable (firm : ∀ s, V.live s → V.sound s)
include firm

/-- On the store that is left a next courier can begin. -/
lemma exists_next (short : (Bytes.ofText clientId).length < 65536) :
    ∃ s j s', c.archive.store? = some s ∧ Journal.openFor clientId v s = (.ok j, s') ∧
      (withJournal {} j s').Regular V (Journal.startOf (Bytes.ofText clientId)) v recs := by
  obtain ⟨s, stored, live, keeps⟩ := h.holds.store
  obtain ⟨j, s', opened⟩ := Journal.exists_openFor law takes live (firm s live) keeps short
  exact ⟨s, j, s', stored, opened, regular_withJournal law takes {} live keeps opened⟩

/-- A packet that is kept is in flight again, unless it is a message that is released. -/
lemma exists_mem_restore (active : c.archive.isActive = true) (fresh : c.restored = false)
    {kind : Record.Kind} {r : Record} (found : recs kind id = some r)
    (visible : kind = .message → recs .release id = none) (now : Instant) :
    ∃ e ∈ (c.restore now).window.toList, e.packet = r.packet := by
  obtain ⟨-, window, -⟩ := regular_restore law takes h fresh now
  obtain ⟨s, -, -, keeps⟩ := h.holds.store
  obtain ⟨-, -, -, ⟨-, rs, listed, read⟩ | ⟨-, -, unsound⟩⟩ :=
    Archive.readAll_active law takes h.holds active
  · have mem := Journal.mem_replay_of_some listed keeps.fits found visible
    rw [← read, ← window, List.mem_map] at mem
    exact mem
  · exact absurd (h.holds.sound firm) unsound

/-- Taking up the packets of an archive gives the archive up only if it was given up before. -/
lemma isActive_restore (now : Instant) :
    (c.restore now).Regular V (Journal.startOf (Bytes.ofText clientId)) v recs ∧
      (c.restore now).archive.isActive = c.archive.isActive := by
  cases fresh : c.restored with
  | true =>
    rw [restore, if_pos fresh]
    exact ⟨h, rfl⟩
  | false =>
    refine ⟨(regular_restore law takes h fresh now).1, ?_⟩
    rw [archive_restore fresh]
    cases active : c.archive.isActive with
    | false => rw [Archive.readAll, Archive.attempt_of_not_active active, active]
    | true =>
      obtain ⟨-, -, -, ⟨active', -⟩ | ⟨-, -, unsound⟩⟩ :=
        Archive.readAll_active law takes h.holds active
      · exact active'
      · exact absurd (h.holds.sound firm) unsound

/-- What PUBCOMP does before messages enter the window: it takes the release out of the window and,
as long as packets are kept, its record out of the store. A record of the message stays. -/
lemma regular_pubcomp {before after : List Inflight} {e : Inflight}
    (found : splitAt? id .pubcomp (c.restore now).window.toList = some (before, e, after)) :
    ∃ c' : Courier σ, c.acknowledge id .pubcomp now = c'.drain now ∧ c'.restored = true ∧
      c'.queue = c.queue ∧ (∀ f ∈ c'.window.toList, f.packetId ≠ id) ∧
      c'.Regular V (Journal.startOf (Bytes.ofText clientId)) v
        (if c.archive.isActive then recs.set .release id none else recs) := by
  obtain ⟨regular, same⟩ := isActive_restore law takes h firm now
  have restored := restored_restore c now
  obtain ⟨split, hid, awaits⟩ := splitAt?_eq_some found
  obtain ⟨slot, stored, -⟩ := regular.stored e (by rw [split]; simp)
  -- only a release waits for PUBCOMP, so the record of the release is the one that is dropped
  obtain rfl : slot = .release := by
    obtain ⟨_, -, ⟨-, wrong⟩ | ⟨-, wrong⟩⟩ | ⟨a, release, -⟩ :=
      Inflight.awaits_eq_true_iff.mp awaits
    · cases wrong
    · cases wrong
    · rw [release] at stored
      exact (congrArg Prod.fst (Option.some_inj.mp stored)).symm
  rw [hid] at stored
  obtain ⟨recs', regular', -⟩ := regular_complete law takes regular restored found
  refine ⟨{ c.restore now with
    window := .ofList (before ++ after)
    archive := (c.restore now).archive.drop e.packet
    ids := (c.restore now).ids.release id }, ?_, restored, queue_restore c now, ?_, ?_⟩
  · unfold acknowledge
    simp only [found]
  · have apart := regular.apart
    rw [split] at apart
    rw [Fifo.toList_ofList, ← hid]
    exact (Inflight.others_ne apart).1
  · have all : recs' = if c.archive.isActive then recs.set .release id none else recs := by
      refine regular'.holds.unique ?_
      cases active : c.archive.isActive with
      | false =>
        rw [active] at same
        rw [Archive.drop_of_not_active same]
        exact regular.holds
      | true =>
        obtain ⟨-, -, ⟨-, holds⟩ | ⟨-, -, unsound⟩⟩ :=
          Archive.drop_active law takes regular.holds (same.trans active) stored
        · exact holds
        · exact absurd (regular.holds.sound firm) unsound
    exact all ▸ regular'

/-- A courier that begins with the record of a release takes PUBCOMP for it. No message enters the
window then, and no other record is removed. -/
lemma call_pubcomp (active : c.archive.isActive = true) (fresh : c.restored = false) {r : Record}
    (release : recs .release id = some r) (now : Instant) :
    let op : Call := .acknowledge id .pubcomp now
    (∃ parts, splitAt? id .pubcomp (c.restore now).window.toList = some parts) ∧
      c.entered op = [] ∧ ∃ c', c.call op = ([], c') ∧
        c'.Regular V (Journal.startOf (Bytes.ofText clientId)) v (recs.set .release id none) := by
  intro op
  obtain ⟨_, -, -, keeps⟩ := h.holds.store
  obtain ⟨e, mem, packet⟩ := exists_mem_restore law takes h firm active fresh release
    (fun other => absurd other (by decide)) now
  have slot := (keeps.fits release).slot
  rw [← packet] at slot
  have awaits : e.awaits .pubcomp = true := by
    obtain ⟨_, -, -, wrong, -⟩ | ⟨a, pubrel, -⟩ := Record.slot?_eq_some_iff.mp slot
    · cases wrong
    · exact Inflight.awaits_eq_true_iff.mpr (.inr ⟨a, pubrel, rfl⟩)
  obtain ⟨before, f, after, found⟩ := exists_splitAt? mem (Inflight.packetId_of_slot slot) awaits
  obtain ⟨c', acknowledged, -, queue, -, regular⟩ := regular_pubcomp law takes h firm found
  rw [if_pos active] at regular
  have drained : c'.drain now = ([], c') := by
    rw [drain, fill_of_queue_eq_nil]
    rw [queue, (h.idle fresh).queue]
  have taken : c.call op = ([], c') := acknowledged.trans drained
  refine ⟨⟨_, found⟩, ?_, c', taken, regular⟩
  rw [entered, if_neg (by decide), acknowledged, drained]

/-- Handshakes that are over have no records, but for those of messages that entered since. For a
record would be taken up by the next courier, or by the one after it if it is hidden by its release.
-/
lemma stems_of_gone {since : List Packet} (short : (Bytes.ofText clientId).length < 65536)
    (gone : Gone V clientId v id since c) {kind : Record.Kind} {r : Record}
    (found : recs kind id = some r) : r.packet.Stems id since := by
  -- what the next courier takes up is sent by it
  have taken {c₁ : Courier σ} {recs₁ : Slots} (descends : Descends V clientId v c [] c₁)
      (h₁ : c₁.Regular V (Journal.startOf (Bytes.ofText clientId)) v recs₁)
      (active : c₁.archive.isActive = true) (fresh : c₁.restored = false)
      (found : recs₁ kind id = some r) (visible : kind = .message → recs₁ .release id = none) :
      r.packet.Stems id since := by
    obtain ⟨e, mem, packet⟩ :=
      exists_mem_restore law takes h₁ firm active fresh found visible .origin
    have sent := recover_of_queue_eq_nil .origin (h₁.idle fresh).queue
    have none : c₁.entered (.recover .origin) = [] := by
      rw [entered, sent, List.drop_of_length_le (Nat.le_of_eq (List.length_map ..))]
    have stems := (gone [] c₁ descends).2 (.recover .origin) r.packet (by
      rw [call, sent, ← packet]
      exact List.mem_map_of_mem mem)
    rwa [none, List.append_nil, List.append_nil] at stems
  obtain ⟨s, j, s', stored, opened, h₁⟩ := exists_next law takes h firm short
  have descends : Descends V clientId v c [] (withJournal {} j s') := .next .refl stored opened
  by_cases visible : kind = .message → recs .release id = none
  · exact taken descends h₁ rfl rfl found visible
  -- the release hides the message from the next courier, but not from the one after its PUBCOMP
  · rw [Classical.not_imp] at visible
    obtain ⟨rfl, hidden⟩ := visible
    obtain ⟨r', release⟩ := Option.ne_none_iff_exists'.mp hidden
    obtain ⟨-, none, c₂, acknowledged, h₂⟩ := call_pubcomp law takes h₁ firm rfl rfl release .origin
    have next := descends.call (.acknowledge id .pubcomp .origin)
    rw [none, acknowledged] at next
    obtain ⟨s₂, j₂, s₂', stored₂, opened₂, h₃⟩ := exists_next law takes h₂ firm short
    refine taken (next.next stored₂ opened₂) h₃ rfl rfl ?_ fun _ => ?_
    · rw [Slots.set_of_kind_ne (by decide)]
      exact found
    · exact Slots.set_self ..

/-- When PUBCOMP has come, the handshakes are over exactly if no record under the identifier is left
but those of a message that got it at once. -/
lemma gone_iff_stems {before after : List Inflight} {e : Inflight}
    (short : (Bytes.ofText clientId).length < 65536)
    (found : splitAt? id .pubcomp (c.restore now).window.toList = some (before, e, after)) :
    let op : Call := .acknowledge id .pubcomp now
    ∃ recs', (c.call op).2.Regular V (Journal.startOf (Bytes.ofText clientId)) v recs' ∧
      ((∀ m, .publish m ∈ c.entered op → m.packetId ≠ id) → ∀ kind, recs' kind id =
        (if c.archive.isActive then recs.set .release id none else recs) kind id) ∧
      (Gone V clientId v id (c.entered op) (c.call op).2 ↔
        ∀ kind r, recs' kind id = some r → r.packet.Stems id (c.entered op)) := by
  intro op
  obtain ⟨c', acknowledged, restored, -, apart, regular⟩ := regular_pubcomp law takes h firm found
  have entered : c.entered op = (c'.drain now).1 := by
    rw [Courier.entered, if_neg (by decide), acknowledged]
  have left : (c.call op).2 = (c'.drain now).2 := congrArg Prod.snd acknowledged
  obtain ⟨recs', regular', window, same⟩ := regular_fill law takes regular restored now
    (capacity c'.settings - c'.window.size)
  obtain ⟨-, run⟩ := steps_drain now restored
  rw [left, entered]
  refine ⟨recs', regular', fun free kind => same id free kind, ?_, ?_⟩
  · exact fun gone kind r kept => stems_of_gone law takes regular' firm short gone kept
  · -- what is in flight under other identifiers, or entered in the call, does not matter
    intro stems
    refine gone_of_stems law takes regular' ?_
    rintro p (⟨f, mem, rfl⟩ | ⟨kind, i, r, kept, rfl⟩)
    · have mem' : f.packet ∈ c'.window.toList.map Inflight.packet ++ (c'.drain now).1 :=
        window ▸ List.mem_map_of_mem mem
      rw [List.mem_append] at mem'
      obtain old | new := mem'
      · obtain ⟨g, hg, packet⟩ := List.mem_map.mp old
        intro kind slot
        rw [← packet] at slot
        exact absurd (Inflight.packetId_of_slot slot) (apart g hg)
      · obtain ⟨m, publish⟩ := run.exists_publish _ new
        rw [publish] at new ⊢
        exact Packet.stems_of_mem new
    · obtain ⟨_, -, -, keeps⟩ := regular'.holds.store
      intro kind' slot
      have slots := slot.symm.trans (keeps.fits kept).slot
      cases slots
      exact stems kind r kept kind slot

end

/-- When PUBCOMP has come, the handshakes under its identifier are over for good exactly if each
record that is left under the identifier belongs to a message that got it at once. If none did, they
are over exactly if no record of the message stood beside the release before and, where packets were
not kept any longer, none of the release either. -/
theorem gone_iff_of_pubcomp {s₀ s₁ s s' : σ} {j : Journal} {settings : Settings}
    {since : List Packet} {before after : List Inflight} {e : Inflight} (law : V.Lawful)
    (takes : Journal.TakesAll V (Journal.startOf (Bytes.ofText clientId)))
    (firm : ∀ s, V.live s → V.sound s) (live : V.live s₀)
    (fresh : ∀ key, Journal.startOf (Bytes.ofText clientId) <+: key → V.records s₀ key = none)
    (opened : Journal.openFor clientId v s₀ = (.ok j, s₁))
    (reached : Descends V clientId v (withJournal settings j s₁) since c)
    (found : splitAt? id .pubcomp (c.restore now).window.toList = some (before, e, after))
    (stored : c.archive.store? = some s)
    (left : (c.acknowledge id .pubcomp now).2.archive.store? = some s') :
    let op : Call := .acknowledge id .pubcomp now
    let key (kind : Record.Kind) := Journal.keyAt (Journal.startOf (Bytes.ofText clientId)) kind id
    (Gone V clientId v id (c.entered op) (c.call op).2 ↔
      ∀ kind value r, V.records s' (key kind) = some value → Record.decode? value v = some r →
        r.packet.Stems id (c.entered op)) ∧
    ((∀ m, .publish m ∈ c.entered op → m.packetId ≠ id) →
      (Gone V clientId v id (c.entered op) (c.call op).2 ↔
        V.records s (key .message) = none ∧
          (c.archive.isActive = false → V.records s (key .release) = none))) := by
  intro op key
  have begun := regular_withJournal law takes settings live (.of_none fresh) opened
  obtain ⟨recs, regular, -⟩ := reached.regular law takes begun
  obtain ⟨recs', regular', same, iff⟩ :=
    gone_iff_stems law takes regular firm (Journal.length_lt_of_openFor opened) found
  obtain ⟨_, stored', -, keeps⟩ := regular.holds.store
  rw [stored] at stored'
  cases stored'
  obtain ⟨_, left', -, keeps'⟩ := regular'.holds.store
  rw [show (c.call op).2.archive.store? = some s' from left] at left'
  cases left'
  refine ⟨iff.trans ⟨fun stems kind value r kept decoded => ?_, fun stems kind r kept => ?_⟩,
    fun free => iff.trans ?_⟩
  · refine stems kind r ?_
    rw [← keeps'.found kind id, kept]
    exact decoded
  · obtain ⟨value, kept, decoded⟩ := keeps'.present kept
    exact stems kind value r kept decoded
  -- no message got the identifier, so a record that is left stems from none
  · have none : (∀ kind r, recs' kind id = some r → r.packet.Stems id (c.entered op)) ↔
        ∀ kind, recs' kind id = none := by
      refine ⟨fun stems kind => ?_, fun none kind r kept => absurd kept (by rw [none]; nofun)⟩
      cases kept : recs' kind id with
      | none => rfl
      | some r =>
        obtain ⟨m, mem, hid, -⟩ := stems kind r kept kind (keeps'.fits kept).slot
        exact absurd hid (free m mem)
    rw [none, keeps.eq_none_iff, keeps.eq_none_iff]
    simp only [same free]
    cases c.archive.isActive with
    | true =>
      simp only [if_true]
      refine ⟨fun none => ⟨?_, nofun⟩, fun none kind => ?_⟩
      · rw [← none .message, Slots.set_of_kind_ne]
        nofun
      · cases kind with
        | message =>
          rw [Slots.set_of_kind_ne]
          · exact none.1
          · nofun
        | release => exact Slots.set_self ..
    | false =>
      refine ⟨fun none => ⟨none .message, fun _ => none .release⟩, fun none kind => ?_⟩
      cases kind with
      | message => exact none.1
      | release => exact none.2 rfl

/-- A courier that stops between keeping the release and removing the message leaves both records.
The next one ends the handshake, and the one after it sends the message once more. -/
theorem not_gone_of_interrupted_release :
    let m : Publish := { qos := .exactlyOnce, topic := "a", payload := [1] }
    let op : Call := .acknowledge 1 .pubcomp .origin
    let first := withJournal {} ⟨[0, 1, 97], .v311, 0⟩ Table.empty
    let sent := (first.call (.enqueue m .origin)).2
    ∃ u j s since, let c : Courier Table := withJournal {} j s
      ((sent.stoppingAfter 3).call (.acknowledge 1 .pubrec .origin)).2.archive.store? = some u ∧
      Journal.openFor "a" .v311 u.store = (.ok j, s) ∧
      Descends Table.view "a" .v311 first since c ∧
      (splitAt? 1 .pubcomp (c.restore .origin).window.toList).isSome = true ∧
      ¬ Gone Table.view "a" .v311 1 (c.entered op) (c.call op).2 := by
  intro m op first sent
  -- three calls are made: two look for a place, and one puts the release
  have crashed : (((sent.stoppingAfter 3).call
      (.acknowledge 1 .pubrec .origin)).2.archive.store?.any fun u =>
        (u.store.find? (Journal.keyAt [0, 1, 97] .message 1)).isSome &&
          (u.store.find? (Journal.keyAt [0, 1, 97] .release 1)).isSome) = true := by
    decide +kernel
  rw [Option.any_eq_true] at crashed
  obtain ⟨u, stored, both⟩ := crashed
  rw [Bool.and_eq_true, Option.isSome_iff_ne_none, Option.isSome_iff_ne_none] at both
  have takes : Journal.TakesAll Table.view (Journal.startOf (Bytes.ofText "a")) :=
    ⟨trivial, fun _ _ => trivial⟩
  have begun := regular_withJournal (s := Table.empty) Table.lawful takes {} trivial
    (.of_none fun _ _ => rfl) (v := .v311) (j := ⟨[0, 1, 97], .v311, 0⟩) rfl
  have enqueued : Descends Table.view "a" .v311 first _ sent := .call (.enqueue m .origin) .refl
  obtain ⟨recs, regular, -⟩ := enqueued.regular Table.lawful takes begun
  obtain ⟨recs', stopped, -⟩ := (regular.stoppingAfter 3).stems_steps
    (Unreliable.lawful Table.lawful) ⟨trivial, fun _ _ => trivial⟩
    (steps_call _ (.acknowledge 1 .pubrec .origin)).2
  obtain ⟨_, stored', live, keeps⟩ := stopped.holds.store
  rw [stored] at stored'
  cases stored'
  obtain ⟨j, s, opened⟩ :=
    Journal.exists_openFor Table.lawful takes live.2 trivial keeps (by decide +kernel)
  have next := regular_withJournal Table.lawful takes {} live.2 keeps opened
  have message : recs' .message 1 ≠ none := fun none => both.1 (keeps.eq_none_iff.mpr none)
  obtain ⟨r, release⟩ := Option.ne_none_iff_exists'.mp fun none =>
    both.2 (keeps.eq_none_iff.mpr none)
  obtain ⟨found, quiet, c', acknowledged, left⟩ :=
    call_pubcomp Table.lawful takes next (fun _ live => live) rfl rfl release .origin
  have resumed : Descends Table.view "a" .v311 first
      (first.entered (.enqueue m .origin) ++ []) (withJournal {} j s) :=
    enqueued.stop (.acknowledge 1 .pubrec .origin) 3 stored opened
      fun m kind mem => absurd mem List.not_mem_nil
  refine ⟨u, j, s, _, stored, opened, resumed, Option.isSome_iff_exists.mpr found, fun gone => ?_⟩
  rw [quiet, acknowledged] at gone
  obtain ⟨s', remains, -, keeps'⟩ := left.holds.store
  have absent := (gone [] c' .refl).1 (fun m mem => absurd mem List.not_mem_nil) s' .message remains
  rw [keeps'.eq_none_iff, Slots.set_of_kind_ne (by decide)] at absent
  exact message absent

/-- Without interruption nothing is left of the handshake. -/
theorem gone_of_uninterrupted_release :
    let m : Publish := { qos := .exactlyOnce, topic := "a", payload := [1] }
    let op : Call := .acknowledge 1 .pubcomp .origin
    let first := withJournal {} ⟨[0, 1, 97], .v311, 0⟩ Table.empty
    let c := ((first.call (.enqueue m .origin)).2.call (.acknowledge 1 .pubrec .origin)).2
    Gone Table.view "a" .v311 1 (c.entered op) (c.call op).2 := by
  intro m op first c
  have reached : Descends Table.view "a" .v311 first _ c :=
    (Descends.refl.call (.enqueue m .origin)).call (.acknowledge 1 .pubrec .origin)
  have accepted : (splitAt? 1 .pubcomp (c.restore .origin).window.toList).isSome = true := by
    decide +kernel
  obtain ⟨⟨before, e, after⟩, found⟩ := Option.isSome_iff_exists.mp accepted
  have clean : (c.archive.store?.any fun s =>
      (s.find? (Journal.keyAt [0, 1, 97] .message 1)).isNone) = true := by
    decide +kernel
  rw [Option.any_eq_true] at clean
  obtain ⟨s, stored, absent⟩ := clean
  have remains : (c.acknowledge 1 .pubcomp .origin).2.archive.store?.isSome = true := by
    decide +kernel
  obtain ⟨s', left⟩ := Option.isSome_iff_exists.mp remains
  have quiet : c.entered op = [] := by decide +kernel
  have opened : Journal.openFor "a" .v311 Table.empty =
      (.ok ⟨[0, 1, 97], .v311, 0⟩, Table.empty) := rfl
  refine ((gone_iff_of_pubcomp Table.lawful ⟨trivial, fun _ _ => trivial⟩ (fun _ live => live)
    trivial (fun _ _ => rfl) opened reached found stored left).2 ?_).mpr ⟨?_, fun inactive => ?_⟩
  · rw [show c.entered (.acknowledge 1 .pubcomp .origin) = [] from quiet]
    nofun
  · exact Option.isNone_iff_eq_none.mp absent
  · have active : c.archive.isActive = true := by decide +kernel
    rw [inactive] at active
    cases active

end MqttClient.Courier
