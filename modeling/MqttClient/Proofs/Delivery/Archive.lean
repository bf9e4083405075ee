import MqttClient.Delivery.Archive
import MqttClient.Proofs.Session.Journal
import Mathlib.Tactic.Common

/-!
# Archives over lawful stores

An active archive does what its journal does, or it is given up with the records as they are. An
archive that is not active stays as it is. Over a sound store an archive is given up only if a
packet cannot be written.
-/

namespace MqttClient.Archive
variable {σ : Type}

/-- The place of the next new record. -/
def nextSeq : Archive σ → UInt64
  | absent => 0
  | active j _ | abandoned j _ => j.nextSeq

/-- Whether the slots are what the store of the archive holds of a client. -/
def Holds (V : StoreView σ) (start : Bytes) (v : Version) (recs : Slots) : Archive σ → Prop
  | absent => False
  | active j s => (j.start = start ∧ j.version = v) ∧ V.live s ∧
    Journal.Keeps start v (V.records s) recs
  | abandoned _ s => V.live s ∧ Journal.Keeps start v (V.records s) recs

/-- Whether no call of the store will fail. -/
def Sound (V : StoreView σ) (a : Archive σ) : Prop :=
  ∀ s, a.store? = some s → V.sound s

variable {V : StoreView σ} {start : Bytes} {v : Version} {recs : Slots} {a : Archive σ}

/-- An archive that is active has a journal and a store. -/
lemma eq_active (active : a.isActive = true) : ∃ j s, a = .active j s := by
  cases a with
  | active j s => exact ⟨j, s, rfl⟩
  | _ => cases active

/-- The store of an archive that holds records keeps them. -/
lemma Holds.store (h : a.Holds V start v recs) :
    ∃ s, a.store? = some s ∧ V.live s ∧ Journal.Keeps start v (V.records s) recs := by
  cases a with
  | absent => exact h.elim
  | active j s => exact ⟨s, rfl, h.2⟩
  | abandoned j s => exact ⟨s, rfl, h⟩

/-- An archive holds the slots of one client in one way only. -/
lemma Holds.unique {recs' : Slots} (h : a.Holds V start v recs) (h' : a.Holds V start v recs') :
    recs = recs' := by
  obtain ⟨s, stored, -, keeps⟩ := h.store
  obtain ⟨s', stored', -, keeps'⟩ := h'.store
  rw [stored] at stored'
  cases stored'
  funext kind id
  rw [← keeps.found kind id, ← keeps'.found kind id]

/-- If no live store fails, no call will fail. -/
lemma Holds.sound (firm : ∀ s, V.live s → V.sound s) (h : a.Holds V start v recs) : a.Sound V := by
  obtain ⟨s, stored, live, -⟩ := h.store
  intro s' stored'
  rw [stored] at stored'
  cases stored'
  exact firm s live

/-- The journal of an active archive is that of its client and version. -/
lemma Holds.active (h : a.Holds V start v recs) (active : a.isActive = true) :
    ∃ j s, a = .active j s ∧ j.start = start ∧ j.version = v ∧ V.live s ∧
      Journal.Keeps start v (V.records s) recs := by
  obtain ⟨j, s, rfl⟩ := eq_active active
  exact ⟨j, s, rfl, h.1.1, h.1.2, h.2⟩

/-- Whether calls will fail is up to the store alone. -/
lemma Sound.leads {a' : Archive σ} {s s' : σ} (sound : a.Sound V) (h : a.store? = some s)
    (leads : V.Leads s s') (h' : a'.store? = some s') : a'.Sound V := by
  intro s'' hs
  rw [h'] at hs
  cases hs
  exact leads.sound (sound s h)

/-- Nothing is tried with an archive that is not active. -/
lemma attempt_of_not_active {α : Type} {act : JournalM σ α} (h : a.isActive = false) :
    a.attempt act = (none, a) := by
  cases a with
  | active j s => cases h
  | _ => rfl

/-- What is asked of an active archive is done, or the archive is given up. -/
lemma attempt_of_meets {α : Type} {act : JournalM σ α} {j : Journal} {s : σ}
    {P : α → Journal × σ → Prop} {E : StoreError → Journal × σ → Prop}
    (h : V.onJournal.Meets act (j, s) P E) :
    (∃ x j' s', (active j s).attempt act = (some x, .active j' s') ∧ V.Leads s s' ∧ P x (j', s')) ∨
      ∃ e j' s', (active j s).attempt act = (none, .abandoned j' s') ∧ V.Leads s s' ∧
        E e (j', s') := by
  unfold StoreView.Meets at h
  rw [attempt]
  split at h
  · rename_i x js e
    rw [e]
    exact .inl ⟨x, js.1, js.2, rfl, ⟨h.1.live, h.1.sound⟩, h.2⟩
  · rename_i fault js e
    rw [e]
    exact .inr ⟨fault, js.1, js.2, rfl, ⟨h.1.live, h.1.sound⟩, h.2⟩

variable [RecordStore σ]

/-- An archive that is not active saves nothing. -/
lemma save_of_not_active (h : a.isActive = false) (p : Packet) : a.save p = a := by
  rw [save, attempt_of_not_active h]

/-- An archive that is not active drops nothing. -/
lemma drop_of_not_active (h : a.isActive = false) (p : Packet) : a.drop p = a := by
  rw [drop, attempt_of_not_active h]

/-- An archive that is not active clears nothing. -/
lemma clear_of_not_active (h : a.isActive = false) : a.clear = a := by
  rw [clear, attempt_of_not_active h]

/-- An active archive keeps a packet in its slot, or it is given up. -/
lemma save_active (law : V.Lawful) (takes : Journal.TakesAll V start)
    (h : a.Holds V start v recs) (active : a.isActive = true) {p : Packet} {kind : Record.Kind}
    {id : UInt16} (slot : Record.slot? p = some (kind, id)) (stable : p.IsStable v) :
    (a.Sound V → (a.save p).Sound V) ∧
      ((∃ seq, (a.save p).isActive = true ∧
          (a.save p).Holds V start v (recs.set kind id (some ⟨seq, p⟩)) ∧
          (recs.place? kind id = some seq ∧ (a.save p).nextSeq = a.nextSeq ∨
            recs.place? kind id = none ∧ seq = a.nextSeq ∧
              (a.save p).nextSeq = a.nextSeq + 1)) ∨
        (a.save p).isActive = false ∧ (a.save p).Holds V start v recs ∧
          ((a.save p).nextSeq = a.nextSeq ∨
            recs.place? kind id = none ∧ (a.save p).nextSeq = a.nextSeq + 1) ∧
          (a.Sound V → ∃ e, p.encode v = .error e)) := by
  obtain ⟨j, s, rfl, rfl, rfl, live, keeps⟩ := h.active active
  obtain ⟨x, j', s', e, leads, seq, keeps', counted⟩ | ⟨x, j', s', e, leads, same, counted, why⟩ :=
    attempt_of_meets (Journal.meets_write law takes live keeps slot stable)
  · -- the packet was put
    have saved : (Archive.active j s).save p = .active j' s' := by rw [save, e]
    rw [saved]
    refine ⟨fun sound => sound.leads rfl leads rfl, .inl ⟨seq, rfl, ⟨?_, leads.live, keeps'⟩, ?_⟩⟩
    · obtain ⟨-, rfl⟩ | ⟨-, -, rfl⟩ := counted <;> exact ⟨rfl, rfl⟩
    · obtain ⟨found, rfl⟩ | ⟨absent, rfl, rfl⟩ := counted
      · exact .inl ⟨found, rfl⟩
      · exact .inr ⟨absent, rfl, rfl⟩
  · -- a call failed, or the packet cannot be written
    have saved : (Archive.active j s).save p = .abandoned j' s' := by rw [save, e]
    rw [saved]
    refine ⟨fun sound => sound.leads rfl leads rfl,
      .inr ⟨rfl, ⟨leads.live, ?_⟩, ?_, fun sound => why (sound s rfl)⟩⟩
    · change V.records s' = V.records s at same
      rwa [same]
    · obtain rfl | ⟨absent, rfl⟩ := counted
      · exact .inl rfl
      · exact .inr ⟨absent, rfl⟩

/-- A packet that has a place is kept there, or the archive is given up. -/
lemma save_kept (law : V.Lawful) (takes : Journal.TakesAll V start)
    (h : a.Holds V start v recs) (active : a.isActive = true) {p : Packet} {kind : Record.Kind}
    {id : UInt16} (slot : Record.slot? p = some (kind, id)) (stable : p.IsStable v) {seq : UInt64}
    (place : recs.place? kind id = some seq) :
    (a.Sound V → (a.save p).Sound V) ∧ (a.save p).nextSeq = a.nextSeq ∧
      ((a.save p).isActive = true ∧
          (a.save p).Holds V start v (recs.set kind id (some ⟨seq, p⟩)) ∨
        (a.save p).isActive = false ∧ (a.save p).Holds V start v recs) := by
  obtain ⟨sound, ⟨seq', active', holds', counted⟩ | ⟨inactive, holds', counted, -⟩⟩ :=
    save_active law takes h active slot stable
  · obtain ⟨found, same⟩ | ⟨absent, -⟩ := counted
    · rw [place] at found
      cases found
      exact ⟨sound, same, .inl ⟨active', holds'⟩⟩
    · rw [place] at absent
      cases absent
  · obtain same | ⟨absent, -⟩ := counted
    · exact ⟨sound, same, .inr ⟨inactive, holds'⟩⟩
    · rw [place] at absent
      cases absent

/-- An active archive empties the slot of a packet, or it is given up. -/
lemma drop_active (law : V.Lawful) (takes : Journal.TakesAll V start)
    (h : a.Holds V start v recs) (active : a.isActive = true) {p : Packet} {kind : Record.Kind}
    {id : UInt16} (slot : Record.slot? p = some (kind, id)) :
    (a.Sound V → (a.drop p).Sound V) ∧ (a.drop p).nextSeq = a.nextSeq ∧
      ((a.drop p).isActive = true ∧ (a.drop p).Holds V start v (recs.set kind id none) ∨
        (a.drop p).isActive = false ∧ (a.drop p).Holds V start v recs ∧ ¬ a.Sound V) := by
  obtain ⟨j, s, rfl, rfl, rfl, live, keeps⟩ := h.active active
  obtain ⟨x, j', s', e, leads, rfl, keeps'⟩ | ⟨x, j', s', e, leads, rfl, failed⟩ :=
    attempt_of_meets (Journal.meets_remove law takes live keeps slot)
  · have dropped : (Archive.active j' s).drop p = .active j' s' := by rw [drop, e]
    rw [dropped]
    exact ⟨fun sound => sound.leads rfl leads rfl, rfl, .inl ⟨rfl, ⟨rfl, rfl⟩, leads.live, keeps'⟩⟩
  · have dropped : (Archive.active j' s).drop p = .abandoned j' s' := by rw [drop, e]
    rw [dropped]
    refine ⟨fun sound => sound.leads rfl leads rfl, rfl, .inr ⟨rfl, ⟨leads.live, ?_⟩,
      fun sound => failed.unsound (sound s rfl)⟩⟩
    rwa [failed.records_eq]

/-- An active archive empties all slots, or it is given up with some of them emptied. -/
lemma clear_active (law : V.Lawful) (takes : Journal.TakesAll V start)
    (h : a.Holds V start v recs) (active : a.isActive = true) :
    (a.Sound V → a.clear.Sound V) ∧
      (a.clear.isActive = true ∧ a.clear.Holds V start v Slots.empty ∧ a.clear.nextSeq = 0 ∨
        a.clear.isActive = false ∧ ¬ a.Sound V ∧ ∃ recs', a.clear.Holds V start v recs' ∧
          ∀ kind id, recs' kind id = none ∨ recs' kind id = recs kind id) := by
  obtain ⟨j, s, rfl, rfl, rfl, live, keeps⟩ := h.active active
  obtain ⟨x, j', s', e, leads, rfl, keeps'⟩ |
      ⟨x, j', s', e, leads, -, failed, recs', keeps', less⟩ :=
    attempt_of_meets (Journal.meets_clear law takes live keeps)
  · have cleared : (Archive.active j s).clear = .active { j with nextSeq := 0 } s' := by
      rw [clear, e]
    rw [cleared]
    exact ⟨fun sound => sound.leads rfl leads rfl,
      .inl ⟨rfl, ⟨⟨rfl, rfl⟩, leads.live, keeps'⟩, rfl⟩⟩
  · have cleared : (Archive.active j s).clear = .abandoned j' s' := by rw [clear, e]
    rw [cleared]
    exact ⟨fun sound => sound.leads rfl leads rfl, .inr ⟨rfl, fun sound => failed (sound s rfl),
      recs', ⟨leads.live, keeps'⟩, less⟩⟩

/-- The packets of an active archive are those of all slots, or it is given up. -/
lemma readAll_active (law : V.Lawful) (takes : Journal.TakesAll V start)
    (h : a.Holds V start v recs) (active : a.isActive = true) :
    (a.Sound V → a.readAll.2.Sound V) ∧ a.readAll.2.nextSeq = a.nextSeq ∧
      a.readAll.2.Holds V start v recs ∧
      (a.readAll.2.isActive = true ∧ (∃ rs, recs.Lists rs ∧ a.readAll.1 = Journal.replay rs) ∨
        a.readAll.2.isActive = false ∧ a.readAll.1 = [] ∧ ¬ a.Sound V) := by
  obtain ⟨j, s, rfl, rfl, rfl, live, keeps⟩ := h.active active
  obtain ⟨x, j', s', e, leads, rfl, listed, same⟩ | ⟨x, j', s', e, leads, rfl, failed⟩ :=
    attempt_of_meets (Journal.meets_readAll law takes live keeps)
  · have read : (Archive.active j' s).readAll = (x, .active j' s') := by rw [readAll, e]; rfl
    rw [read]
    refine ⟨fun sound => sound.leads rfl leads rfl, rfl, ⟨⟨rfl, rfl⟩, leads.live, ?_⟩,
      .inl ⟨rfl, listed⟩⟩
    change V.records s' = V.records s at same
    rwa [same]
  · have read : (Archive.active j' s).readAll = ([], .abandoned j' s') := by rw [readAll, e]; rfl
    rw [read]
    refine ⟨fun sound => sound.leads rfl leads rfl, rfl, ⟨leads.live, ?_⟩, .inr ⟨rfl, rfl,
      fun sound => failed.unsound (sound s rfl)⟩⟩
    rwa [failed.records_eq]

/-- Saving a packet sets its slot to it, or leaves all records as they are. -/
lemma Holds.save (law : V.Lawful) (takes : Journal.TakesAll V start) (h : a.Holds V start v recs)
    {p : Packet} {kind : Record.Kind} {id : UInt16} (slot : Record.slot? p = some (kind, id))
    (stable : p.IsStable v) :
    ∃ recs', (a.save p).Holds V start v recs' ∧
      (recs' = recs ∨ ∃ seq, recs' = recs.set kind id (some ⟨seq, p⟩)) := by
  cases active : a.isActive with
  | false => exact ⟨recs, by rwa [save_of_not_active active], .inl rfl⟩
  | true =>
    obtain ⟨-, ⟨seq, -, h', -⟩ | ⟨-, h', -⟩⟩ := save_active law takes h active slot stable
    · exact ⟨_, h', .inr ⟨seq, rfl⟩⟩
    · exact ⟨recs, h', .inl rfl⟩

/-- Dropping a packet adds no record. -/
lemma Holds.drop (law : V.Lawful) (takes : Journal.TakesAll V start) (h : a.Holds V start v recs)
    {p : Packet} {kind : Record.Kind} {id : UInt16} (slot : Record.slot? p = some (kind, id)) :
    ∃ recs', (a.drop p).Holds V start v recs' ∧
      ∀ {k i r}, recs' k i = some r → recs k i = some r := by
  cases active : a.isActive with
  | false => exact ⟨recs, by rwa [drop_of_not_active active], fun found => found⟩
  | true =>
    obtain ⟨-, -, ⟨-, h'⟩ | ⟨-, h', -⟩⟩ := drop_active law takes h active slot
    · refine ⟨_, h', fun found => ?_⟩
      obtain ⟨-, e⟩ | ⟨-, e⟩ := Slots.of_set_eq_some found
      · cases e
      · exact e
    · exact ⟨recs, h', fun found => found⟩

/-- Clearing adds no record. -/
lemma Holds.clear (law : V.Lawful) (takes : Journal.TakesAll V start) (h : a.Holds V start v recs) :
    ∃ recs', a.clear.Holds V start v recs' ∧
      ∀ {k i r}, recs' k i = some r → recs k i = some r := by
  cases active : a.isActive with
  | false => exact ⟨recs, by rwa [clear_of_not_active active], fun found => found⟩
  | true =>
    obtain ⟨-, ⟨-, h', -⟩ | ⟨-, -, recs', h', less⟩⟩ := clear_active law takes h active
    · exact ⟨_, h', nofun⟩
    · refine ⟨recs', h', fun {k i r} found => ?_⟩
      obtain none | same := less k i
      · rw [found] at none
        cases none
      · rw [← same, found]

/-- Reading leaves the records, and tells the packets in their order, or none. -/
lemma Holds.readAll (law : V.Lawful) (takes : Journal.TakesAll V start)
    (h : a.Holds V start v recs) :
    a.readAll.2.Holds V start v recs ∧
      (a.readAll.1 = [] ∨ ∃ rs, recs.Lists rs ∧ a.readAll.1 = Journal.replay rs) := by
  cases active : a.isActive with
  | false =>
    have read : a.readAll = ([], a) := by
      rw [Archive.readAll, attempt_of_not_active active]
      rfl
    rw [read]
    exact ⟨h, .inl rfl⟩
  | true =>
    obtain ⟨-, -, h', ⟨-, rs, listed, read⟩ | ⟨-, read, -⟩⟩ := readAll_active law takes h active
    · exact ⟨h', .inr ⟨rs, listed, read⟩⟩
    · exact ⟨h', .inl read⟩

end MqttClient.Archive
