import MqttClient.Proofs.Delivery.Generations
import MqttClient.Proofs.Delivery.Handshake
import Mathlib.Tactic.Common

/-!
# Interruptions

A courier may stop in the middle of a call, behind any call of its store. Only the store is left
then, as it is at that moment, and the next courier begins on it. All that such couriers send and
keep carries on handshakes of messages that entered the window of one of them.
-/

namespace MqttClient
variable {σ : Type}

/-- A store that makes a number of calls and then no more. -/
def Unreliable.stoppingAfter (s : σ) (n : Nat) : Unreliable σ :=
  { store := s, plan := fun k _ => if k < n then none else some .unavailable }

/-- An archive whose store makes a number of calls and then no more. -/
def Archive.stoppingAfter (a : Archive σ) (n : Nat) : Archive (Unreliable σ) :=
  match a with
  | absent => absent
  | active j s => active j (.stoppingAfter s n)
  | abandoned j s => abandoned j (.stoppingAfter s n)

/-- A courier whose store makes a number of calls and then no more. -/
def Courier.stoppingAfter (c : Courier σ) (n : Nat) : Courier (Unreliable σ) :=
  ⟨c.settings, c.queue, c.window, c.ids, c.archive.stoppingAfter n, c.restored⟩

/-- Whether a packet belongs to the handshake of a message that is among given ones, as far as it
belongs to a handshake under an identifier at all. -/
def Packet.Stems (id : UInt16) (since : List Packet) (p : Packet) : Prop :=
  ∀ kind, Record.slot? p = some (kind, id) →
    ∃ m, .publish m ∈ since ∧ m.packetId = id ∧ p.Continues (.publish m)

/-- What holds of the handshake of a message holds of each packet that carries it on. -/
lemma Packet.Continues.stems {id : UInt16} {since : List Packet} {p q : Packet}
    (h : p.Continues q) (stems : q.Stems id since) : p.Stems id since := by
  intro kind slot
  cases h with
  | same => exact stems kind slot
  | again =>
    obtain ⟨m, mem, hid, continues⟩ := stems kind slot
    refine ⟨m, mem, hid, ?_⟩
    cases continues with
    | same => exact .again
    | again => exact .again (m := m)
  | release acknowledged =>
    cases slot
    obtain ⟨m, mem, hid, continues⟩ := stems .message (if_pos acknowledged)
    refine ⟨m, mem, hid, ?_⟩
    cases continues with
    | same => exact .release acknowledged
    | again => exact .release (m := m) acknowledged

/-- What stems from some messages stems from more of them. -/
lemma Packet.Stems.mono {id : UInt16} {since since' : List Packet} {p : Packet}
    (h : p.Stems id since) (sub : since ⊆ since') : p.Stems id since' := by
  intro kind slot
  obtain ⟨m, mem, rest⟩ := h kind slot
  exact ⟨m, sub mem, rest⟩

/-- A message stems from itself. -/
lemma Packet.stems_of_mem {id : UInt16} {since : List Packet} {m : Publish}
    (mem : .publish m ∈ since) : (Packet.publish m).Stems id since := by
  intro kind slot
  obtain ⟨_, e, -, -, hid⟩ | ⟨_, e, -⟩ := Record.slot?_eq_some_iff.mp slot
  · cases e
    exact ⟨m, mem, hid, .same⟩
  · cases e

/-- An archive that will stop holds what it held until it does. -/
lemma Archive.Holds.stoppingAfter {V : StoreView σ} {start : Bytes} {v : Version} {recs : Slots}
    {a : Archive σ} (h : a.Holds V start v recs) (n : Nat) :
    (a.stoppingAfter n).Holds (Unreliable.view V) start v recs := by
  have intact (s : σ) (live : V.live s) : (Unreliable.view V).live (.stoppingAfter s n) := by
    refine ⟨fun k _ damaged => ?_, live⟩
    rw [Unreliable.stoppingAfter] at damaged
    simp only at damaged
    split at damaged <;> cases damaged
  cases a with
  | absent => exact h.elim
  | active j s => exact ⟨h.1, intact s h.2.1, h.2.2⟩
  | abandoned j s => exact ⟨intact s h.1, h.2⟩

namespace Courier
variable {V : StoreView σ} {clientId : String} {v : Version} {s s' : σ}
  {j : Journal} {c c' : Courier σ} {recs : Slots} {since : List Packet}

/-- A courier that will stop is regular until it does. -/
lemma Regular.stoppingAfter {start : Bytes} (h : c.Regular V start v recs) (n : Nat) :
    (c.stoppingAfter n).Regular (Unreliable.view V) start v recs :=
  ⟨h.holds.stoppingAfter n, h.apart, h.taken, h.stored, h.queue,
    fun fresh => ⟨(h.idle fresh).window, (h.idle fresh).queue, (h.idle fresh).free⟩⟩

variable [RecordStore σ]

/-- The couriers that come after a given one, each of them after calls, on the store that another
one left between two calls, or on the store that another one left when it stopped in the middle of a
call. Between stand the messages that entered a window since. Of the call that was stopped these are
the ones whose records were put. -/
inductive Descends (V : StoreView σ) (clientId : String) (v : Version) (c : Courier σ) :
    List Packet → Courier σ → Prop where
  /-- The courier itself. -/
  | refl : Descends V clientId v c [] c
  /-- A courier goes on with a call. -/
  | call {since : List Packet} {c' : Courier σ} (op : Call) : Descends V clientId v c since c' →
      Descends V clientId v c (since ++ c'.entered op) (c'.call op).2
  /-- The next courier opens the journal on the store that is left. -/
  | next {since : List Packet} {c' : Courier σ} {settings : Settings} {s s' : σ} {j : Journal} :
      Descends V clientId v c since c' → c'.archive.store? = some s →
      Journal.openFor clientId v s = (.ok j, s') →
      Descends V clientId v c since (withJournal settings j s')
  /-- A courier stops in a call after a number of calls of its store, and the next one opens the
  journal. -/
  | stop {since put : List Packet} {c' : Courier σ} {settings : Settings} {s' : σ} {j : Journal}
      {u : Unreliable σ} (op : Call) (n : Nat) : Descends V clientId v c since c' →
      ((c'.stoppingAfter n).call op).2.archive.store? = some u →
      Journal.openFor clientId v u.store = (.ok j, s') →
      (∀ m kind, .publish m ∈ (c'.stoppingAfter n).entered op →
        V.records u.store
          (Journal.keyAt (Journal.startOf (Bytes.ofText clientId)) kind m.packetId) ≠ none →
        .publish m ∈ put) →
      Descends V clientId v c (since ++ put) (withJournal settings j s')

/-- In a run everything stems from what was there before or entered the window. -/
lemma Regular.stems_steps {start : Bytes} {now : Instant} {new sent : List Packet}
    (law : V.Lawful) (takes : Journal.TakesAll V start) (h : c.Regular V start v recs)
    (run : Steps now c new sent c') :
    ∃ recs', c'.Regular V start v recs' ∧ ∀ id since, (∀ p, c.Has recs p → p.Stems id since) →
      (∀ p ∈ sent, p.Stems id (since ++ new)) ∧
        ∀ p, c'.Has recs' p → p.Stems id (since ++ new) := by
  obtain ⟨recs', h', all⟩ := h.steps law takes run
  refine ⟨recs', h', fun id since had => all (Packet.Stems id (since ++ new)) ?_ ?_ ?_ ?_⟩
  · intro p unstored kind slot
    rw [unstored] at slot
    cases slot
  · exact fun p q continues stems => continues.stems stems
  · intro p mem
    obtain ⟨m, rfl⟩ := run.exists_publish p mem
    exact Packet.stems_of_mem (List.mem_append_right _ mem)
  · exact fun p hp => (had p hp).mono (List.subset_append_left ..)

section
variable (law : V.Lawful) (takes : Journal.TakesAll V (Journal.startOf (Bytes.ofText clientId)))
include law takes

/-- A courier that begins on a store with records is regular. -/
lemma regular_withJournal (settings : Settings) (live : V.live s)
    (keeps : Journal.Keeps (Journal.startOf (Bytes.ofText clientId)) v (V.records s) recs)
    (opened : Journal.openFor clientId v s = (.ok j, s')) :
    (withJournal settings j s').Regular V (Journal.startOf (Bytes.ofText clientId)) v recs := by
  obtain ⟨leads, ⟨start, version, -⟩, same⟩ :=
    (Journal.meets_openFor law takes live keeps).of_ok opened
  exact ⟨⟨⟨start, version⟩, leads.live, same ▸ keeps⟩, .nil, nofun, nofun, nofun,
    fun _ => ⟨rfl, rfl, fun _ => rfl⟩⟩

/-- Couriers after regular ones are regular, and their packets stem from those that were there
before, and from messages that entered since. -/
theorem Descends.regular (h : Descends V clientId v c since c')
    (regular : c.Regular V (Journal.startOf (Bytes.ofText clientId)) v recs) :
    ∃ recs', c'.Regular V (Journal.startOf (Bytes.ofText clientId)) v recs' ∧
      ∀ id old, (∀ p, c.Has recs p → p.Stems id old) →
        ∀ p, c'.Has recs' p → p.Stems id (old ++ since) := by
  induction h with
  | refl =>
    refine ⟨recs, regular, fun id old had => ?_⟩
    rwa [List.append_nil]
  | @call since c' op _ ih =>
    obtain ⟨recs', h', stems⟩ := ih
    obtain ⟨recs'', h'', after⟩ := h'.stems_steps law takes (steps_call c' op).2
    refine ⟨recs'', h'', fun id old had => ?_⟩
    rw [← List.append_assoc]
    exact (after id _ (stems id old had)).2
  | next _ left opened ih =>
    obtain ⟨recs', h', stems⟩ := ih
    obtain ⟨s, stored, live, keeps⟩ := h'.holds.store
    rw [left] at stored
    cases stored
    refine ⟨recs', regular_withJournal law takes _ live keeps opened, fun id old had p hp => ?_⟩
    obtain ⟨e, mem, -⟩ | kept := hp
    · cases mem
    · exact stems id old had p (.inr kept)
  | @stop since put c' _ _ _ u op n _ left opened entered ih =>
    obtain ⟨recs', h', stems⟩ := ih
    obtain ⟨recs'', h'', after⟩ := (h'.stoppingAfter n).stems_steps (Unreliable.lawful law)
      ⟨takes.takes_start, takes.takes_key⟩ (steps_call (c'.stoppingAfter n) op).2
    obtain ⟨u', stored, live, keeps⟩ := h''.holds.store
    rw [left] at stored
    cases stored
    refine ⟨recs'', regular_withJournal law takes _ live.2 keeps opened, fun id old had p hp => ?_⟩
    obtain ⟨e, mem, -⟩ | ⟨kind, i, r, kept, rfl⟩ := hp
    · cases mem
    · intro kind' slot
      obtain ⟨m, mem, hid, continues⟩ :=
        (after id _ (stems id old had)).2 r.packet (.inr ⟨kind, i, r, kept, rfl⟩) kind' slot
      refine ⟨m, ?_, hid, continues⟩
      rw [List.mem_append] at mem
      rw [← List.append_assoc, List.mem_append]
      refine mem.imp_right fun mem => entered m kind mem fun none => ?_
      -- the record under the identifier of the message is the one that was found
      have slots := slot.symm.trans (keeps.fits kept).slot
      cases slots
      rw [hid] at none
      obtain ⟨value, found, -⟩ := keeps.present kept
      exact absurd (found.symm.trans none) nofun

end

end Courier

end MqttClient
