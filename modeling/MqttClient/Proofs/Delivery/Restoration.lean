import MqttClient.Proofs.Delivery.Window
import MqttClient.Proofs.Packet.Writable
import MqttClient.Proofs.Store.Lawful
import Mathlib.Tactic.Common

/-!
# What is taken up

Whatever a store holds and however it fails, the packets that are taken up were read from it in the
version of the journal. So they can be written in that version, and its messages wait for an
acknowledgment.
-/

namespace MqttClient

/-- Whether a packet is read off some bytes. -/
def Packet.IsRead (v : Version) (p : Packet) : Prop :=
  ∃ bytes n, decodeFirst bytes v = .ok (some (p, n))

variable {σ : Type} {v : Version}

/-- The packet of a record was read off its bytes. -/
lemma Record.isRead_of_decode? {value : Bytes} {r : Record} (h : decode? value v = some r) :
    r.packet.IsRead v := by
  unfold decode? at h
  simp only at h
  split at h
  · cases h
  · split at h
    · cases h
    · split at h
      · rename_i p used read
        split at h
        · cases h
          exact ⟨_, used, read⟩
        · cases h
      · cases h

namespace Journal

/-- What is replayed was among the records. -/
lemma exists_of_mem_replay {records : List Record} {p : Packet} (h : p ∈ replay records) :
    ∃ r ∈ records, r.packet = p := by
  obtain ⟨r, mem, rfl⟩ := List.mem_map.mp (List.mem_filter.mp h).1
  exact ⟨r, List.mem_mergeSort.mp mem, rfl⟩

variable [RecordStore σ]

/-- The packet of a record that is found was read off some bytes. -/
lemma isRead_of_lookup {key : Bytes} {s s' : σ} {r : Record}
    (h : lookup v key s = (.ok (some r), s')) : r.packet.IsRead v := by
  unfold lookup at h
  split at h
  · rename_i value s₁ got
    obtain ⟨found, -⟩ := Prod.mk.inj h
    obtain ⟨bytes, -, decoded⟩ := Option.bind_eq_some_iff.mp (Except.ok.inj found)
    exact Record.isRead_of_decode? decoded
  · cases h
  · cases h

/-- The packets of all records that are found were read off some bytes. -/
lemma isRead_of_lookupAll {keys : List Bytes} {s s' : σ} {records : List Record}
    (h : lookupAll v keys s = (.ok records, s')) : ∀ r ∈ records, r.packet.IsRead v := by
  induction keys generalizing s records with
  | nil =>
    cases h
    exact List.forall_mem_nil _
  | cons key keys ih =>
    obtain ⟨record, s₁, first, h⟩ := StoreM.bind_eq_ok_iff.mp h
    obtain ⟨others, s₂, rest, h⟩ := StoreM.bind_eq_ok_iff.mp h
    cases h
    rw [List.forall_mem_append]
    refine ⟨fun r mem => ?_, ih rest⟩
    rw [Option.mem_toList] at mem
    cases mem
    exact isRead_of_lookup first

/-- All packets of a journal were read off some bytes, in its version. -/
lemma isRead_of_readAll {j : Journal} {s : σ} {js : Journal × σ} {packets : List Packet}
    (h : readAll (j, s) = (.ok packets, js)) : ∀ p ∈ packets, p.IsRead j.version := by
  obtain ⟨_, _, same, h⟩ := StoreM.bind_eq_ok_iff.mp h
  cases same
  obtain ⟨records, _, loaded, h⟩ := StoreM.bind_eq_ok_iff.mp h
  cases h
  intro p replayed
  obtain ⟨r, mem, rfl⟩ := exists_of_mem_replay replayed
  have answer : (load j.version j.start s).1 = .ok records := congrArg Prod.fst loaded
  obtain ⟨keys, s', -, found⟩ := StoreM.bind_eq_ok_iff.mp (Prod.ext answer rfl)
  exact isRead_of_lookupAll found r mem

end Journal

/-- The packets that an archive gives were read in the version of its journal. -/
lemma Archive.isRead_of_mem_readAll [RecordStore σ] {a : Archive σ} {p : Packet}
    (h : p ∈ a.readAll.1) : ∃ j s, a = .active j s ∧ p.IsRead j.version := by
  cases a with
  | active j s =>
    refine ⟨j, s, rfl, ?_⟩
    simp only [readAll, attempt] at h
    split at h
    · rename_i packets j' s' read
      exact Journal.isRead_of_readAll read p h
    · cases h
  | _ => cases h

namespace Courier
variable {c : Courier σ} {now : Instant}

/-- What is in flight after packets are taken up was in flight before or is one of them. -/
lemma mem_foldl_takeUp {ps : List Packet} {e : Inflight}
    (h : e ∈ (ps.foldl (takeUp now) c).window.toList) :
    e ∈ c.window.toList ∨ e.packet ∈ ps ∧ e.lastSent = now := by
  induction ps generalizing c with
  | nil => exact .inl h
  | cons p ps ih =>
    obtain mem | ⟨mem, stamped⟩ := ih h
    · unfold takeUp at mem
      split at mem
      · exact .inl mem
      · rw [Fifo.toList_push, List.mem_append, List.mem_singleton] at mem
        obtain mem | rfl := mem
        · exact .inl mem
        · exact .inr ⟨List.mem_cons_self .., rfl⟩
    · exact .inr ⟨List.mem_cons_of_mem _ mem, stamped⟩

variable [RecordStore σ]

/-- What is in flight once an idle courier has taken up its archive was read from it just now. -/
lemma mem_readAll_of_mem_restore (idle : c.IsIdle) (fresh : c.restored = false) {e : Inflight}
    (h : e ∈ (c.restore now).window.toList) :
    e.packet ∈ c.archive.readAll.1 ∧ e.lastSent = now := by
  rw [restore, fresh] at h
  obtain mem | taken := mem_foldl_takeUp h
  · change e ∈ c.window.toList at mem
    rw [idle.window] at mem
    cases mem
  · exact taken

/-- What is taken up was read in the version of the journal. -/
lemma isRead_of_mem_restore (idle : c.IsIdle) (fresh : c.restored = false) {e : Inflight}
    (h : e ∈ (c.restore now).window.toList) :
    ∃ j s, c.archive = .active j s ∧ e.packet.IsRead j.version :=
  Archive.isRead_of_mem_readAll (mem_readAll_of_mem_restore idle fresh h).1

end Courier
end MqttClient
