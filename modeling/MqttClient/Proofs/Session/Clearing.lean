import MqttClient.Proofs.Session.Journal
import Mathlib.Tactic.Common

/-!
# Clearing a journal

A journal is cleared key by key, whatever stands under the keys of the client, damaged records among
it. Where no key is left nothing is read, in whatever version the journal is opened.
-/

namespace MqttClient
variable {σ : Type}

/-- Whether no record stands under a key that begins with `start`. -/
def StoreView.IsClear (V : StoreView σ) (start : Bytes) (s : σ) : Prop :=
  ∀ key, start <+: key → V.records s key = none

/-- Whether a store lists no key of a client, if it lists keys at all. -/
def Journal.IsBlank [RecordStore σ] (j : Journal) (s : σ) : Prop :=
  ∀ keys s', RecordStore.keys j.start s = (.ok keys, s') → keys = []

namespace Journal
variable [RecordStore σ] {V : StoreView σ} {j : Journal} {s : σ}

/-- No key is listed where no record stands. -/
lemma isBlank_of_isClear (law : V.Lawful) (takes : V.takes j.start) (live : V.live s)
    (clear : V.IsClear j.start s) : j.IsBlank s := by
  intro keys s' listed
  obtain ⟨-, -, mem, -⟩ := (law.keys live takes).of_ok listed
  rw [List.eq_nil_iff_forall_not_mem]
  intro key hk
  obtain ⟨front, ne⟩ := (mem key).mp hk
  exact ne (clear key front)

/-- A store that may fail lists what the store within lists. -/
lemma IsBlank.unreliable {u : Unreliable σ} (h : j.IsBlank u.store) : j.IsBlank u := by
  intro keys u' listed
  change Unreliable.attempt .keys (RecordStore.keys j.start) u = (.ok keys, u') at listed
  rw [Unreliable.attempt] at listed
  split at listed
  · cases listed
  · rcases answer : RecordStore.keys j.start u.store with ⟨result, s'⟩
    rw [answer] at listed
    cases listed
    exact h keys s' answer

/-- A cleared journal is opened in any version. -/
lemma exists_openFor_of_isClear {clientId : String} (law : V.Lawful)
    (takes : TakesAll V (startOf (Bytes.ofText clientId))) (live : V.live s) (sound : V.sound s)
    (clear : V.IsClear (startOf (Bytes.ofText clientId)) s)
    (short : (Bytes.ofText clientId).length < 65536) (w : Version) :
    ∃ j s', openFor clientId w s = (.ok j, s') ∧ j.IsBlank s' := by
  have keeps : Keeps _ w (V.records s) Slots.empty := .of_none clear
  obtain ⟨j, s', opened⟩ := exists_openFor law takes live sound keeps short
  obtain ⟨leads, ⟨start, -⟩, same⟩ := (meets_openFor law takes live keeps).of_ok opened
  refine ⟨j, s', opened, isBlank_of_isClear law (start ▸ takes.takes_start) leads.live ?_⟩
  intro key front
  rw [same]
  exact clear key (start ▸ front)

end Journal

/-- A table lists no key of a client if it has none. -/
lemma Table.isBlank {j : Journal} {t : Table} (h : t.keysFrom j.start = []) : j.IsBlank t := by
  intro keys t' listed
  cases listed
  exact h

end MqttClient
