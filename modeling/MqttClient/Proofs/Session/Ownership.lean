import MqttClient.Proofs.Store.Lawful
import MqttClient.Session.Journal
import Mathlib.Tactic.Common

/-!
# Whose journal it is

No operation of a journal changes the client that it is of or the version in which it is written,
whatever the store answers.
-/

namespace MqttClient.Journal
variable {σ α β : Type}

/-- Whether a computation leaves the client and the version of a journal as they are. -/
def Stays (act : JournalM σ α) : Prop :=
  ∀ j s, (act (j, s)).2.1.start = j.start ∧ (act (j, s)).2.1.version = j.version

/-- A constant leaves the journal as it is. -/
lemma stays_pure (x : α) : Stays (pure x : JournalM σ α) :=
  fun _ _ => ⟨rfl, rfl⟩

/-- A fault leaves the journal as it is. -/
lemma stays_throw (e : StoreError) : Stays (throw e : JournalM σ α) :=
  fun _ _ => ⟨rfl, rfl⟩

/-- Telling the journal leaves it as it is. -/
lemma stays_self : Stays (self : JournalM σ Journal) :=
  fun _ _ => ⟨rfl, rfl⟩

/-- Taking a place changes the next place only. -/
lemma stays_takeSeq : Stays (takeSeq : JournalM σ UInt64) :=
  fun _ _ => ⟨rfl, rfl⟩

/-- Giving places anew changes the next place only. -/
lemma stays_resetSeq : Stays (resetSeq : JournalM σ Unit) :=
  fun _ _ => ⟨rfl, rfl⟩

/-- A call of the store leaves the journal as it is. -/
lemma stays_onStore (act : StoreM σ α) : Stays (onStore act) :=
  fun _ _ => ⟨rfl, rfl⟩

/-- Two computations, one after the other, stay with the journal if both do. -/
lemma Stays.bind {act : JournalM σ α} {next : α → JournalM σ β} (h : Stays act)
    (h' : ∀ x, Stays (next x)) : Stays (act >>= next) := by
  intro j s
  have first := h j s
  rcases answer : act (j, s) with ⟨e | x, j', s'⟩
  · rw [StoreM.bind_of_error answer]
    rwa [answer] at first
  · rw [StoreM.bind_of_ok answer]
    rw [answer] at first
    obtain ⟨start, version⟩ := h' x j' s'
    exact ⟨start.trans first.1, version.trans first.2⟩

variable [RecordStore σ]

/-- Writing stays with the client and the version. -/
lemma stays_write (p : Packet) : Stays (write p : JournalM σ Bool) := by
  unfold write
  split
  · exact stays_pure false
  · rename_i kind id _
    refine stays_self.bind fun j => (stays_onStore _).bind fun seq? => ?_
    have put {bytes : Bytes} (seq : UInt64) : Stays (σ := σ) do
        onStore (RecordStore.put (j.key kind id) (Record.encode seq bytes))
        return true :=
      (stays_onStore _).bind fun _ => stays_pure true
    cases p.encode j.version with
    | error e =>
      cases seq? with
      | some seq => exact stays_throw .writeError
      | none => exact stays_takeSeq.bind fun _ => stays_throw .writeError
    | ok bytes =>
      cases seq? with
      | some seq => exact put seq
      | none => exact stays_takeSeq.bind put

/-- Removing stays with the client and the version. -/
lemma stays_remove (p : Packet) : Stays (remove p : JournalM σ Unit) := by
  refine stays_self.bind fun j => ?_
  split
  · exact stays_onStore _
  · exact stays_pure ()

/-- Reading stays with the client and the version. -/
lemma stays_readAll : Stays (readAll : JournalM σ (List Packet)) :=
  stays_self.bind fun _ => (stays_onStore _).bind fun _ => stays_pure _

/-- Clearing stays with the client and the version. -/
lemma stays_clear : Stays (clear : JournalM σ Unit) := by
  apply Stays.bind
  · exact stays_self.bind fun _ => stays_onStore _
  · intro keys
    exact (stays_onStore _).bind fun _ => stays_resetSeq.bind fun _ => stays_onStore _

end MqttClient.Journal
