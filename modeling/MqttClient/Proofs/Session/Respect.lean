import MqttClient.Proofs.Session.Slots
import MqttClient.Proofs.Store.Orderly
import Mathlib.Tactic.Common

/-!
# What the operations of a journal respect

A computation respects a relation between states if it answers the same from related states and
leaves them related. The operations of a journal respect what the calls of its store respect, as far
as these are about keys of the client. With two runs that agree on the keys of a client, this says
what an operation depends on; with a run and its beginning, this says what it changes.
-/

namespace MqttClient
variable {σ α β : Type}

/-- Whether a computation answers the same from states that are related, and leaves them related. -/
def Respects (R : σ → σ → Prop) (act : StoreM σ α) : Prop :=
  ∀ ⦃s s' : σ⦄, R s s' → (act s).1 = (act s').1 ∧ R (act s).2 (act s').2

namespace Respects
variable {R : σ → σ → Prop} {act : StoreM σ α} {next : α → StoreM σ β}

/-- A constant respects every relation. -/
lemma pure (x : α) : Respects R (pure x : StoreM σ α) :=
  fun _ _ related => ⟨rfl, related⟩

/-- A fault respects every relation. -/
lemma throw (e : StoreError) : Respects R (throw e : StoreM σ α) :=
  fun _ _ related => ⟨rfl, related⟩

/-- From related states the answers are one, and the states behind them related. -/
lemma answers {s s' : σ} (h : Respects R act) (related : R s s') :
    ∃ result t t', act s = (result, t) ∧ act s' = (result, t') ∧ R t t' := by
  obtain ⟨same, left⟩ := h related
  exact ⟨(act s).1, (act s).2, (act s').2, rfl, Prod.ext same.symm rfl, left⟩

/-- Two computations, one after the other, respect what both of them respect. -/
lemma bind (h : Respects R act)
    (h' : ∀ {s s' t x}, R s s' → act s = (.ok x, t) → Respects R (next x)) :
    Respects R (act >>= next) := by
  intro s s' related
  obtain ⟨e | x, t, t', answer, answer', left⟩ := h.answers related
  · rw [StoreM.bind_of_error answer, StoreM.bind_of_error answer']
    exact ⟨rfl, left⟩
  · rw [StoreM.bind_of_ok answer, StoreM.bind_of_ok answer']
    exact h' related answer left

end Respects

/-- Whether the calls of a store respect a relation, as far as they are about the keys that begin
with `start`, or about those of them that are `own`. -/
structure RespectedBy [RecordStore σ] (R : σ → σ → Prop) (start : Bytes) (own : Bytes → Prop) :
    Prop where
  get {key : Bytes} : own key → Respects R (RecordStore.get key)
  put {key : Bytes} (value : Bytes) : own key → Respects R (RecordStore.put key value)
  remove {key : Bytes} : own key → Respects R (RecordStore.remove key)
  keys : Respects R (RecordStore.keys start)
  listed {s s' t : σ} {ks : List Bytes} : R s s' → RecordStore.keys start s = (.ok ks, t) →
    ∀ k ∈ ks, own k
  flush : Respects R RecordStore.flush

namespace Journal
variable [RecordStore σ] {R : σ → σ → Prop} {start : Bytes} {own : Bytes → Prop} {v : Version}

section Store
variable (calls : RespectedBy R start own)
include calls

/-- Looking up an own key respects what the calls respect. -/
lemma respects_lookup {key : Bytes} (h : own key) : Respects R (lookup (σ := σ) v key) := by
  intro s s' related
  obtain ⟨result, t, t', answer, answer', left⟩ := (calls.get h).answers related
  unfold lookup
  rw [answer, answer']
  rcases result with (_ | _ | _ | _) | value <;> exact ⟨rfl, left⟩

/-- Looking up own keys respects what the calls respect. -/
lemma respects_lookupAll {keys : List Bytes} (h : ∀ k ∈ keys, own k) :
    Respects R (lookupAll (σ := σ) v keys) := by
  induction keys with
  | nil => exact .pure []
  | cons key keys ih =>
    rw [List.forall_mem_cons] at h
    exact (respects_lookup calls h.1).bind fun _ _ => (ih h.2).bind fun _ _ => .pure _

/-- Loading all records respects what the calls respect. -/
lemma respects_load : Respects R (load (σ := σ) v start) :=
  calls.keys.bind fun related listed => respects_lookupAll calls (calls.listed related listed)

/-- Looking for a place respects what the calls respect. -/
lemma respects_seqOf? {j : Journal} (h : ∀ kind id, own (j.key kind id)) (kind : Record.Kind)
    (id : UInt16) : Respects R (seqOf? (σ := σ) j kind id) := by
  have found (kind : Record.Kind) : Respects R (seq? (σ := σ) j.version (j.key kind id)) :=
    (respects_lookup calls (h kind id)).bind fun _ _ => .pure _
  refine (found kind).bind fun {_ _ _ seq} _ _ => ?_
  cases seq with
  | some seq => exact .pure _
  | none =>
    cases kind with
    | message => exact .pure _
    | release => exact found .message

/-- Removing own keys respects what the calls respect. -/
lemma respects_removeAll {keys : List Bytes} (h : ∀ k ∈ keys, own k) :
    Respects R (RecordStore.removeAll (σ := σ) keys) := by
  induction keys with
  | nil => exact .pure ()
  | cons key keys ih =>
    rw [List.forall_mem_cons] at h
    exact (calls.remove h.1).bind fun _ _ => ih h.2

/-- Opening the journal of a client is about its own keys. -/
lemma respects_openFor {clientId : String} (own : start = startOf (Bytes.ofText clientId)) :
    Respects R (openFor (σ := σ) clientId v) := by
  subst own
  unfold openFor
  simp only
  split
  · exact .throw _
  · exact (respects_load calls).bind fun _ _ => .pure _

end Store

/-- The relation of states with the same journal, which is one of a client. -/
def Beside (R : σ → σ → Prop) (start : Bytes) (js js' : Journal × σ) : Prop :=
  js.1 = js'.1 ∧ js.1.start = start ∧ R js.2 js'.2

section
omit [RecordStore σ]

/-- The journal that is told is the same on both sides. -/
lemma respects_self : Respects (Beside R start) (self (σ := σ)) :=
  fun _ _ related => ⟨congrArg Except.ok related.1, related⟩

/-- The place that is taken is the same on both sides. -/
lemma respects_takeSeq : Respects (Beside R start) (takeSeq (σ := σ)) := by
  rintro ⟨j, s⟩ ⟨j', s'⟩ ⟨same, of, related⟩
  obtain rfl : j = j' := same
  exact ⟨rfl, rfl, of, related⟩

/-- Places are given anew on both sides. -/
lemma respects_resetSeq : Respects (Beside R start) (resetSeq (σ := σ)) := by
  rintro ⟨j, s⟩ ⟨j', s'⟩ ⟨same, of, related⟩
  obtain rfl : j = j' := same
  exact ⟨rfl, rfl, of, related⟩

/-- A call of the store respects beside the journal what it respects alone. -/
lemma respects_onStore {act : StoreM σ α} (h : Respects R act) :
    Respects (Beside R start) (onStore act) := by
  rintro ⟨j, s⟩ ⟨j', s'⟩ ⟨same, of, related⟩
  obtain rfl : j = j' := same
  obtain ⟨answer, left⟩ := h related
  exact ⟨answer, rfl, of, left⟩

/-- What is done with the journal itself is done with one of the client. -/
lemma respects_self_bind {next : Journal → JournalM σ β}
    (h : ∀ j, j.start = start → Respects (Beside R start) (next j)) :
    Respects (Beside R start) (self >>= next) := by
  refine respects_self.bind fun related answer => ?_
  cases answer
  exact h _ related.2.1

end

section Operations
variable (calls : RespectedBy R start own) (h : ∀ kind id, own (keyAt start kind id))
include calls

section
include h

/-- Writing respects what the calls respect. -/
lemma respects_write (p : Packet) : Respects (Beside R start) (write (σ := σ) p) := by
  unfold write
  split
  · exact .pure false
  · rename_i kind id _
    refine respects_self_bind fun j of => ?_
    have keys (kind : Record.Kind) (id : UInt16) : own (j.key kind id) := by
      rw [key, of]
      exact h kind id
    have put (bytes : Bytes) (seq : UInt64) : Respects (Beside R start) (σ := Journal × σ) do
        onStore (RecordStore.put (j.key kind id) (Record.encode seq bytes))
        return true :=
      (respects_onStore (calls.put _ (keys kind id))).bind fun _ _ => .pure true
    refine (respects_onStore (respects_seqOf? calls keys kind id)).bind
      fun {_ _ _ seq?} _ _ => ?_
    cases p.encode j.version with
    | error e =>
      cases seq? with
      | some seq => exact .throw .writeError
      | none => exact respects_takeSeq.bind fun _ _ => .throw .writeError
    | ok bytes =>
      cases seq? with
      | some seq => exact put bytes seq
      | none => exact respects_takeSeq.bind fun _ _ => put bytes _

/-- Removing respects what the calls respect. -/
lemma respects_remove (p : Packet) : Respects (Beside R start) (remove (σ := σ) p) := by
  refine respects_self_bind fun j of => ?_
  unfold keyOf?
  cases Record.slot? p with
  | none => exact .pure ()
  | some slot =>
    obtain ⟨kind, id⟩ := slot
    change Respects _ (onStore (RecordStore.remove (j.key kind id)))
    refine respects_onStore (calls.remove ?_)
    rw [key, of]
    exact h kind id

end

/-- Reading respects what the calls respect. -/
lemma respects_readAll : Respects (Beside R start) (readAll (σ := σ)) := by
  refine respects_self_bind fun j of => ?_
  rw [of]
  exact (respects_onStore (respects_load calls)).bind fun _ _ => .pure _

/-- Listing the keys respects what the calls respect. -/
lemma respects_keys : Respects (Beside R start) (keys (σ := σ)) := by
  refine respects_self_bind fun j of => ?_
  rw [of]
  exact respects_onStore calls.keys

/-- The keys that a journal lists are those of the client. -/
lemma own_of_keys {js js' t : Journal × σ} {ks : List Bytes} (related : Beside R start js js')
    (answer : keys js = (.ok ks, t)) : ∀ k ∈ ks, own k := by
  obtain ⟨j, s⟩ := js
  obtain ⟨-, of, related⟩ := related
  change ((RecordStore.keys j.start s).1, j, (RecordStore.keys j.start s).2) = _ at answer
  change j.start = start at of
  rw [of] at answer
  cases listed : RecordStore.keys start s with
  | mk result s'' =>
    rw [listed] at answer
    cases answer
    exact calls.listed related listed

/-- Clearing respects what the calls respect. -/
lemma respects_clear : Respects (Beside R start) (clear (σ := σ)) := by
  refine (respects_keys calls).bind fun related answer => ?_
  have own := own_of_keys calls related answer
  exact (respects_onStore (respects_removeAll calls own)).bind fun _ _ =>
    respects_resetSeq.bind fun _ _ => respects_onStore calls.flush

/-- Taking all packets respects what the calls respect. -/
lemma respects_takeAll : Respects (Beside R start) (takeAll (σ := σ)) :=
  (respects_readAll calls).bind fun _ _ => (respects_clear calls).bind fun _ _ => .pure _

/-- Counting the keys respects what the calls respect. -/
lemma respects_size : Respects (Beside R start) (size (σ := σ)) :=
  (respects_keys calls).bind fun _ _ => .pure _

/-- Asking for keys respects what the calls respect. -/
lemma respects_isEmpty : Respects (Beside R start) (isEmpty (σ := σ)) :=
  (respects_size calls).bind fun _ _ => .pure _

end Operations
end Journal
end MqttClient
