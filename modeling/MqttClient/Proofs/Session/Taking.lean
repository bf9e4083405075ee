import MqttClient.Proofs.Session.Clearing
import MqttClient.Proofs.Store.Orderly
import Mathlib.Tactic.Common

/-!
# Taking all packets

Taking all packets is reading them and removing their records one by one. The calls of the store
that this takes are known before, so it is known which of them is the first to fail. Up to the first
removal nothing is lost then. Later on the records that come first are gone, and so are their
packets, for the answer is an error.
-/

namespace MqttClient
variable {σ α β : Type}

/-- Whether a list names the keys that begin with `start`, in ascending order. -/
structure StoreView.Names (V : StoreView σ) (start : Bytes) (s : σ) (ks : List Bytes) : Prop where
  sorted : ks.Pairwise (· < ·)
  mem_iff : ∀ k, k ∈ ks ↔ start <+: k ∧ V.records s k ≠ none

namespace StoreView.Names
variable {V : StoreView σ} {start : Bytes} {s s' : σ} {ks : List Bytes}

/-- Where the keys that are named are gone, none of the client are left. -/
lemma isClear (names : V.Names start s ks) (gone : V.records s' = without (V.records s) ks) :
    V.IsClear start s' := fun k front =>
  (congrFun gone k).trans (without_eq_none names.mem_iff front)

/-- Each key that is removed is missed. -/
lemma without_take_iff (names : V.Names start s ks) (n : Nat) :
    (∀ k, start <+: k → without (V.records s) (ks.take n) k = V.records s k) ↔
      ks = [] ∨ n = 0 := by
  rw [or_comm, ← List.take_eq_nil_iff]
  constructor
  · intro same
    rw [List.eq_nil_iff_forall_not_mem]
    intro k removed
    obtain ⟨front, ne⟩ := (names.mem_iff k).mp (List.mem_of_mem_take removed)
    exact ne ((same k front).symm.trans (if_pos removed))
  · intro nothing k _
    rw [nothing, without_nil]

/-- A table has one list only that names its keys. -/
lemma eq_keysFrom {t : Table} {start : Bytes} {ks : List Bytes}
    (names : Table.view.Names start t ks) : ks = t.keysFrom start := by
  obtain ⟨_, _, ⟨⟩, -, sorted, mem, -⟩ := Table.orderly.keys start (s := t) ⟨trivial, trivial⟩
  exact names.sorted.eq_of_mem_iff sorted fun k => (names.mem_iff k).trans (mem k).symm

end StoreView.Names

namespace Unreliable

/-- Whether the plan lets a call fail for those who make it. A record that is said to be damaged is
skipped by them. -/
def stops (plan : Nat → StoreCall → Option StoreError) (n : Nat) (call : StoreCall) : Bool :=
  (plan n call).any fun e => call ≠ .get ∨ e ≠ .corrupted

/-- The index of the first call that fails for those who make it, where `n` calls came before. -/
def firstStop? (plan : Nat → StoreCall → Option StoreError) : Nat → List StoreCall → Option Nat
  | _, [] => none
  | n, call :: calls =>
    if stops plan n call then some 0 else (firstStop? plan (n + 1) calls).map (· + 1)

variable {plan : Nat → StoreCall → Option StoreError} {n : Nat}

/-- A single call stops if the plan lets it fail. -/
lemma firstStop?_singleton (call : StoreCall) :
    firstStop? plan n [call] = if stops plan n call then some 0 else none :=
  rfl

/-- The call that stops is one of the calls. -/
lemma lt_of_firstStop? {calls : List StoreCall} {i : Nat}
    (h : firstStop? plan n calls = some i) : i < calls.length := by
  induction calls generalizing n i with
  | nil => cases h
  | cons call calls ih =>
    rw [firstStop?] at h
    split at h
    · cases h
      exact Nat.zero_lt_succ _
    · obtain ⟨k, stop, rfl⟩ := Option.map_eq_some_iff.mp h
      exact Nat.succ_lt_succ (ih stop)

/-- Calls behind the one that stops make no difference. -/
lemma firstStop?_append_of_some {calls : List StoreCall} {i : Nat}
    (h : firstStop? plan n calls = some i) (more : List StoreCall) :
    firstStop? plan n (calls ++ more) = some i := by
  induction calls generalizing n i with
  | nil => cases h
  | cons call calls ih =>
    rw [List.cons_append, firstStop?]
    rw [firstStop?] at h
    split at h
    · rwa [if_pos ‹_›]
    · obtain ⟨k, stop, rfl⟩ := Option.map_eq_some_iff.mp h
      rw [if_neg ‹_›, ih stop]
      rfl

/-- Behind calls that do not stop, the first one that stops is looked for in the others. -/
lemma firstStop?_append_of_none {calls : List StoreCall} (h : firstStop? plan n calls = none)
    (more : List StoreCall) :
    firstStop? plan n (calls ++ more) =
      (firstStop? plan (n + calls.length) more).map (calls.length + ·) := by
  induction calls generalizing n with
  | nil =>
    rw [List.nil_append, List.length_nil, Nat.add_zero]
    simp only [Nat.zero_add, Option.map_id_fun', id]
  | cons call calls ih =>
    rw [List.cons_append, firstStop?]
    rw [firstStop?] at h
    split at h
    · cases h
    · rw [if_neg ‹_›, ih (Option.map_eq_none_iff.mp h), Option.map_map, List.length_cons,
        show n + 1 + calls.length = n + (calls.length + 1) from by omega]
      congr 1
      funext i
      exact show calls.length + i + 1 = calls.length + 1 + i from by omega

/-- What calls in a row do: if none of them fails for the caller, there is an answer that satisfies
`P` together with the store within, or else the index of the first one satisfies `E`. -/
def Makes (u : Unreliable σ) (calls : List StoreCall) (act : StoreM (Unreliable σ) α)
    (P : α → σ → Prop) (E : Nat → σ → Prop) : Prop :=
  match act u with
  | (.ok x, u') => firstStop? u.plan u.calls calls = none ∧ u'.plan = u.plan ∧
      u'.calls = u.calls + calls.length ∧ P x u'.store
  | (.error _, u') => ∃ i, firstStop? u.plan u.calls calls = some i ∧ E i u'.store

namespace Makes
variable {u : Unreliable σ} {calls more : List StoreCall} {act : StoreM (Unreliable σ) α}
  {next : α → StoreM (Unreliable σ) β} {P : α → σ → Prop} {Q : β → σ → Prop}
  {E E' : Nat → σ → Prop}

/-- A constant makes no calls. -/
lemma pure {x : α} (h : P x u.store) : u.Makes [] (pure x) P E :=
  ⟨rfl, rfl, rfl, h⟩

/-- Calls that go on from the answer of others are made behind them. -/
lemma bind (h : u.Makes calls act P E') (fails : ∀ i s, i < calls.length → E' i s → E i s)
    (h' : ∀ x (u' : Unreliable σ), P x u'.store →
      u'.Makes more (next x) Q fun i => E (calls.length + i)) :
    u.Makes (calls ++ more) (act >>= next) Q E := by
  unfold Makes at h ⊢
  split at h
  · rename_i x u' answer
    obtain ⟨passed, plan, made, hP⟩ := h
    have rest := h' x u' hP
    unfold Makes at rest
    rw [StoreM.bind_of_ok answer, firstStop?_append_of_none passed, ← plan, ← made]
    split at rest
    · obtain ⟨passed', plan', made', hQ⟩ := rest
      rw [passed']
      refine ⟨rfl, plan', ?_, hQ⟩
      rw [made', made, List.length_append, Nat.add_assoc]
    · obtain ⟨i, stop, hE⟩ := rest
      rw [stop]
      exact ⟨_, rfl, hE⟩
  · rename_i e u' answer
    obtain ⟨i, stop, hE⟩ := h
    rw [StoreM.bind_of_error answer]
    exact ⟨i, firstStop?_append_of_some stop more, fails i _ (lt_of_firstStop? stop) hE⟩

end Makes

/-- A call that the store within answers fails by the plan only. -/
lemma makes_attempt {u : Unreliable σ} {call : StoreCall} {act : StoreM σ α} {P : α → σ → Prop}
    (answers : ∃ x s', act u.store = (.ok x, s') ∧ P x s') (other : call ≠ .get) :
    u.Makes [call] (attempt call act) P fun _ s => s = u.store := by
  obtain ⟨x, s', answer, hP⟩ := answers
  unfold Makes
  rw [attempt, firstStop?_singleton, stops]
  cases u.plan u.calls call with
  | none =>
    rw [answer]
    exact ⟨rfl, rfl, rfl, hP⟩
  | some e => exact ⟨0, if_pos (decide_eq_true (.inl other)), rfl⟩

end Unreliable

namespace Journal

/-- What follows the telling of the journal gets the journal. -/
lemma self_bind (next : Journal → JournalM σ β) (j : Journal) (s : σ) :
    (self >>= next) (j, s) = next j (j, s) :=
  StoreM.bind_of_ok rfl

/-- What follows a call of the store gets its answer, unless it fails. -/
lemma onStore_bind (act : StoreM σ α) (next : α → JournalM σ β) (j : Journal) (s : σ) :
    (onStore act >>= next) (j, s) =
      match act s with
      | (.ok x, s') => next x (j, s')
      | (.error e, s') => (.error e, j, s') := by
  rcases answer : act s with ⟨e | x, s'⟩
  · exact StoreM.bind_of_error (by rw [onStore, answer])
  · exact StoreM.bind_of_ok (by rw [onStore, answer])

/-- What follows the resetting begins at the first place. -/
lemma resetSeq_bind (next : Unit → JournalM σ β) (j : Journal) (s : σ) :
    (resetSeq >>= next) (j, s) = next () ({ j with nextSeq := 0 }, s) :=
  StoreM.bind_of_ok rfl

variable [RecordStore σ] {V : StoreView σ} {u : Unreliable σ} {v : Version} {start : Bytes}

/-- A lookup fails by the plan only, and not where it says that the record is damaged. -/
lemma makes_lookup (law : V.Lawful) (serves : V.Serves u.store) {key : Bytes}
    (takes : V.takes key) :
    u.Makes [.get] (lookup v key)
      (fun _ s => V.Serves s ∧ V.records s = V.records u.store) fun _ s => s = u.store := by
  obtain ⟨s', answer, serves', same⟩ := law.get_of_serves serves takes
  have got : RecordStore.get key u = Unreliable.attempt .get (RecordStore.get key) u := rfl
  unfold Unreliable.Makes
  rw [lookup, got, Unreliable.attempt, Unreliable.firstStop?_singleton, Unreliable.stops]
  cases u.plan u.calls .get with
  | none =>
    rw [answer]
    exact ⟨rfl, rfl, rfl, serves', same⟩
  | some e =>
    cases e with
    | corrupted => exact ⟨rfl, rfl, rfl, serves, rfl⟩
    | _ => exact ⟨0, rfl, rfl⟩

/-- Looking up keys gets each of them and changes no record. -/
lemma makes_lookupAll (law : V.Lawful) (serves : V.Serves u.store) {keys : List Bytes}
    (takes : ∀ k ∈ keys, V.takes k) :
    u.Makes (List.replicate keys.length .get) (lookupAll v keys)
      (fun _ s => V.Serves s ∧ V.records s = V.records u.store)
      fun _ s => V.records s = V.records u.store := by
  induction keys generalizing u with
  | nil => exact .pure ⟨serves, rfl⟩
  | cons key keys ih =>
    have first := makes_lookup (v := v) law serves (takes key (by simp))
    refine first.bind (fun _ s _ h => by rw [h]) fun x u' h => ?_
    obtain ⟨serves', same⟩ := h
    have rest := ih serves' fun k hk => takes k (by simp [hk])
    rw [same] at rest
    rw [← List.append_nil (List.replicate keys.length _)]
    exact rest.bind (fun _ _ _ h => h) fun xs u'' h => .pure h

variable {ks : List Bytes}

/-- The keys are listed unless the plan lets this fail. -/
lemma makes_keys (orderly : V.Orderly) (serves : V.Serves u.store)
    (names : V.Names start u.store ks) :
    u.Makes [.keys] (RecordStore.keys start)
      (fun x s => x = ks ∧ V.Serves s ∧ V.records s = V.records u.store)
      fun _ s => s = u.store := by
  refine Unreliable.makes_attempt ?_ nofun
  obtain ⟨ks', s', answer, serves', sorted, mem, same⟩ := orderly.keys start serves
  refine ⟨ks', s', answer, ?_, serves', same⟩
  exact sorted.eq_of_mem_iff names.sorted fun k => (mem k).trans (names.mem_iff k).symm

/-- Reading all records takes a call for each of the keys, and changes none of them. -/
lemma makes_load (orderly : V.Orderly) (serves : V.Serves u.store)
    (names : V.Names start u.store ks) :
    u.Makes (.keys :: List.replicate ks.length .get) (load v start)
      (fun _ s => V.Serves s ∧ V.records s = V.records u.store)
      fun _ s => V.records s = V.records u.store := by
  refine (makes_keys orderly serves names).bind (fun _ s _ h => by rw [h]) fun x u' h => ?_
  obtain ⟨rfl, serves', same⟩ := h
  have takes : ∀ k ∈ x, V.takes k := fun k hk =>
    orderly.takes serves.live ((names.mem_iff k).mp hk).2
  have rest := makes_lookupAll (v := v) orderly.lawful serves' takes
  rwa [same] at rest

/-- The records are removed one by one up to the first call that fails. -/
lemma makes_removeAll (law : V.Lawful) (serves : V.Serves u.store)
    (takes : ∀ k ∈ ks, V.takes k) :
    u.Makes (List.replicate ks.length .remove) (RecordStore.removeAll ks)
      (fun _ s => V.Serves s ∧ V.records s = without (V.records u.store) ks)
      fun i s => V.records s = without (V.records u.store) (ks.take i) := by
  induction ks generalizing u with
  | nil => exact .pure ⟨serves, (without_nil _).symm⟩
  | cons key ks ih =>
    have first : u.Makes [.remove] (RecordStore.remove key)
        (fun _ s => V.Serves s ∧ V.records s = Function.update (V.records u.store) key none)
        fun _ s => s = u.store := by
      refine Unreliable.makes_attempt ?_ nofun
      obtain ⟨s', answer, h⟩ := law.remove_of_serves serves (takes key (by simp))
      exact ⟨(), s', answer, h⟩
    refine first.bind (fun i s lt h => ?_) fun _ u' h => ?_
    · rw [h, Nat.lt_one_iff.mp lt, List.take_zero, without_nil]
    · obtain ⟨serves', gone⟩ := h
      have rest := ih serves' fun k hk => takes k (by simp [hk])
      rw [gone] at rest
      simpa only [without_cons, List.length_singleton, Nat.add_comm 1, List.take_succ_cons]
        using rest

/-- The calls of the store that taking all packets makes, where the client has `n` keys. -/
def takeAllCalls (n : Nat) : List StoreCall :=
  (.keys :: List.replicate n .get) ++ (.keys :: (List.replicate n .remove ++ [.flush]))

/-- What taking all packets does to the store. -/
def sweep (v : Version) (start : Bytes) : StoreM σ (List Packet) := do
  let records ← load v start
  let keys ← RecordStore.keys start
  RecordStore.removeAll keys
  RecordStore.flush
  return replay records

/-- What taking all packets does to the store is told by `sweep`. -/
lemma sweep_eq (j : Journal) (s : σ) :
    sweep j.version j.start s = ((takeAll (j, s)).1, (takeAll (j, s)).2.2) := by
  simp only [takeAll, readAll, clear, keys, bind_assoc, pure_bind, self_bind, onStore_bind,
    resetSeq_bind]
  unfold sweep
  rcases loaded : load j.version j.start s with ⟨e | rs, s₁⟩
  · exact StoreM.bind_of_error loaded
  rcases listed : RecordStore.keys j.start s₁ with ⟨e | ks, s₂⟩
  · rw [StoreM.bind_of_ok loaded, StoreM.bind_of_error listed]
    simp only [listed]
  rcases removed : RecordStore.removeAll ks s₂ with ⟨e | _, s₃⟩
  · rw [StoreM.bind_of_ok loaded, StoreM.bind_of_ok listed, StoreM.bind_of_error removed]
    simp only [listed, removed]
  rw [StoreM.bind_of_ok loaded, StoreM.bind_of_ok listed, StoreM.bind_of_ok removed]
  simp only [listed, removed]
  rcases flushed : RecordStore.flush s₃ with ⟨e | _, s₄⟩
  · exact StoreM.bind_of_error flushed
  · exact StoreM.bind_of_ok flushed

/-- Before the first removal nothing changes, and the flush comes behind the last one. -/
lemma makes_sweep (orderly : V.Orderly) (serves : V.Serves u.store)
    (names : V.Names start u.store ks) :
    u.Makes (takeAllCalls ks.length) (sweep v start)
      (fun _ s => V.records s = without (V.records u.store) ks)
      fun i s => V.records s = without (V.records u.store) (ks.take (i - (ks.length + 2))) := by
  -- the calls up to the second listing leave the records as they are
  have unchanged {i : Nat} {s : σ} (le : i ≤ ks.length + 2)
      (same : V.records s = V.records u.store) :
      V.records s = without (V.records u.store) (ks.take (i - (ks.length + 2))) := by
    rw [Nat.sub_eq_zero_of_le le, List.take_zero, without_nil, same]
  have takes : ∀ k ∈ ks, V.takes k := fun k hk =>
    orderly.takes serves.live ((names.mem_iff k).mp hk).2
  have width : (StoreCall.keys :: List.replicate ks.length StoreCall.get).length =
      ks.length + 1 := by
    rw [List.length_cons, List.length_replicate]
  refine (makes_load orderly serves names).bind (fun i s lt h => unchanged (by omega) h)
    fun rs u₁ h => ?_
  obtain ⟨serves₁, same₁⟩ := h
  have names₁ : V.Names start u₁.store ks := ⟨names.sorted, by rw [same₁]; exact names.mem_iff⟩
  rw [width]
  refine (makes_keys orderly serves₁ names₁).bind (fun i s lt h => ?_) fun x u₂ h => ?_
  · rw [List.length_singleton] at lt
    exact unchanged (by omega) (by rw [h, same₁])
  obtain ⟨rfl, serves₂, same₂⟩ := h
  -- from here on the index counts removals behind the calls that read
  rw [← same₁, ← same₂]
  refine (makes_removeAll orderly.lawful serves₂ takes).bind (fun i s lt h => ?_) fun _ u₃ h => ?_
  · rw [h, List.length_singleton, show x.length + 1 + (1 + i) - (x.length + 2) = i from by omega]
  obtain ⟨serves₃, gone⟩ := h
  have flush : u₃.Makes [.flush] RecordStore.flush (fun _ s => V.records s = V.records u₃.store)
      fun _ s => s = u₃.store := by
    refine Unreliable.makes_attempt ?_ nofun
    obtain ⟨s', answer, -, same⟩ := orderly.lawful.flush_of_serves serves₃
    exact ⟨(), s', answer, same⟩
  rw [← List.append_nil [StoreCall.flush]]
  refine flush.bind (fun i s lt h => ?_) fun _ u₄ h => .pure (h.trans gone)
  rw [List.length_singleton] at lt
  rw [h, gone, List.length_singleton, List.length_replicate, List.take_of_length_le (by omega)]

/-- What taking all packets does is told by the first call of the store that fails. Without one the
packets are those that reading answers, and no record is left. With one the records that were
removed before it are gone, although the answer is an error: the records are kept exactly if it is
not behind the first removal. -/
theorem takeAll_keeps_iff (orderly : V.Orderly) {j : Journal} (serves : V.Serves u.store) :
    ∃ ks, V.Names j.start u.store ks ∧
      (∀ ps j' u', takeAll (j, u) = (.ok ps, j', u') →
        Unreliable.firstStop? u.plan u.calls (takeAllCalls ks.length) = none ∧
          (readAll (j, u)).1 = .ok ps ∧ V.IsClear j.start u'.store) ∧
      ∀ e j' u', takeAll (j, u) = (.error e, j', u') →
        ∃ i, Unreliable.firstStop? u.plan u.calls (takeAllCalls ks.length) = some i ∧
          V.records u'.store = without (V.records u.store) (ks.take (i - (ks.length + 2))) ∧
          ((∀ k, j.start <+: k → V.records u'.store k = V.records u.store k) ↔
            ks = [] ∨ i ≤ ks.length + 2) := by
  obtain ⟨ks, s', -, -, sorted, mem, -⟩ := orderly.keys j.start serves
  have names : V.Names j.start u.store ks := ⟨sorted, mem⟩
  have made := makes_sweep (v := j.version) orderly serves names
  unfold Unreliable.Makes at made
  rw [sweep_eq] at made
  refine ⟨ks, names, fun ps j' u' taken => ?_, fun e j' u' failed => ?_⟩
  · rw [taken] at made
    obtain ⟨passed, -, -, gone⟩ := made
    obtain ⟨read, js, found, rest⟩ := StoreM.bind_eq_ok_iff.mp taken
    obtain ⟨_, js', -, last⟩ := StoreM.bind_eq_ok_iff.mp rest
    cases last
    exact ⟨passed, by rw [found], names.isClear gone⟩
  · rw [failed] at made
    obtain ⟨i, stop, left⟩ := made
    refine ⟨i, stop, left, ?_⟩
    rw [left, names.without_take_iff, Nat.sub_eq_zero_iff_le]

/-- A store whose first removal fails keeps both of its records. -/
theorem takeAll_keeps_of_first_removal :
    let t := (Table.empty.insert [0, 1, 97, 0, 1, 0x50] []).insert [0, 1, 97, 0, 2, 0x52] [7]
    let u : Unreliable Table := ⟨t, fun n _ => if n = 4 then some .unavailable else none, 0⟩
    let taken := takeAll (⟨[0, 1, 97], .v311, 0⟩, u)
    taken.1 = .error .unavailable ∧
      ∀ k, [0, 1, 97] <+: k → Table.view.records taken.2.2.store k = Table.view.records t k := by
  intro t u taken
  have failed : taken.1 = .error .unavailable := by decide +kernel
  refine ⟨failed, ?_⟩
  obtain ⟨ks, names, -, fails⟩ := takeAll_keeps_iff (u := u) (j := ⟨[0, 1, 97], .v311, 0⟩)
    Table.orderly ⟨trivial, trivial⟩
  obtain ⟨i, stop, -, kept⟩ := fails _ _ _ (Prod.ext failed rfl)
  refine kept.mpr (.inr ?_)
  have two : ks = [[0, 1, 97, 0, 1, 0x50], [0, 1, 97, 0, 2, 0x52]] :=
    names.eq_keysFrom.trans (by decide +kernel)
  rw [two] at stop ⊢
  have fourth : Unreliable.firstStop? u.plan u.calls (takeAllCalls 2) = some 4 := by decide
  cases fourth.symm.trans stop
  decide

/-- Where the flush fails, the answer is an error and the message is gone. -/
theorem not_takeAll_keeps :
    let m : Packet := .publish { qos := .atLeastOnce, topic := "a", packetId := 1, payload := [1] }
    let written := write m (⟨[0, 1, 97], .v311, 0⟩, Unreliable.sound Table.empty)
    let u := written.2.2.failing [.flush] .unavailable
    let taken := takeAll (written.2.1, u)
    openFor "a" .v311 Table.empty = (.ok ⟨[0, 1, 97], .v311, 0⟩, Table.empty) ∧
      written.1 = .ok true ∧ (readAll (written.2.1, u)).1 = .ok [m] ∧
      taken.1 = .error .unavailable ∧ (readAll taken.2).1 = .ok [] ∧
      ¬ ∀ k, [0, 1, 97] <+: k →
        Table.view.records taken.2.2.store k = Table.view.records u.store k := by
  intro m written u taken
  refine ⟨rfl, by decide +kernel, by decide +kernel, by decide +kernel, by decide +kernel,
    fun same => ?_⟩
  have key := same [0, 1, 97, 0, 1, 0x50] ⟨[0, 1, 0x50], rfl⟩
  have gone : Table.view.records taken.2.2.store [0, 1, 97, 0, 1, 0x50] = none := by decide +kernel
  have held : Table.view.records u.store [0, 1, 97, 0, 1, 0x50] ≠ none := by decide +kernel
  exact held (key.symm.trans gone)

end Journal
end MqttClient
