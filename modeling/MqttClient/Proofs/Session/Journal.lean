import MqttClient.Proofs.Session.Slots
import Mathlib.Tactic.Common
import Mathlib.Data.List.Nodup

/-!
# Journals over lawful stores

Over a lawful store each operation of a journal changes the slots that it is about; if a call fails
the slots stay, but for clearing, which may have emptied some of them before. What an operation does
to the values under the keys is told first, for it does so whatever stands there.
-/

namespace MqttClient
namespace Journal
variable {σ : Type}

section Store
variable [RecordStore σ] {V : StoreView σ} {start : Bytes} {v : Version} {s : σ} {recs : Slots}

/-- Under a key the record is found that is read there. -/
lemma meets_lookup (law : V.Lawful) (live : V.live s) {key : Bytes} (takes : V.takes key) :
    V.Meets (lookup v key) s
      (fun x s' => x = (V.records s key).bind (Record.decode? · v) ∧ V.records s' = V.records s)
      (V.Fails s) := by
  have h := law.get live takes
  unfold StoreView.Meets at h ⊢
  rw [lookup]
  split at h
  · rename_i x s' e
    rw [e]
    exact ⟨h.1, congrArg (Option.bind · _) h.2.1, h.2.2⟩
  · rename_i fault s' e
    rw [e]
    cases fault with
    | corrupted => exact absurd rfl h.2.undamaged
    | _ => exact h

/-- Under several keys the records are found that are read there. -/
lemma meets_lookupAll (law : V.Lawful) {keys : List Bytes} (takes : ∀ k ∈ keys, V.takes k)
    (live : V.live s) :
    V.Meets (lookupAll v keys) s
      (fun x s' => x = keys.filterMap (fun k => (V.records s k).bind (Record.decode? · v)) ∧
        V.records s' = V.records s)
      (V.Fails s) := by
  induction keys generalizing s with
  | nil => exact .pure live ⟨rfl, rfl⟩
  | cons k keys ih =>
    refine (meets_lookup law live (takes k (by simp))).bind fun x s' leads hx => ?_
    obtain ⟨rfl, same⟩ := hx
    have tail := ih (fun k' hk => takes k' (by simp [hk])) leads.live
    refine (tail.imp (fun _ _ _ h => h) fun _ _ _ h => h.of_leads leads same).bind
      fun xs s'' leads' hxs => ?_
    obtain ⟨rfl, same'⟩ := hxs
    refine .pure leads'.live ⟨?_, same'.trans same⟩
    rw [same, List.filterMap_cons]
    cases (V.records s k).bind (Record.decode? · v) <;> rfl

/-- What is under the keys of a client is loaded, as far as it is read. -/
lemma meets_load_keys (law : V.Lawful) (takes : V.takes start) (live : V.live s)
    (taken : ∀ k, start <+: k → V.records s k ≠ none → V.takes k) :
    V.Meets (load v start) s
      (fun rs s' => (∃ keys : List Bytes, keys.Nodup ∧
          (∀ k, k ∈ keys ↔ start <+: k ∧ V.records s k ≠ none) ∧
          rs = keys.filterMap fun k => (V.records s k).bind (Record.decode? · v)) ∧
        V.records s' = V.records s)
      (V.Fails s) := by
  refine (law.keys live takes).bind fun keys s' leads hkeys => ?_
  obtain ⟨nodup, mem, same⟩ := hkeys
  have taken : ∀ k ∈ keys, V.takes k := fun k hk =>
    taken k ((mem k).mp hk).1 ((mem k).mp hk).2
  refine (meets_lookupAll law taken leads.live).imp (fun rs s'' _ h => ?_)
    fun _ _ _ h => h.of_leads leads same
  obtain ⟨rfl, same'⟩ := h
  rw [same] at same' ⊢
  exact ⟨⟨keys, nodup, mem, rfl⟩, same'⟩

/-- All records are loaded, each of them once. -/
lemma meets_load (law : V.Lawful) (takes : TakesAll V start) (live : V.live s)
    (keeps : Keeps start v (V.records s) recs) :
    V.Meets (load v start) s
      (fun rs s' => recs.Lists rs ∧ V.records s' = V.records s)
      (V.Fails s) := by
  have loads := meets_load_keys (v := v) law takes.takes_start live (takes.of_only keeps.only)
  refine loads.imp (fun rs s' _ h => ?_) fun _ _ _ h => h
  obtain ⟨⟨keys, nodup, mem, rfl⟩, same⟩ := h
  -- under a key of the client stands the record of a slot
  have found : ∀ {k r}, (V.records s k).bind (Record.decode? · v) = some r → start <+: k →
      ∃ kind id, k = keyAt start kind id ∧ recs kind id = some r := by
    intro k r h front
    have ne : V.records s k ≠ none := fun none => by
      rw [none] at h
      cases h
    obtain ⟨kind, id, rfl⟩ := keeps.only front ne
    exact ⟨kind, id, rfl, (keeps.found kind id).symm.trans h⟩
  have front : ∀ k ∈ keys, start <+: k := fun k hk => ((mem k).mp hk).1
  refine ⟨⟨List.pairwise_filterMap.mpr ?_, fun r => ?_⟩, same⟩
  · refine nodup.imp_of_mem fun hk hk' ne r hr r' hr' e => ?_
    obtain ⟨kind, id, rfl, taken⟩ := found hr (front _ hk)
    obtain ⟨kind', id', rfl, taken'⟩ := found hr' (front _ hk')
    have slot := (keeps.fits taken).slot
    rw [e, (keeps.fits taken').slot] at slot
    cases slot
    exact ne rfl
  · rw [List.mem_filterMap]
    constructor
    · rintro ⟨k, hk, h⟩
      obtain ⟨kind, id, -, taken⟩ := found h (front k hk)
      exact ⟨kind, id, taken⟩
    · rintro ⟨kind, id, taken⟩
      refine ⟨keyAt start kind id, (mem _).mpr ⟨prefix_keyAt .., fun none => ?_⟩,
        (keeps.found kind id).trans taken⟩
      rw [keeps.eq_none_iff.mp none] at taken
      cases taken

/-- Opening a journal comes down to loading its records. -/
lemma meets_openFor_of_load {clientId : String} {P : List Record → σ → Prop}
    (live : V.live s) (loads : V.Meets (load v (startOf (Bytes.ofText clientId))) s P (V.Fails s)) :
    V.Meets (openFor clientId v) s
      (fun j s' => (j.start = startOf (Bytes.ofText clientId) ∧ j.version = v) ∧
        ∃ rs, P rs s' ∧ j.nextSeq = seqAfter rs)
      (fun e s' => 65536 ≤ (Bytes.ofText clientId).length ∨ V.Fails s e s') := by
  unfold openFor
  simp only
  by_cases long : 65536 ≤ (Bytes.ofText clientId).length
  · rw [if_pos long]
    exact .throw live (.inl long)
  · rw [if_neg long]
    refine (loads.imp (fun _ _ _ h => h) fun _ _ _ h => .inr h).bind fun rs s' leads h => ?_
    exact .pure leads.live ⟨⟨rfl, rfl⟩, rs, h, rfl⟩

/-- A journal is opened for its client, behind the last of its records. -/
lemma meets_openFor {clientId : String} (law : V.Lawful)
    (takes : TakesAll V (startOf (Bytes.ofText clientId))) (live : V.live s)
    (keeps : Keeps (startOf (Bytes.ofText clientId)) v (V.records s) recs) :
    V.Meets (openFor clientId v) s
      (fun j s' => (j.start = startOf (Bytes.ofText clientId) ∧ j.version = v ∧
        ∃ rs, recs.Lists rs ∧ j.nextSeq = seqAfter rs) ∧ V.records s' = V.records s)
      (fun e s' => 65536 ≤ (Bytes.ofText clientId).length ∨ V.Fails s e s') := by
  refine (meets_openFor_of_load live (meets_load law takes live keeps)).imp (fun j s' _ h => ?_)
    fun _ _ _ h => h
  obtain ⟨⟨start, version⟩, rs, ⟨listed, same⟩, next⟩ := h
  exact ⟨⟨start, version, rs, listed, next⟩, same⟩

/-- A journal is opened on a sound store, unless the identifier of the client is too long. -/
lemma exists_openFor {clientId : String} (law : V.Lawful)
    (takes : TakesAll V (startOf (Bytes.ofText clientId))) (live : V.live s) (sound : V.sound s)
    (keeps : Keeps (startOf (Bytes.ofText clientId)) v (V.records s) recs)
    (short : (Bytes.ofText clientId).length < 65536) :
    ∃ j s', openFor clientId v s = (.ok j, s') := by
  obtain ⟨j, s', opened, -⟩ := (meets_openFor law takes live keeps).answers fun e s' fails => by
    obtain long | fails := fails
    · exact absurd short (Nat.not_lt.mpr long)
    · exact fails.unsound sound
  exact ⟨j, s', opened⟩

/-- A journal is opened only if the identifier of the client is not too long. -/
lemma length_lt_of_openFor {clientId : String} {j : Journal} {s' : σ}
    (opened : openFor clientId v s = (.ok j, s')) : (Bytes.ofText clientId).length < 65536 := by
  by_contra long
  unfold openFor at opened
  simp only [Nat.not_lt.mp long, if_true] at opened
  cases opened

/-- A journal is opened for the client and the version that it is asked for. -/
lemma start_of_openFor {clientId : String} {j : Journal} {s' : σ}
    (opened : openFor clientId v s = (.ok j, s')) :
    j.start = startOf (Bytes.ofText clientId) ∧ j.version = v := by
  unfold openFor at opened
  dsimp only at opened
  split at opened
  · cases opened
  · obtain ⟨rs, s'', -, last⟩ := StoreM.bind_eq_ok_iff.mp opened
    cases last
    exact ⟨rfl, rfl⟩

/-- A record keeps the place in its slot; a release without one keeps that of its message. -/
lemma meets_seqOf? (law : V.Lawful) {j : Journal} (takes : TakesAll V j.start) (live : V.live s)
    (kind : Record.Kind) (id : UInt16) :
    V.Meets (seqOf? j kind id) s
      (fun x s' => (slotsOf j.start j.version (V.records s)).place? kind id = x ∧
        V.records s' = V.records s) (V.Fails s) := by
  let recs := slotsOf j.start j.version (V.records s)
  have found (k : Record.Kind) {s' : σ} (leads : V.Leads s s') (same : V.records s' = V.records s) :
      V.Meets (seq? j.version (j.key k id)) s'
        (fun x s'' => (recs k id).map Record.seq = x ∧ V.records s'' = V.records s)
        (V.Fails s) := by
    have looked := meets_lookup (v := j.version) law leads.live (takes.takes_key k id)
    refine (looked.imp (fun _ _ _ h => h) fun _ _ _ h => h.of_leads leads same).bind
      fun x s'' leads' h => ?_
    obtain ⟨rfl, same'⟩ := h
    rw [same]
    exact .pure leads'.live ⟨rfl, same'.trans same⟩
  refine (found kind (.refl live) rfl).bind fun x s' leads h => ?_
  obtain ⟨here, same⟩ := h
  change V.Meets _ s' (fun x s'' => recs.place? kind id = x ∧ _) _
  unfold Slots.place?
  rw [here]
  cases x with
  | some seq => exact .pure leads.live ⟨rfl, same⟩
  | none =>
    cases kind with
    | message => exact .pure leads.live ⟨rfl, same⟩
    | release => exact found .message leads same

end Store

end Journal

/-- The look at a journal together with its store. -/
def StoreView.onJournal {σ : Type} (V : StoreView σ) : StoreView (Journal × σ) where
  records js := V.records js.2
  live js := V.live js.2
  sound js := V.sound js.2
  takes := V.takes

namespace Journal
variable {σ : Type} {V : StoreView σ} {j : Journal} {s : σ}

/-- A call of the store leaves the journal as it is. -/
lemma meets_onStore {α : Type} {act : StoreM σ α} {P : α → σ → Prop} {E : StoreError → σ → Prop}
    (h : V.Meets act s P E) :
    V.onJournal.Meets (onStore act) (j, s) (fun x js => js.1 = j ∧ P x js.2)
      (fun e js => js.1 = j ∧ E e js.2) := by
  unfold StoreView.Meets at h ⊢
  rw [onStore]
  split at h
  · rename_i x s' e
    rw [e]
    exact ⟨⟨h.1.live, h.1.sound⟩, rfl, h.2⟩
  · rename_i fault s' e
    rw [e]
    exact ⟨⟨h.1.live, h.1.sound⟩, rfl, h.2⟩

/-- The journal is told and left as it is. -/
lemma meets_self {E : StoreError → Journal × σ → Prop} (live : V.live s) :
    V.onJournal.Meets self (j, s) (fun x js => j = x ∧ js = (j, s)) E :=
  ⟨⟨live, id⟩, rfl, rfl⟩

/-- The next place is taken, and the one behind it is the next. -/
lemma meets_takeSeq {E : StoreError → Journal × σ → Prop} (live : V.live s) :
    V.onJournal.Meets takeSeq (j, s)
      (fun x js => x = j.nextSeq ∧ js = ({ j with nextSeq := j.nextSeq + 1 }, s)) E :=
  ⟨⟨live, id⟩, rfl, rfl⟩

/-- Places are given from the first one on again. -/
lemma meets_resetSeq {E : StoreError → Journal × σ → Prop} (live : V.live s) :
    V.onJournal.Meets resetSeq (j, s) (fun _ js => js = ({ j with nextSeq := 0 }, s)) E :=
  ⟨⟨live, id⟩, rfl⟩

variable [RecordStore σ] {recs : Slots}

/-- A packet is put in its slot once its place is known. It fails only with the store, or if the
packet cannot be written. -/
lemma meets_putAt {start : Bytes} (law : V.Lawful) (takes : TakesAll V start) (live : V.live s)
    (v : Version) (p : Packet) (kind : Record.Kind) (id : UInt16) (seq : UInt64) (j : Journal) :
    V.onJournal.Meets
      (match p.encode v with
      | .error _ => throw .writeError
      | .ok bytes => do
        onStore (RecordStore.put (keyAt start kind id) (Record.encode seq bytes))
        return true)
      (j, s)
      (fun _ js => js.1 = j ∧ ∃ bytes, p.encode v = .ok bytes ∧ V.records js.2 =
        Function.update (V.records s) (keyAt start kind id) (some (Record.encode seq bytes)))
      (fun _ js => js.1 = j ∧ V.records js.2 = V.records s ∧
        (V.sound s → ∃ e, p.encode v = .error e)) := by
  cases written : p.encode v with
  | error e => exact .throw live ⟨rfl, rfl, fun _ => ⟨e, rfl⟩⟩
  | ok bytes =>
    have put : V.Meets (RecordStore.put (keyAt start kind id) (Record.encode seq bytes)) s _ _ :=
      law.put live (takes.takes_key kind id)
    refine ((meets_onStore put).imp (fun _ _ _ h => h) fun e js _ h => ?_).bind
      fun _ js leads h => ?_
    · exact ⟨h.1, h.2.records_eq, fun sound => absurd sound h.2.unsound⟩
    · exact .pure leads.live ⟨h.1, bytes, rfl, h.2⟩

/-- Writing a packet puts it in its slot at the place that is found there, or else at the next one,
whatever the other records are. It fails only with the store, or if the packet cannot be written. -/
lemma meets_write_any (law : V.Lawful) (takes : TakesAll V j.start) {p : Packet}
    {kind : Record.Kind} {id : UInt16} (slot : Record.slot? p = some (kind, id)) (live : V.live s) :
    let place? := (slotsOf j.start j.version (V.records s)).place? kind id
    V.onJournal.Meets (write p) (j, s)
      (fun _ js => ∃ seq bytes, p.encode j.version = .ok bytes ∧
        V.records js.2 =
          Function.update (V.records s) (keyAt j.start kind id) (some (Record.encode seq bytes)) ∧
        (place? = some seq ∧ js.1 = j ∨
          place? = none ∧ seq = j.nextSeq ∧ js.1 = { j with nextSeq := j.nextSeq + 1 }))
      (fun _ js => V.records js.2 = V.records s ∧
        (js.1 = j ∨ place? = none ∧ js.1 = { j with nextSeq := j.nextSeq + 1 }) ∧
        (V.sound s → ∃ e, p.encode j.version = .error e)) := by
  intro place?
  unfold write
  rw [slot]
  refine (meets_self live).bind fun _ js leads h => ?_
  obtain ⟨rfl, rfl⟩ := h
  have place := meets_onStore (j := j) (meets_seqOf? law takes live kind id)
  refine (place.imp (fun _ _ _ h => h) fun e js _ h => ?_).bind fun seq? js leads h => ?_
  · exact ⟨h.2.records_eq, .inl h.1, fun sound => absurd sound h.2.unsound⟩
  obtain ⟨j', s'⟩ := js
  obtain ⟨e, found, same⟩ := h
  change j' = j at e
  change V.records s' = V.records s at same
  subst e
  rw [← same]
  have live' : V.live s' := leads.live
  have put (seq : UInt64) (j : Journal) := meets_putAt law takes live' j'.version p kind id seq j
  cases seq? with
  | some seq =>
    -- the place is there, so the journal stays as it is
    refine (put seq j').imp (fun _ js _ h => ?_) fun _ js _ h => ?_
    · obtain ⟨stays, bytes, written, records⟩ := h
      exact ⟨seq, bytes, written, records, .inl ⟨found, stays⟩⟩
    · exact ⟨h.2.1, .inl h.1, fun sound => h.2.2 (leads.sound sound)⟩
  | none =>
    -- without a place the next one is taken before the packet is written
    refine (meets_takeSeq live').bind fun seq js leads' h => ?_
    obtain ⟨rfl, rfl⟩ := h
    refine (put _ _).imp (fun _ js _ h => ?_) fun _ js _ h => ?_
    · obtain ⟨next, bytes, written, records⟩ := h
      exact ⟨_, bytes, written, records, .inr ⟨found, rfl, next⟩⟩
    · exact ⟨h.2.1, .inr ⟨found, h.1⟩, fun sound => h.2.2 (leads.sound sound)⟩

/-- Writing a packet sets its slot, at the place that it keeps or the next one, to the packet as it
is read again. It fails only with the store, or if the packet cannot be written. -/
lemma meets_write_readBack (law : V.Lawful) (takes : TakesAll V j.start) (live : V.live s)
    (keeps : Keeps j.start j.version (V.records s) recs) {p : Packet} {kind : Record.Kind}
    {id : UInt16} (slot : Record.slot? p = some (kind, id)) (admitted : p.Admitted j.version) :
    V.onJournal.Meets (write p) (j, s)
      (fun _ js => ∃ seq, Keeps j.start j.version (V.records js.2)
          (recs.set kind id (some ⟨seq, p.readBack j.version⟩)) ∧
        (recs.place? kind id = some seq ∧ js.1 = j ∨
          recs.place? kind id = none ∧ seq = j.nextSeq ∧
            js.1 = { j with nextSeq := j.nextSeq + 1 }))
      (fun _ js => V.records js.2 = V.records s ∧
        (js.1 = j ∨ recs.place? kind id = none ∧ js.1 = { j with nextSeq := j.nextSeq + 1 }) ∧
        (V.sound s → ∃ e, p.encode j.version = .error e)) := by
  have put := meets_write_any law takes slot live
  rw [keeps.slotsOf_eq] at put
  refine put.imp (fun _ js _ h => ?_) fun _ _ _ h => h
  obtain ⟨seq, bytes, written, records, next⟩ := h
  refine ⟨seq, ?_, next⟩
  rw [records]
  refine keeps.put (Record.decode?_encode_readBack seq written admitted)
    ⟨?_, Packet.isStable_readBack admitted, Record.ne_zero_of_encode slot written⟩
  rw [Record.slot?_readBack, slot]

/-- A packet that reading leaves as it is is put in its slot itself. -/
lemma meets_write (law : V.Lawful) (takes : TakesAll V j.start) (live : V.live s)
    (keeps : Keeps j.start j.version (V.records s) recs) {p : Packet} {kind : Record.Kind}
    {id : UInt16} (slot : Record.slot? p = some (kind, id)) (stable : p.IsStable j.version) :
    V.onJournal.Meets (write p) (j, s)
      (fun _ js => ∃ seq, Keeps j.start j.version (V.records js.2)
          (recs.set kind id (some ⟨seq, p⟩)) ∧
        (recs.place? kind id = some seq ∧ js.1 = j ∨
          recs.place? kind id = none ∧ seq = j.nextSeq ∧
            js.1 = { j with nextSeq := j.nextSeq + 1 }))
      (fun _ js => V.records js.2 = V.records s ∧
        (js.1 = j ∨ recs.place? kind id = none ∧ js.1 = { j with nextSeq := j.nextSeq + 1 }) ∧
        (V.sound s → ∃ e, p.encode j.version = .error e)) := by
  have put := meets_write_readBack law takes live keeps slot stable.admitted
  rwa [stable.readBack_eq] at put

/-- Removing a packet empties its slot. If it fails, all slots stay. -/
lemma meets_remove (law : V.Lawful) (takes : TakesAll V j.start) (live : V.live s)
    (keeps : Keeps j.start j.version (V.records s) recs) {p : Packet} {kind : Record.Kind}
    {id : UInt16} (slot : Record.slot? p = some (kind, id)) :
    V.onJournal.Meets (remove p) (j, s)
      (fun _ js => js.1 = j ∧ Keeps j.start j.version (V.records js.2) (recs.set kind id none))
      (fun e js => js.1 = j ∧ V.Fails s e js.2) := by
  unfold remove
  refine (meets_self live).bind fun _ js leads h => ?_
  obtain ⟨rfl, rfl⟩ := h
  rw [keyOf?, slot]
  have removed := meets_onStore (j := j) (law.remove live (takes.takes_key kind id))
  refine removed.imp (fun _ js _ h => ⟨h.1, ?_⟩) fun _ _ _ h => h
  rw [h.2]
  exact keeps.remove kind id

/-- Reading a journal comes down to loading its records. -/
lemma meets_readAll_of_load (live : V.live s) {P : List Record → σ → Prop}
    (loads : V.Meets (load j.version j.start) s P (V.Fails s)) :
    V.onJournal.Meets readAll (j, s)
      (fun ps js => js.1 = j ∧ ∃ rs, P rs js.2 ∧ ps = replay rs)
      (fun e js => js.1 = j ∧ V.Fails s e js.2) := by
  unfold readAll
  refine (meets_self live).bind fun _ js leads h => ?_
  obtain ⟨rfl, rfl⟩ := h
  refine (meets_onStore loads).bind fun rs js leads h => ?_
  exact .pure leads.live ⟨h.1, rs, h.2, rfl⟩

/-- The packets are read off the records in their order, and the records stay. -/
lemma meets_readAll (law : V.Lawful) (takes : TakesAll V j.start) (live : V.live s)
    (keeps : Keeps j.start j.version (V.records s) recs) :
    V.onJournal.Meets readAll (j, s)
      (fun ps js => js.1 = j ∧ (∃ rs, recs.Lists rs ∧ ps = replay rs) ∧
        V.records js.2 = V.records s)
      (fun e js => js.1 = j ∧ V.Fails s e js.2) := by
  refine (meets_readAll_of_load live (meets_load law takes live keeps)).imp (fun ps js _ h => ?_)
    fun _ _ _ h => h
  obtain ⟨stays, rs, ⟨listed, same⟩, read⟩ := h
  exact ⟨stays, ⟨rs, listed, read⟩, same⟩

/-- Removing keys removes what stands under them and nothing else. If it fails, it may have removed
some of it. -/
lemma meets_removeAll (law : V.Lawful) {keys : List Bytes} (takes : ∀ k ∈ keys, V.takes k)
    (live : V.live s) :
    V.Meets (RecordStore.removeAll keys) s
      (fun _ s' => V.records s' = without (V.records s) keys)
      (fun _ s' => ¬ V.sound s ∧ ∀ k, V.records s' k = none ∨ V.records s' k = V.records s k) := by
  induction keys generalizing s with
  | nil => exact .pure live (without_nil _).symm
  | cons key keys ih =>
    have removed := law.remove live (takes key (List.mem_cons_self ..))
    refine (removed.imp (fun _ _ _ h => h) fun _ _ _ h => ?_).bind fun _ s' leads same => ?_
    · exact ⟨h.unsound, fun k => .inr (congrFun h.records_eq k)⟩
    · have rest := ih (fun k hk => takes k (List.mem_cons_of_mem _ hk)) leads.live
      refine rest.imp (fun _ s'' _ h => ?_) fun _ s'' _ h => ?_
      · rw [h, same, without_cons]
      · refine ⟨fun sound => h.1 (leads.sound sound), fun k => ?_⟩
        rcases h.2 k with gone | left
        · exact .inl gone
        · rw [left, same, Function.update_apply]
          split
          · exact .inl rfl
          · exact .inr rfl

/-- Clearing a journal leaves no key of the client, whatever the records are. If it fails, it may
have removed some of them. -/
lemma meets_clear_any (law : V.Lawful) (takes : V.takes j.start)
    (taken : ∀ k, j.start <+: k → V.records s k ≠ none → V.takes k) (live : V.live s) :
    V.onJournal.Meets clear (j, s)
      (fun _ js => js.1 = { j with nextSeq := 0 } ∧
        ∀ k, j.start <+: k → V.records js.2 k = none)
      (fun _ js => (js.1 = j ∨ js.1 = { j with nextSeq := 0 }) ∧ ¬ V.sound s ∧
        ∀ k, V.records js.2 k = none ∨ V.records js.2 k = V.records s k) := by
  unfold clear
  have listed : V.onJournal.Meets keys (j, s)
      (fun ks js => js.1 = j ∧ ks.Nodup ∧ (∀ k, k ∈ ks ↔ j.start <+: k ∧ V.records s k ≠ none) ∧
        V.records js.2 = V.records s)
      (fun e js => js.1 = j ∧ V.Fails s e js.2) := by
    refine (meets_self live).bind fun _ js leads h => ?_
    obtain ⟨rfl, rfl⟩ := h
    exact meets_onStore (law.keys live takes)
  refine (listed.imp (fun _ _ _ h => h) fun e js _ h => ?_).bind fun ks js leads h => ?_
  · exact ⟨.inl h.1, h.2.unsound, fun k => .inr (congrFun h.2.records_eq k)⟩
  obtain ⟨j', s'⟩ := js
  obtain ⟨e, -, mem, same⟩ := h
  obtain rfl : j' = j := e
  change V.records s' = V.records s at same
  have held : ∀ k ∈ ks, V.takes k := fun k hk => taken k ((mem k).mp hk).1 ((mem k).mp hk).2
  have removed := meets_onStore (j := j') (meets_removeAll law held leads.live)
  rw [same] at removed
  refine (removed.imp (fun _ _ _ h => h) fun e js _ h => ?_).bind fun _ js leads' h => ?_
  · exact ⟨.inl h.1, fun sound => h.2.1 (leads.sound sound), h.2.2⟩
  obtain ⟨j'', s''⟩ := js
  obtain ⟨e, left⟩ := h
  obtain rfl : j'' = j' := e
  change V.records s'' = without (V.records s) ks at left
  -- what has the start of the client was listed, or was not there
  have gone : ∀ k, j''.start <+: k → V.records s'' k = none := fun k front =>
    (congrFun left k).trans (without_eq_none mem front)
  have live'' : V.live s'' := leads'.live
  refine (meets_resetSeq live'').bind fun _ js leads'' h => ?_
  subst h
  refine (meets_onStore (law.flush live'')).imp (fun _ js _ h => ⟨h.1, ?_⟩) fun e js _ h => ?_
  · rwa [h.2]
  · refine ⟨.inr h.1, fun sound => h.2.unsound (leads'.sound (leads.sound sound)), fun k => ?_⟩
    rw [h.2.records_eq, left]
    exact without_eq_or _ _ k

/-- Clearing a journal empties all slots. If it fails, it may have emptied some of them. -/
lemma meets_clear (law : V.Lawful) (takes : TakesAll V j.start) (live : V.live s)
    (keeps : Keeps j.start j.version (V.records s) recs) :
    V.onJournal.Meets clear (j, s)
      (fun _ js => js.1 = { j with nextSeq := 0 } ∧
        Keeps j.start j.version (V.records js.2) Slots.empty)
      (fun _ js => (js.1 = j ∨ js.1 = { j with nextSeq := 0 }) ∧ ¬ V.sound s ∧
        ∃ recs', Keeps j.start j.version (V.records js.2) recs' ∧
          ∀ kind id, recs' kind id = none ∨ recs' kind id = recs kind id) := by
  have clears := meets_clear_any law takes.takes_start (takes.of_only keeps.only) live
  refine clears.imp (fun _ _ _ h => ?_) fun _ _ _ h => ?_
  · exact ⟨h.1, .of_none h.2⟩
  · exact ⟨h.1, h.2.1, keeps.thin h.2.2⟩

end Journal
end MqttClient
