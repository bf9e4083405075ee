import MqttClient.Proofs.Session.Taking

/-!
# What operations come to

Over a store that answers every call, an operation of a journal has one outcome. What it answers and
what it leaves depend on the records only, in the order of their keys where there are several.
-/

namespace MqttClient
variable {σ α β : Type}

/-- The outcome of a computation with one outcome may be changed. -/
lemma StoreM.map_of_eq {act : StoreM σ α} {s s' : σ} {result : Except StoreError α}
    (h : act s = (result, s')) (f : α → β) : (do return f (← act)) s = (result.map f, s') := by
  cases result with
  | ok x => exact bind_of_ok h
  | error e => exact bind_of_error h

namespace Journal

/-- The journal behind a packet that was written: where no place was kept the next one is taken. -/
def placed (j : Journal) : (place? : Option UInt64) → Journal
  | some _ => j
  | none => { j with nextSeq := j.nextSeq + 1 }

variable [RecordStore σ] {V : StoreView σ} {j : Journal} {s : σ} {v : Version} {start : Bytes}
  {p : Packet} {kind : Record.Kind} {id : UInt16}

/-- A packet of a slot is put under the key of the slot, once its place is known and if it can be
written. -/
lemma write_eq (slot : Record.slot? p = some (kind, id)) (j : Journal) (s : σ) :
    write p (j, s) =
      match seqOf? j kind id s with
      | (.error e, s') => (.error e, j, s')
      | (.ok place?, s') =>
        match p.encode j.version with
        | .error _ => (.error .writeError, j.placed place?, s')
        | .ok bytes =>
          match
            RecordStore.put (j.key kind id) (Record.encode (place?.getD j.nextSeq) bytes) s' with
          | (result, t) => (result.map fun _ => true, j.placed place?, t) := by
  have stored (value : Bytes) (j' : Journal) (s' : σ) : (do
      onStore (RecordStore.put (j.key kind id) value)
      return true : JournalM σ Bool) (j', s') =
        ((RecordStore.put (j.key kind id) value s').1.map fun _ => true, j',
          (RecordStore.put (j.key kind id) value s').2) :=
    StoreM.map_of_eq rfl fun _ => true
  unfold write
  simp only [slot, self_bind, onStore_bind]
  rcases seqOf? j kind id s with ⟨e | place?, s'⟩
  · rfl
  · cases encoded : p.encode j.version with
    | error e => cases place? <;> rfl
    | ok bytes =>
      cases place? with
      | some seq => exact stored _ j s'
      | none => exact stored _ _ s'

section Lawful
variable (law : V.Lawful) (serves : V.Serves s)
include law serves

/-- Under keys that are taken, the records are found that are read there. -/
lemma lookupAll_of_serves {keys : List Bytes} (takes : ∀ k ∈ keys, V.takes k) :
    ∃ t, lookupAll v keys s =
        (.ok (keys.filterMap fun k => (V.records s k).bind (Record.decode? · v)), t) ∧
      V.Serves t ∧ V.records t = V.records s := by
  obtain ⟨_, t, answer, serves', rfl, same⟩ :=
    serves.answers (meets_lookupAll law takes serves.live)
  exact ⟨t, answer, serves', same⟩

/-- Keys that are taken are all removed. -/
lemma removeAll_of_serves {keys : List Bytes} (takes : ∀ k ∈ keys, V.takes k) :
    ∃ t, RecordStore.removeAll keys s = (.ok (), t) ∧ V.Serves t ∧
      V.records t = without (V.records s) keys := by
  obtain ⟨_, t, answer, leads, gone⟩ :=
    (meets_removeAll law takes serves.live).answers fun _ _ fails => fails.1 serves.sound
  exact ⟨t, answer, serves.leads leads, gone⟩

variable (takes : TakesAll V j.start)
include takes

/-- The place that a packet keeps is the one of its slots. -/
lemma seqOf?_of_serves (kind : Record.Kind) (id : UInt16) :
    ∃ t, seqOf? j kind id s =
        (.ok ((slotsOf j.start j.version (V.records s)).place? kind id), t) ∧
      V.Serves t ∧ V.records t = V.records s := by
  obtain ⟨_, t, answer, serves', rfl, same⟩ :=
    serves.answers (meets_seqOf? law takes serves.live kind id)
  exact ⟨t, answer, serves', same⟩

variable (slot : Record.slot? p = some (kind, id))
include slot

/-- A packet that can be written is put under its key, at the place that is found there or at the
next one. -/
lemma write_of_encode {bytes : Bytes} (encoded : p.encode j.version = .ok bytes) :
    let place? := (slotsOf j.start j.version (V.records s)).place? kind id
    ∃ t, write p (j, s) = (.ok true, j.placed place?, t) ∧ V.Serves t ∧
      V.records t = Function.update (V.records s) (keyAt j.start kind id)
        (some (Record.encode (place?.getD j.nextSeq) bytes)) := by
  intro place?
  obtain ⟨s', place, serves', same⟩ := seqOf?_of_serves law serves takes kind id
  obtain ⟨t, put, serves'', changed⟩ := law.put_of_serves serves' (takes.takes_key kind id)
    (Record.encode (place?.getD j.nextSeq) bytes)
  rw [same] at changed
  have put' : RecordStore.put (j.key kind id) (Record.encode (place?.getD j.nextSeq) bytes) s' =
      (.ok (), t) := put
  refine ⟨t, ?_, serves'', changed⟩
  rw [write_eq slot, place]
  simp only [encoded]
  rw [put']
  rfl

/-- A packet that cannot be written takes a place all the same. -/
lemma write_of_encode_error {e : WireError} (encoded : p.encode j.version = .error e) :
    let place? := (slotsOf j.start j.version (V.records s)).place? kind id
    ∃ t, write p (j, s) = (.error .writeError, j.placed place?, t) ∧ V.Serves t ∧
      V.records t = V.records s := by
  intro place?
  obtain ⟨t, place, serves', same⟩ := seqOf?_of_serves law serves takes kind id
  refine ⟨t, ?_, serves', same⟩
  rw [write_eq slot, place]
  simp only [encoded]
  rfl

end Lawful

/-- Removing a packet removes what is under its key. -/
lemma remove_of_serves (law : V.Lawful) (serves : V.Serves s) (takes : TakesAll V j.start)
    (slot : Record.slot? p = some (kind, id)) :
    ∃ t, remove p (j, s) = (.ok (), j, t) ∧ V.Serves t ∧
      V.records t = Function.update (V.records s) (keyAt j.start kind id) none := by
  obtain ⟨t, removed, serves', gone⟩ := law.remove_of_serves serves (takes.takes_key kind id)
  refine ⟨t, ?_, serves', gone⟩
  unfold remove
  rw [self_bind, keyOf?, slot]
  change onStore (RecordStore.remove (keyAt j.start kind id)) (j, s) = _
  rw [onStore, removed]

section Orderly
variable (law : V.Orderly) (serves : V.Serves s)
include law serves

/-- The keys that begin with `start` are listed, and all of them are taken. -/
lemma keys_of_serves (start : Bytes) :
    ∃ ks t, RecordStore.keys start s = (.ok ks, t) ∧ V.Serves t ∧ V.records t = V.records s ∧
      V.Names start s ks ∧ ∀ k ∈ ks, V.takes k := by
  obtain ⟨ks, t, listed, serves', sorted, mem, same⟩ := law.keys start serves
  exact ⟨ks, t, listed, serves', same, ⟨sorted, mem⟩,
    fun k hk => law.takes serves.live ((mem k).mp hk).2⟩

/-- The records of a client are loaded in the order of their keys. -/
lemma load_of_serves (v : Version) (start : Bytes) :
    ∃ ks t, load v start s =
        (.ok (ks.filterMap fun k => (V.records s k).bind (Record.decode? · v)), t) ∧
      V.Serves t ∧ V.records t = V.records s ∧ V.Names start s ks := by
  obtain ⟨ks, s', listed, serves', same, names, takes⟩ := keys_of_serves law serves start
  obtain ⟨t, looked, serves'', same'⟩ := lookupAll_of_serves (v := v) law.lawful serves' takes
  rw [same] at looked same'
  refine ⟨ks, t, ?_, serves'', same', names⟩
  unfold load
  rw [StoreM.bind_of_ok listed, looked]

/-- A journal is opened behind the last of its records. -/
lemma openFor_of_serves {clientId : String} (short : (Bytes.ofText clientId).length < 65536) :
    let start := startOf (Bytes.ofText clientId)
    ∃ ks t, openFor clientId v s = (.ok ⟨start, v, seqAfter
        (ks.filterMap fun k => (V.records s k).bind (Record.decode? · v))⟩, t) ∧
      V.Serves t ∧ V.records t = V.records s ∧ V.Names start s ks := by
  intro start
  obtain ⟨ks, t, loaded, serves', same, names⟩ := load_of_serves law serves v start
  refine ⟨ks, t, ?_, serves', same, names⟩
  unfold openFor
  simp only
  rw [if_neg (Nat.not_le.mpr short)]
  exact StoreM.bind_of_ok loaded

/-- All packets are read in the order of their records. -/
lemma readAll_of_serves (j : Journal) :
    ∃ ks t, readAll (j, s) = (.ok (replay
        (ks.filterMap fun k => (V.records s k).bind (Record.decode? · j.version))), j, t) ∧
      V.Serves t ∧ V.records t = V.records s ∧ V.Names j.start s ks := by
  obtain ⟨ks, t, loaded, serves', same, names⟩ := load_of_serves law serves j.version j.start
  refine ⟨ks, t, ?_, serves', same, names⟩
  unfold readAll
  rw [self_bind, onStore_bind, loaded]
  rfl

/-- Clearing a journal removes the keys of the client and no others. -/
lemma clear_of_serves (j : Journal) :
    ∃ ks t, clear (j, s) = (.ok (), { j with nextSeq := 0 }, t) ∧ V.Serves t ∧
      V.records t = without (V.records s) ks ∧ V.Names j.start s ks := by
  obtain ⟨ks, s₁, listed, serves₁, same₁, names, takes⟩ := keys_of_serves law serves j.start
  obtain ⟨s₂, removed, serves₂, gone⟩ := removeAll_of_serves law.lawful serves₁ takes
  obtain ⟨t, flushed, serves₃, same₃⟩ := law.lawful.flush_of_serves serves₂
  refine ⟨ks, t, ?_, serves₃, ?_, names⟩
  · simp only [clear, keys, bind_assoc, self_bind, onStore_bind, resetSeq_bind, listed, removed]
    rw [onStore, flushed]
  · rw [same₃, gone, same₁]

end Orderly

end Journal
end MqttClient
