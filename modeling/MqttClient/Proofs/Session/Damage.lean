import MqttClient.Proofs.Session.Effect
import MqttClient.Proofs.Session.Isolation
import MqttClient.Proofs.Session.Ownership

/-!
# Damaged records

A value that is not read as a record is as good as none. A store with such values under keys of a
client, and the store without them, give the same answers to all that the client does, but where its
keys are counted. The values stay until they are written over, removed or cleared, and make no other
difference meanwhile.
-/

namespace MqttClient
variable {σ : Type}

/-- Whether a store holds what another one does and, under keys without a value there, some values
more. -/
structure StoreView.Exceeds (V : StoreView σ) (extra : Bytes → Option Bytes) (s s' : σ) : Prop where
  serves : V.Serves s
  serves' : V.Serves s'
  more : ∀ k, extra k ≠ none → V.records s k = extra k ∧ V.records s' k = none
  same : ∀ k, extra k = none → V.records s k = V.records s' k

/-- What is left of extra values without those under some keys. -/
def lifted (extra : Bytes → Option Bytes) (gone : Bytes → Bool) : Bytes → Option Bytes :=
  fun k => if gone k then none else extra k

/-- Extra values are all left where no keys are gone. -/
lemma lifted_of_false {extra : Bytes → Option Bytes} {gone : Bytes → Bool}
    (none : ∀ k, gone k = false) : lifted extra gone = extra := by
  funext k
  rw [lifted, none k]
  rfl

/-- Extra values are left from two changes if neither took their keys. -/
lemma lifted_lifted (extra : Bytes → Option Bytes) (gone gone' : Bytes → Bool) :
    lifted (lifted extra gone) gone' = lifted extra fun k => gone k || gone' k := by
  funext k
  simp only [lifted, Bool.or_eq_true]
  by_cases first : gone k = true
  · rw [if_pos first, ite_self, if_pos (.inl first)]
  · simp only [first, false_or, if_false, Bool.false_eq_true]

namespace StoreView.Exceeds
variable {V : StoreView σ} {extra : Bytes → Option Bytes} {gone : Bytes → Bool} {s s' t t' : σ}

/-- Stores with the same records as before are as far apart as before. -/
lemma congr (h : V.Exceeds extra s s') (serves : V.Serves t) (serves' : V.Serves t')
    (same : V.records t = V.records s) (same' : V.records t' = V.records s') :
    V.Exceeds extra t t' := by
  refine ⟨serves, serves', ?_, ?_⟩
  · rw [same, same']
    exact h.more
  · rw [same, same']
    exact h.same

/-- Where a change makes two stores the same there is nothing more in one of them, and elsewhere
there is what there was. -/
lemma lift (h : V.Exceeds extra s s') (serves : V.Serves t) (serves' : V.Serves t')
    (settled : ∀ k, gone k = true → V.records t k = V.records t' k)
    (kept : ∀ k, gone k = false →
      V.records t k = V.records s k ∧ V.records t' k = V.records s' k) :
    V.Exceeds (lifted extra gone) t t' := by
  refine ⟨serves, serves', fun k ne => ?_, fun k none => ?_⟩
  · unfold lifted at ne ⊢
    cases there : gone k with
    | true =>
      rw [there] at ne
      exact absurd rfl ne
    | false =>
      rw [there] at ne
      rw [(kept k there).1, (kept k there).2]
      exact h.more k ne
  · cases there : gone k with
    | true => exact settled k there
    | false =>
      rw [lifted, there] at none
      rw [(kept k there).1, (kept k there).2]
      exact h.same k none

/-- A change of both stores under a key. -/
lemma update (h : V.Exceeds extra s s') (serves : V.Serves t) (serves' : V.Serves t') {key : Bytes}
    {value : Option Bytes} (changed : V.records t = Function.update (V.records s) key value)
    (changed' : V.records t' = Function.update (V.records s') key value) :
    V.Exceeds (lifted extra (· = key)) t t' := by
  refine h.lift serves serves' (fun k there => ?_) fun k other => ?_
  · rw [changed, changed', of_decide_eq_true there, Function.update_self, Function.update_self]
  · have ne : k ≠ key := of_decide_eq_false other
    rw [changed, changed', Function.update_of_ne ne, Function.update_of_ne ne]
    exact ⟨rfl, rfl⟩

/-- Both stores lose all keys that begin with `start`. -/
lemma clear (h : V.Exceeds extra s s') (serves : V.Serves t) (serves' : V.Serves t')
    {start : Bytes} {ks ks' : List Bytes} (names : V.Names start s ks)
    (names' : V.Names start s' ks') (gone : V.records t = without (V.records s) ks)
    (gone' : V.records t' = without (V.records s') ks') :
    V.Exceeds (lifted extra start.isPrefixOf) t t' := by
  have beyond {k : Bytes} (other : start.isPrefixOf k = false) : ¬ start <+: k := by
    rw [← List.isPrefixOf_iff_prefix, other]
    exact Bool.false_ne_true
  refine h.lift serves serves' (fun k there => ?_) fun k other => ?_
  · rw [List.isPrefixOf_iff_prefix] at there
    rw [gone, gone', without_eq_none names.mem_iff there, without_eq_none names'.mem_iff there]
  · rw [gone, gone']
    exact ⟨if_neg fun mem => beyond other ((names.mem_iff k).mp mem).1,
      if_neg fun mem => beyond other ((names'.mem_iff k).mp mem).1⟩

end StoreView.Exceeds

namespace Journal

/-- Whether none of the values under keys that begin with `start` is read as a record. -/
def Unreadable (start : Bytes) (v : Version) (values : Bytes → Option Bytes) : Prop :=
  ∀ k value, values k = some value → start <+: k → Record.decode? value v = none

/-- Whether an operation tells how many keys there are. -/
def Operation.counts : Operation → Bool
  | .size | .isEmpty => true
  | .write _ | .remove _ | .readAll | .takeAll | .clear | .synchronize => false

/-- Whether an operation of a journal writes over the value under a key, or removes it. -/
def Operation.settles (op : Operation) (j : Journal) (key : Bytes) : Bool :=
  match op with
  | .write p => j.keyOf? p = some key && (p.encode j.version).isOk
  | .remove p => j.keyOf? p = some key
  | .takeAll | .clear => j.start.isPrefixOf key
  | .readAll | .size | .isEmpty | .synchronize => false

variable {V : StoreView σ} {extra : Bytes → Option Bytes} {s s' : σ} {start : Bytes} {v : Version}
  {j : Journal}

/-- What is left of values that are not read is not read. -/
lemma Unreadable.lifted (h : Unreadable start v extra) (gone : Bytes → Bool) :
    Unreadable start v (lifted extra gone) := by
  intro k value left front
  unfold MqttClient.lifted at left
  split at left
  · cases left
  · exact h k value left front

namespace Unreadable
variable (h : Unreadable start v extra) (apart : V.Exceeds extra s s')
include h apart

/-- What is read under a key is the same in both stores. -/
lemma read_eq {k : Bytes} (front : start <+: k) :
    (V.records s k).bind (Record.decode? · v) = (V.records s' k).bind (Record.decode? · v) := by
  cases damaged : extra k with
  | none => rw [apart.same k damaged]
  | some value =>
    obtain ⟨there, absent⟩ := apart.more k (by rw [damaged]; exact Option.some_ne_none _)
    rw [there, absent, damaged, Option.bind_some, h k value damaged front, Option.bind_none]

/-- The same records are in the slots of both stores. -/
lemma slotsOf_eq : slotsOf start v (V.records s) = slotsOf start v (V.records s') := by
  funext kind id
  exact h.read_eq apart (prefix_keyAt ..)

/-- The same records are read under the keys of both stores. The keys that one of them has more are
skipped. -/
lemma filterMap_eq {ks ks' : List Bytes} (names : V.Names start s ks)
    (names' : V.Names start s' ks') :
    (ks.filterMap fun k => (V.records s k).bind (Record.decode? · v)) =
      ks'.filterMap fun k => (V.records s' k).bind (Record.decode? · v) := by
  have fewer : ks' = ks.filter fun k => (V.records s' k).isSome := by
    refine names'.sorted.eq_of_mem_iff (names.sorted.filter _) fun k => ?_
    rw [names'.mem_iff, List.mem_filter, names.mem_iff, Option.isSome_iff_ne_none, and_assoc,
      and_congr_right_iff]
    refine fun front => ⟨fun held => ⟨fun none => held ?_, held⟩, fun held => held.2⟩
    cases damaged : extra k with
    | none => rw [← apart.same k damaged, none]
    | some value => exact (apart.more k (by rw [damaged]; exact Option.some_ne_none _)).2
  rw [fewer, List.filterMap_filter]
  refine List.filterMap_congr fun k mem => ?_
  rw [h.read_eq apart ((names.mem_iff k).mp mem).1]
  cases V.records s' k <;> rfl

end Unreadable

/-- Whether a computation has one outcome over both of two stores, and leaves the extra values of
one of them but for those under keys that are `gone`. -/
def Skips (V : StoreView σ) (extra : Bytes → Option Bytes) (gone : Bytes → Bool)
    (act : JournalM σ α) (j : Journal) (s s' : σ) : Prop :=
  ∃ result j' t t', act (j, s) = (result, j', t) ∧ act (j, s') = (result, j', t') ∧
    V.Exceeds (lifted extra gone) t t'

/-- The outcome of a computation that skips extra values may be changed. -/
lemma Skips.map {gone : Bytes → Bool} {act : JournalM σ α} (h : Skips V extra gone act j s s')
    (f : α → β) : Skips V extra gone (do return f (← act)) j s s' := by
  obtain ⟨result, j', t, t', answer, answer', apart⟩ := h
  exact ⟨result.map f, j', t, t', StoreM.map_of_eq answer f, StoreM.map_of_eq answer' f, apart⟩

/-- A computation that skips extra values tells the same over both stores. -/
lemma Skips.eq {gone : Bytes → Bool} {act : JournalM σ α} (h : Skips V extra gone act j s s') :
    (act (j, s)).1 = (act (j, s')).1 ∧ (act (j, s)).2.1 = (act (j, s')).2.1 ∧
      V.Exceeds (lifted extra gone) (act (j, s)).2.2 (act (j, s')).2.2 := by
  obtain ⟨result, j', t, t', answer, answer', apart⟩ := h
  rw [answer, answer']
  exact ⟨rfl, rfl, apart⟩

/-- The key of a packet is the one of its slot. -/
lemma keyOf?_eq_some_iff {p : Packet} {kind : Record.Kind} {id : UInt16} {k : Bytes}
    (slot : Record.slot? p = some (kind, id)) :
    j.keyOf? p = some k ↔ k = keyAt j.start kind id := by
  rw [keyOf?, slot, Option.map_some, Option.some_inj]
  exact eq_comm

variable [RecordStore σ]

/-- No operation changes the client or the version of a journal. -/
lemma stays_perform (op : Operation) : Stays (perform op : JournalM σ Reply) := by
  cases op with
  | write p => exact (stays_write p).bind fun _ => stays_pure _
  | remove p => exact (stays_remove p).bind fun _ => stays_pure _
  | readAll => exact stays_readAll.bind fun _ => stays_pure _
  | takeAll =>
    refine Stays.bind ?_ fun _ => stays_pure _
    exact stays_readAll.bind fun _ => stays_clear.bind fun _ => stays_pure _
  | clear => exact stays_clear.bind fun _ => stays_pure _
  | size =>
    refine Stays.bind ?_ fun _ => stays_pure _
    refine Stays.bind ?_ fun _ => stays_pure _
    exact stays_self.bind fun _ => stays_onStore _
  | isEmpty =>
    refine Stays.bind ?_ fun _ => stays_pure _
    refine Stays.bind ?_ fun _ => stays_pure _
    refine Stays.bind ?_ fun _ => stays_pure _
    exact stays_self.bind fun _ => stays_onStore _
  | synchronize => exact (stays_onStore _).bind fun _ => stays_pure _

section Operations
variable (law : V.Orderly) (h : Unreadable j.start j.version extra)
  (apart : V.Exceeds extra s s')
include law h apart

/-- A packet gets the place of the record that it replaces. What is not read gives it none. -/
lemma skips_write (takes : TakesAll V j.start) (p : Packet) :
    Skips V extra ((Operation.write p).settles j) (write p) j s s' := by
  cases slot : Record.slot? p with
  | none =>
    have kept (s : σ) : write p (j, s) = (.ok false, j, s) := by
      unfold write
      rw [slot]
      rfl
    refine ⟨_, _, s, s', kept s, kept s', ?_⟩
    rwa [lifted_of_false fun k => by rw [Operation.settles, keyOf?, slot]; rfl]
  | some place =>
    obtain ⟨kind, id⟩ := place
    -- a value that is not read gives no place, so the record gets the same one in both stores
    have places := h.slotsOf_eq apart
    cases encoded : p.encode j.version with
    | error e =>
      obtain ⟨t, written, serves, same⟩ :=
        write_of_encode_error law.lawful apart.serves takes slot encoded
      obtain ⟨t', written', serves', same'⟩ :=
        write_of_encode_error law.lawful apart.serves' takes slot encoded
      rw [← places] at written'
      refine ⟨_, _, t, t', written, written', ?_⟩
      rw [lifted_of_false fun k => by rw [Operation.settles, encoded]; exact Bool.and_false _]
      exact apart.congr serves serves' same same'
    | ok bytes =>
      obtain ⟨t, written, serves, changed⟩ :=
        write_of_encode law.lawful apart.serves takes slot encoded
      obtain ⟨t', written', serves', changed'⟩ :=
        write_of_encode law.lawful apart.serves' takes slot encoded
      rw [← places] at written' changed'
      have settles : (Operation.write p).settles j = (decide <| · = keyAt j.start kind id) := by
        funext k
        rw [Operation.settles, encoded, decide_eq_decide.mpr (keyOf?_eq_some_iff slot)]
        exact Bool.and_true _
      rw [settles]
      exact ⟨_, _, t, t', written, written', apart.update serves serves' changed changed'⟩

omit h in
/-- Removing a packet skips the extra values, but for one under its key. -/
lemma skips_remove (takes : TakesAll V j.start) (p : Packet) :
    Skips V extra ((Operation.remove p).settles j) (remove p) j s s' := by
  cases slot : Record.slot? p with
  | none =>
    have kept (s : σ) : remove p (j, s) = (.ok (), j, s) := by
      unfold remove
      rw [self_bind, keyOf?, slot]
      rfl
    refine ⟨_, _, s, s', kept s, kept s', ?_⟩
    rwa [lifted_of_false fun k => by rw [Operation.settles, keyOf?, slot]; rfl]
  | some place =>
    obtain ⟨kind, id⟩ := place
    obtain ⟨t, removed, serves, gone⟩ := remove_of_serves law.lawful apart.serves takes slot
    obtain ⟨t', removed', serves', gone'⟩ := remove_of_serves law.lawful apart.serves' takes slot
    have settles : (Operation.remove p).settles j = (decide <| · = keyAt j.start kind id) := by
      funext k
      rw [Operation.settles, decide_eq_decide.mpr (keyOf?_eq_some_iff slot)]
    rw [settles]
    exact ⟨_, _, t, t', removed, removed', apart.update serves serves' gone gone'⟩

/-- The same packets are read over both stores. -/
lemma readAll_eq : ∃ ps t t', readAll (j, s) = (.ok ps, j, t) ∧
    readAll (j, s') = (.ok ps, j, t') ∧ V.Exceeds extra t t' := by
  obtain ⟨ks, t, read, serves, same, names⟩ := readAll_of_serves law apart.serves j
  obtain ⟨ks', t', read', serves', same', names'⟩ := readAll_of_serves law apart.serves' j
  rw [← h.filterMap_eq apart names names'] at read'
  exact ⟨_, t, t', read, read', apart.congr serves serves' same same'⟩

omit h in
/-- Clearing skips the extra values, and leaves none under keys of the client. -/
lemma skips_clear : Skips V extra j.start.isPrefixOf clear j s s' := by
  obtain ⟨ks, t, cleared, serves, gone, names⟩ := clear_of_serves law apart.serves j
  obtain ⟨ks', t', cleared', serves', gone', names'⟩ := clear_of_serves law apart.serves' j
  exact ⟨_, _, t, t', cleared, cleared', apart.clear serves serves' names names' gone gone'⟩

/-- Taking all packets skips the extra values, and leaves none under keys of the client. -/
lemma skips_takeAll : Skips V extra j.start.isPrefixOf takeAll j s s' := by
  obtain ⟨ps, t, t', read, read', apart'⟩ := readAll_eq law h apart
  obtain ⟨result, j', u, u', cleared, cleared', apart''⟩ :=
    (skips_clear (j := j) law apart').map fun _ => ps
  refine ⟨result, j', u, u', ?_, ?_, apart''⟩
  · exact (StoreM.bind_of_ok read).trans cleared
  · exact (StoreM.bind_of_ok read').trans cleared'

omit h in
/-- The number of keys is not the same in both stores, but nothing else is told from it. -/
lemma size_leaves : ∃ n n' t t', size (j, s) = (.ok n, j, t) ∧ size (j, s') = (.ok n', j, t') ∧
    V.Exceeds extra t t' := by
  obtain ⟨ks, t, listed, serves, same, -⟩ := keys_of_serves law apart.serves j.start
  obtain ⟨ks', t', listed', serves', same', -⟩ := keys_of_serves law apart.serves' j.start
  have counted {s t : σ} {ks : List Bytes} (listed : RecordStore.keys j.start s = (.ok ks, t)) :
      size (j, s) = (.ok ks.length, j, t) := by
    have named : keys (j, s) = (.ok ks, j, t) := by
      rw [keys, self_bind, onStore, listed]
    exact StoreM.map_of_eq named List.length
  exact ⟨_, _, t, t', counted listed, counted listed', apart.congr serves serves' same same'⟩

/-- Every operation that does not count keys skips the extra values. -/
lemma skips_perform (takes : TakesAll V j.start) {op : Operation} (told : op.counts = false) :
    Skips V extra (op.settles j) (perform op) j s s' := by
  cases op with
  | write p => exact (skips_write law h apart takes p).map Reply.said
  | remove p => exact (skips_remove law apart takes p).map fun _ => Reply.done
  | readAll =>
    obtain ⟨ps, t, t', read, read', left⟩ := readAll_eq law h apart
    exact ⟨_, _, t, t', StoreM.map_of_eq read Reply.packets, StoreM.map_of_eq read' Reply.packets,
      left⟩
  | takeAll => exact (skips_takeAll law h apart).map Reply.packets
  | clear => exact (skips_clear law apart).map fun _ => Reply.done
  | size => cases told
  | isEmpty => cases told
  | synchronize =>
    obtain ⟨t, flushed, serves, same⟩ := law.lawful.flush_of_serves apart.serves
    obtain ⟨t', flushed', serves', same'⟩ := law.lawful.flush_of_serves apart.serves'
    have flush {s t : σ} (flushed : RecordStore.flush s = (.ok (), t)) :
        synchronize (j, s) = (.ok (), j, t) := by
      rw [synchronize, onStore, flushed]
    exact ⟨_, _, t, t', StoreM.map_of_eq (flush flushed) fun _ => Reply.done,
      StoreM.map_of_eq (flush flushed') fun _ => Reply.done,
      apart.congr serves serves' same same'⟩

omit h in
/-- A journal is opened alike over both stores. -/
lemma openFor_eq {clientId : String} (short : (Bytes.ofText clientId).length < 65536)
    (h : Unreadable (startOf (Bytes.ofText clientId)) v extra) :
    ∃ j t t', openFor clientId v s = (.ok j, t) ∧ openFor clientId v s' = (.ok j, t') ∧
      j.start = startOf (Bytes.ofText clientId) ∧ j.version = v ∧ V.Exceeds extra t t' := by
  obtain ⟨ks, t, opened, serves, same, names⟩ := openFor_of_serves (v := v) law apart.serves short
  obtain ⟨ks', t', opened', serves', same', names'⟩ :=
    openFor_of_serves (v := v) law apart.serves' short
  rw [← h.filterMap_eq apart names names'] at opened'
  exact ⟨_, t, t', opened, opened', rfl, rfl, apart.congr serves serves' same same'⟩

/-- An operation tells two stores apart by the number of keys at most, and leads to one journal. -/
lemma perform_eq (takes : TakesAll V j.start) (op : Operation) :
    (op.counts = false → (perform op (j, s)).1 = (perform op (j, s')).1) ∧
      (perform op (j, s)).2.1 = (perform op (j, s')).2.1 ∧
      V.Exceeds (lifted extra (op.settles j)) (perform op (j, s)).2.2 (perform op (j, s')).2.2 := by
  cases counts : op.counts with
  | false => exact (skips_perform law h apart takes counts).eq.imp_left fun same _ => same
  | true =>
    obtain ⟨n, n', t, t', counted, counted', left⟩ := size_leaves (j := j) law apart
    cases op with
    | size =>
      rw [perform, StoreM.map_of_eq counted, StoreM.map_of_eq counted']
      exact ⟨nofun, rfl, left⟩
    | isEmpty =>
      have told {s t : σ} {n : Nat} (counted : size (j, s) = (.ok n, j, t)) :
          perform .isEmpty (j, s) = (.ok (.said (n = 0)), j, t) :=
        StoreM.map_of_eq (StoreM.map_of_eq counted fun n => decide (n = 0)) Reply.said
      rw [told counted, told counted']
      exact ⟨nofun, rfl, left⟩
    | _ => cases counts

end Operations

end Journal

namespace Shared

/-- Whether a client writes over the value under a key in its turn, or removes it. -/
def settles (w : Shared σ) (t : Turn) (key : Bytes) : Bool :=
  match t.task, w.journals t.clientId t.number with
  | .perform op, some j => op.settles j key
  | _, _ => false

/-- Whether a client is told how many keys there are. -/
def Task.counts : Task → Bool
  | .openAs _ => false
  | .perform op => op.counts

/-- Whether two states differ in extra values only that no client reads. -/
structure Matches (V : StoreView σ) (extra : Bytes → Option Bytes) (w w' : Shared σ) : Prop where
  journals : w.journals = w'.journals
  store : V.Exceeds extra w.store w'.store
  opened : ∀ clientId n j, w.journals clientId n = some j →
    Journal.TakesAll V j.start ∧ Journal.Unreadable j.start j.version extra

variable {V : StoreView σ} {extra : Bytes → Option Bytes} {w w' : Shared σ} {t : Turn}

/-- A journal that is kept is one that reads no extra value. -/
lemma Matches.keep (h : Matches V extra w w') {gone : Bytes → Bool} {j : Journal} {s s' : σ}
    (apart : V.Exceeds (lifted extra gone) s s') (takes : Journal.TakesAll V j.start)
    (unread : Journal.Unreadable j.start j.version extra) (t : Turn) :
    Matches V (lifted extra gone) (w.keep t (j, s)) (w'.keep t (j, s')) := by
  refine ⟨?_, apart, fun clientId n j' held => ?_⟩
  · unfold Shared.keep
    rw [h.journals]
  · obtain ⟨rfl, rfl⟩ | before := of_journals_keep held
    · exact ⟨takes, unread.lifted gone⟩
    · exact (h.opened clientId n j' before).imp_right fun unread => unread.lifted gone

variable [RecordStore σ]

/-- Whether no client writes over the value under a key in turns, or removes it. -/
def spares (w : Shared σ) (key : Bytes) : List Turn → Bool
  | [] => true
  | t :: ts => !w.settles t key && (w.turn t).2.spares key ts

/-- In a turn the same is told, but for the number of keys, and no more than what is written over or
removed becomes the same. -/
lemma Matches.turn (h : Matches V extra w w') (law : V.Orderly)
    (takes : Journal.TakesAll V (startOf t.clientId))
    (unread : ∀ v, t.task = .openAs v → (Bytes.ofText t.clientId).length < 65536 →
      Journal.Unreadable (startOf t.clientId) v extra) :
    (t.task.counts = false → (w.turn t).1 = (w'.turn t).1) ∧
      Matches V (lifted extra (w.settles t)) (w.turn t).2 (w'.turn t).2 := by
  obtain ⟨clientId, n, task⟩ := t
  cases task with
  | openAs v =>
    by_cases short : (Bytes.ofText clientId).length < 65536
    · have blind := unread v rfl short
      obtain ⟨j, s, s', opened, opened', start, version, apart⟩ :=
        Journal.openFor_eq law h.store short blind
      unfold Shared.turn
      simp only
      rw [opened, opened']
      have apart : V.Exceeds (lifted extra fun _ => false) s s' := apart
      refine ⟨fun _ => rfl, h.keep apart ?_ ?_ _⟩
      · rwa [start]
      · rwa [start, version]
    · unfold Shared.turn
      simp only
      rw [Journal.openFor_of_long (Nat.not_lt.mp short),
        Journal.openFor_of_long (Nat.not_lt.mp short)]
      exact ⟨fun _ => rfl, h⟩
  | perform op =>
    unfold Shared.turn settles
    simp only
    rw [← h.journals]
    cases held : w.journals clientId n with
    | none => exact ⟨fun _ => rfl, h⟩
    | some j =>
      obtain ⟨takes', blind⟩ := h.opened clientId n j held
      -- the operation leaves the client and the version, so its journal reads no extra value either
      obtain ⟨told, journal, apart⟩ := Journal.perform_eq law blind h.store takes' op
      obtain ⟨start, version⟩ := Journal.stays_perform op j w.store
      simp only
      rcases performed : Journal.perform op (j, w.store) with ⟨result, j₁, s⟩
      rcases performed' : Journal.perform op (j, w'.store) with ⟨result', j₂, s'⟩
      rw [performed, performed'] at told journal apart
      rw [performed] at start version
      obtain rfl := journal
      refine ⟨fun counts => congrArg (Except.map some) (told counts), h.keep apart ?_ ?_ _⟩
      · rwa [start]
      · rwa [start, version]

/-- In turns, the extra values are left that are not written over or removed in any of them. -/
lemma Matches.run (h : Matches V extra w w') (law : V.Orderly) {ts : List Turn}
    (takes : ∀ t ∈ ts, Journal.TakesAll V (startOf t.clientId))
    (unread : ∀ t ∈ ts, ∀ v, t.task = .openAs v → (Bytes.ofText t.clientId).length < 65536 →
      Journal.Unreadable (startOf t.clientId) v extra) :
    Matches V (lifted extra fun k => !w.spares k ts) (w.after ts) (w'.after ts) := by
  induction ts generalizing extra w w' with
  | nil => exact h
  | cons t ts ih =>
    rw [List.forall_mem_cons] at takes unread
    have next := (h.turn law takes.1 unread.1).2
    have rest := ih next takes.2 fun t mem v opens short =>
      (unread.2 t mem v opens short).lifted _
    rw [lifted_lifted] at rest
    have spares : (fun k => !w.spares k (t :: ts)) =
        fun k => w.settles t k || !(w.turn t).2.spares k ts := by
      funext k
      rw [Shared.spares, Bool.not_and, Bool.not_not]
    rw [spares]
    exact rest

/-- A damaged record is as good as none. Where values under keys of a client are not read as records
in any version in which it opens a journal, it is told in its turns what it is told over the store
without them, but for the number of keys. Behind the turns those of the values are left that it did
not write over or remove, and but for them the stores are the same. -/
theorem turn_eq_of_damaged (law : V.Orderly) {clientId : String}
    (short : (Bytes.ofText clientId).length < 65536) {ts : List Turn}
    (takes : ∀ t ∈ ts, Journal.TakesAll V (startOf t.clientId)) {s s' : σ} (serves : V.Serves s)
    (serves' : V.Serves s') {ks : List Bytes} (own : ∀ k ∈ ks, startOf clientId <+: k)
    (damaged : ∀ k ∈ ks, ∃ value, V.records s k = some value ∧
      ∀ n v, ⟨clientId, n, .openAs v⟩ ∈ ts → Record.decode? value v = none)
    (lacks : V.records s' = without (V.records s) ks) :
    let w := (closed s).after ts
    let w' := (closed s').after ts
    (∀ before t later, ts = before ++ t :: later → t.task.counts = false →
        (((closed s).after before).turn t).1 = (((closed s').after before).turn t).1) ∧
      (∀ k ∈ ks, (closed s).spares k ts = true →
        V.records w.store k = V.records s k ∧ V.records w'.store k = none) ∧
      ∀ k, (k ∈ ks → (closed s).spares k ts = false) →
        V.records w.store k = V.records w'.store k := by
  intro w w'
  let extra : Bytes → Option Bytes := fun k => if k ∈ ks then V.records s k else none
  have apart : V.Exceeds extra s s' := by
    refine ⟨serves, serves', fun k ne => ?_, fun k none => ?_⟩
    · have mem : k ∈ ks := by
        by_contra other
        exact ne (if_neg other)
      exact ⟨(if_pos mem).symm, (congrFun lacks k).trans (if_pos mem)⟩
    · rw [lacks]
      by_cases mem : k ∈ ks
      · exact ((if_pos mem).symm.trans none).trans (if_pos mem).symm
      · exact (if_neg mem).symm
  have unread : ∀ t ∈ ts, ∀ v, t.task = .openAs v → (Bytes.ofText t.clientId).length < 65536 →
      Journal.Unreadable (startOf t.clientId) v extra := by
    intro t mem v opens short' k value there front
    have damage : k ∈ ks := by
      by_contra other
      exact absurd (there.symm.trans (if_neg other)) (Option.some_ne_none _)
    obtain ⟨value', held, rejected⟩ := damaged k damage
    obtain rfl := Option.some_inj.mp (there.symm.trans ((if_pos damage).trans held))
    -- no other client opens a journal with this key
    have same : t.clientId = clientId :=
      Bytes.ofText_inj.mp (Journal.eq_of_prefix_startOf short' short front (own k damage))
    refine rejected t.number v ?_
    rwa [← same, ← opens]
  have start : Matches V extra (closed s) (closed s') := ⟨rfl, apart, nofun⟩
  have left := start.run law takes unread
  refine ⟨fun before t later parts told => ?_, fun k mem spared => ?_, fun k settled => ?_⟩
  · -- what comes before a turn leaves less to tell the stores apart
    rw [parts, List.forall_mem_append, List.forall_mem_cons] at takes unread
    exact ((start.run law takes.1 unread.1).turn law takes.2.1 fun v opens short =>
      (unread.2.1 v opens short).lifted _).1 told
  · obtain ⟨value, held, -⟩ := damaged k mem
    have kept : lifted extra (fun k => !(closed s).spares k ts) k = V.records s k := by
      rw [lifted, spared]
      exact if_pos mem
    rw [← kept]
    exact left.store.more k (by rw [kept, held]; exact Option.some_ne_none _)
  · refine left.store.same k ?_
    rw [lifted]
    by_cases mem : k ∈ ks
    · rw [settled mem]
      rfl
    · rw [show extra k = none from if_neg mem, ite_self]

/-- A value that is not read as a record is left where it is by the message that is stored beside
it, and is not told apart from nothing when all messages are read. -/
theorem turn_eq_of_damaged_table :
    let k : Bytes := [0, 1, 97, 0, 1, 0x50]
    let m : Publish := { qos := .atLeastOnce, topic := "t", payload := [1], packetId := 2 }
    let before : List Turn := [⟨"a", 0, .openAs .v311⟩, ⟨"a", 0, .perform (.write (.publish m))⟩]
    let t : Turn := ⟨"a", 0, .perform .readAll⟩
    let s : Table := Table.empty.insert k [7]
    let w : Shared Table := (closed s).after (before ++ [t])
    let w' : Shared Table := (closed (s.erase k)).after (before ++ [t])
    Record.decode? [7] .v311 = none ∧
      (((closed s).after before).turn t).1 = (((closed (s.erase k)).after before).turn t).1 ∧
      (((closed (s.erase k)).after before).turn t).1 = .ok (some (.packets [.publish m])) ∧
      (Table.view.records w.store k = some [7] ∧ Table.view.records w'.store k = none) ∧
      ∀ k', k' ≠ k → Table.view.records w.store k' = Table.view.records w'.store k' := by
  intro k m before t s w w'
  have rejected (v : Version) : Record.decode? [7] v = none := by
    cases v <;> decide +kernel
  have held : Table.view.records s k = some [7] := by decide +kernel
  have erased : Table.view.records (s.erase k) = without (Table.view.records s) [k] := by
    rw [without_cons, without_nil]
    have removes : Table.view.Meets (RecordStore.remove k) s _ _ :=
      Table.lawful.remove trivial trivial
    exact (removes.of_ok rfl).2
  have damaged : ∀ k' ∈ [k], ∃ value, Table.view.records s k' = some value ∧
      ∀ n v, ⟨"a", n, .openAs v⟩ ∈ before ++ [t] → Record.decode? value v = none := by
    rw [List.forall_mem_singleton]
    exact ⟨[7], held, fun _ v _ => rejected v⟩
  have serves (t : Table) : Table.view.Serves t := ⟨trivial, trivial⟩
  obtain ⟨told, spared, same⟩ := turn_eq_of_damaged Table.orderly
    (by decide : (Bytes.ofText "a").length < 65536) (fun _ _ => ⟨trivial, fun _ _ => trivial⟩)
    (serves s) (serves (s.erase k)) (by decide) damaged erased
  have kept := spared k (List.mem_singleton_self k) (by decide +kernel)
  rw [held] at kept
  exact ⟨rejected .v311, told before t [] rfl rfl, by decide +kernel, kept,
    fun k' ne => same k' fun mem => absurd (List.mem_singleton.mp mem) ne⟩

end Shared
end MqttClient
