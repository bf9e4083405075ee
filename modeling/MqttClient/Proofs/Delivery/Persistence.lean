import MqttClient.Proofs.Delivery.Durability
import MqttClient.Proofs.Delivery.Emission
import MqttClient.Proofs.Delivery.Sendable
import Mathlib.Tactic.Common

/-!
# When the archive is given up

Over a store all of whose calls succeed, a courier gives its archive up for one reason: a message
that cannot be written entered the window. Nothing that the store holds and no acknowledgment makes
it do so.
-/

namespace MqttClient
variable {σ : Type}

/-- Whether all calls succeed from states of a kind on, and lead to states of that kind. -/
structure RecordStore.Reliable [RecordStore σ] (P : σ → Prop) : Prop where
  get {s} (key : Bytes) : P s → ∃ x s', RecordStore.get key s = (.ok x, s') ∧ P s'
  put {s} (key value : Bytes) : P s → ∃ x s', RecordStore.put key value s = (.ok x, s') ∧ P s'
  remove {s} (key : Bytes) : P s → ∃ x s', RecordStore.remove key s = (.ok x, s') ∧ P s'
  keys {s} (start : Bytes) : P s → ∃ x s', RecordStore.keys start s = (.ok x, s') ∧ P s'
  flush {s} : P s → ∃ x s', RecordStore.flush s = (.ok x, s') ∧ P s'

/-- No call of a table fails. -/
lemma Table.reliable : RecordStore.Reliable fun _ : Table => True where
  get _ _ := ⟨_, _, rfl, trivial⟩
  put _ _ _ := ⟨_, _, rfl, trivial⟩
  remove _ _ := ⟨_, _, rfl, trivial⟩
  keys _ _ := ⟨_, _, rfl, trivial⟩
  flush _ := ⟨_, _, rfl, trivial⟩

/-- The look at a store that tells states of a kind from others and sees no records. -/
def StoreView.ofStates (P : σ → Prop) : StoreView σ where
  records := fun _ _ => none
  live := P
  sound := fun _ => True
  takes := fun _ => True

namespace StoreView.Meets
variable {α β : Type} {P : σ → Prop} {act : StoreM σ α} {next : α → StoreM σ β} {s : σ}
  {E : StoreError → σ → Prop}

/-- A call that succeeds meets that it leads to a state of the kind. -/
lemma of_answer (h : ∃ x s', act s = (.ok x, s') ∧ P s') :
    (ofStates P).Meets act s (fun _ _ => True) E := by
  obtain ⟨x, s', answer, live⟩ := h
  rw [Meets, answer]
  exact ⟨⟨live, id⟩, trivial⟩

end StoreView.Meets

namespace Journal
variable {P : σ → Prop} {s : σ} {v : Version}

section
variable [RecordStore σ] (reliable : RecordStore.Reliable P) {E : StoreError → σ → Prop}
include reliable

/-- A record is looked up without failure, whatever its value is. -/
lemma answers_lookup (hs : P s) (key : Bytes) :
    (StoreView.ofStates P).Meets (lookup v key) s (fun _ _ => True) E := by
  obtain ⟨x, s', answer, hs'⟩ := reliable.get key hs
  refine .of_answer ⟨x.bind (Record.decode? · v), s', ?_, hs'⟩
  rw [lookup, answer]

/-- Looking up keys succeeds. -/
lemma answers_lookupAll (hs : P s) (keys : List Bytes) :
    (StoreView.ofStates P).Meets (lookupAll v keys) s (fun _ _ => True) E := by
  induction keys generalizing s with
  | nil => exact .pure hs trivial
  | cons key keys ih =>
    refine (answers_lookup reliable hs key).bind fun x s' leads _ => ?_
    exact (ih leads.live).bind fun xs s'' leads _ => .pure leads.live trivial

/-- Loading all records succeeds. -/
lemma answers_load (hs : P s) (start : Bytes) :
    (StoreView.ofStates P).Meets (load v start) s (fun _ _ => True) E :=
  (StoreView.Meets.of_answer (reliable.keys start hs)).bind fun keys _ leads _ =>
    answers_lookupAll reliable leads.live keys

/-- Looking for a place succeeds. -/
lemma answers_seqOf? (hs : P s) (j : Journal) (kind : Record.Kind) (id : UInt16) :
    (StoreView.ofStates P).Meets (seqOf? j kind id) s (fun _ _ => True) E := by
  have found {s : σ} (hs : P s) (k : Record.Kind) :
      (StoreView.ofStates P).Meets (seq? j.version (j.key k id)) s (fun _ _ => True) E :=
    (answers_lookup reliable hs _).bind fun x s' leads _ => .pure leads.live trivial
  refine (found hs kind).bind fun seq s' leads _ => ?_
  cases seq with
  | some seq => exact .pure leads.live trivial
  | none =>
    cases kind with
    | message => exact .pure leads.live trivial
    | release => exact found leads.live .message

/-- Removing keys succeeds. -/
lemma answers_removeAll (hs : P s) (keys : List Bytes) :
    (StoreView.ofStates P).Meets (RecordStore.removeAll keys) s (fun _ _ => True) E := by
  induction keys generalizing s with
  | nil => exact .pure hs trivial
  | cons key keys ih =>
    exact (StoreView.Meets.of_answer (reliable.remove key hs)).bind fun _ _ leads _ =>
      ih leads.live

end

section
variable {j : Journal} {E : StoreError → Journal × σ → Prop}

/-- Calls of the store leave the journal as it is. -/
lemma answers_onStore {α : Type} {act : StoreM σ α}
    (h : (StoreView.ofStates P).Meets act s (fun _ _ => True) fun _ _ => False) :
    (StoreView.ofStates P).onJournal.Meets (onStore act) (j, s) (fun _ js => js.1 = j) E :=
  (meets_onStore h).imp (fun _ _ _ h => h.1) fun _ _ _ h => h.2.elim

variable [RecordStore σ] (reliable : RecordStore.Reliable P)
include reliable

/-- Once its place is known, a packet is put there unless it cannot be written. -/
lemma answers_putAt (hs : P s) (key : Bytes) (p : Packet) (seq : UInt64) :
    (StoreView.ofStates P).onJournal.Meets
      (match p.encode v with
      | .error _ => throw .writeError
      | .ok bytes => do
        onStore (RecordStore.put key (Record.encode seq bytes))
        return true)
      (j, s) (fun _ js => js.1.version = j.version ∧ p.IsWritable v)
      (fun _ _ => ¬ p.IsWritable v) := by
  cases written : p.encode v with
  | error e =>
    refine .throw hs ?_
    rintro ⟨bytes, written'⟩
    rw [written] at written'
    cases written'
  | ok bytes =>
    refine (answers_onStore (.of_answer (reliable.put key _ hs))).bind fun _ js leads h => ?_
    exact .pure leads.live ⟨congrArg version h, bytes, written⟩

/-- Writing fails only if the packet is one that is stored and cannot be written. -/
lemma answers_write (hs : P s) (p : Packet) :
    (StoreView.ofStates P).onJournal.Meets (write p) (j, s)
      (fun _ js => js.1.version = j.version ∧ (Record.slot? p ≠ none → p.IsWritable j.version))
      (fun _ _ => Record.slot? p ≠ none ∧ ¬ p.IsWritable j.version) := by
  unfold write
  cases slot : Record.slot? p with
  | none => exact .pure hs ⟨rfl, fun ne => absurd rfl ne⟩
  | some place =>
    obtain ⟨kind, id⟩ := place
    refine (meets_self hs).bind fun _ js _ h => ?_
    obtain ⟨rfl, rfl⟩ := h
    refine (answers_onStore (answers_seqOf? reliable hs j kind id)).bind fun found js leads h => ?_
    obtain ⟨j', s'⟩ := js
    obtain rfl : j' = j := h
    have live : P s' := leads.live
    have put (seq : UInt64) (i : Journal) :=
      answers_putAt reliable (v := j'.version) (j := i) live (j'.key kind id) p seq
    cases found with
    | some seq =>
      exact (put seq j').imp (fun _ _ _ h => ⟨h.1, fun _ => h.2⟩)
        fun _ _ _ h => ⟨Option.some_ne_none _, h⟩
    | none =>
      -- without a place the next one is taken before the packet is written
      refine (meets_takeSeq live).bind fun seq js _ h => ?_
      obtain ⟨-, rfl⟩ := h
      exact (put seq _).imp (fun _ _ _ h => ⟨h.1, fun _ => h.2⟩)
        fun _ _ _ h => ⟨Option.some_ne_none _, h⟩

/-- Removing a packet succeeds. -/
lemma answers_remove (hs : P s) (p : Packet) :
    (StoreView.ofStates P).onJournal.Meets (remove p) (j, s)
      (fun _ js => js.1.version = j.version) E := by
  unfold remove
  refine (meets_self hs).bind fun _ js _ h => ?_
  obtain ⟨rfl, rfl⟩ := h
  cases j.keyOf? p with
  | none => exact .pure hs rfl
  | some key =>
    exact (answers_onStore (.of_answer (reliable.remove key hs))).imp
      (fun _ _ _ h => congrArg version h) fun _ _ _ h => h

/-- Reading all packets succeeds. -/
lemma answers_readAll (hs : P s) :
    (StoreView.ofStates P).onJournal.Meets readAll (j, s)
      (fun _ js => js.1.version = j.version) E := by
  unfold readAll
  refine (meets_self hs).bind fun _ js _ h => ?_
  obtain ⟨rfl, rfl⟩ := h
  refine (answers_onStore (answers_load reliable hs _)).bind fun records js leads h => ?_
  exact .pure leads.live (congrArg version h)

/-- Listing the keys succeeds. -/
lemma answers_keys (hs : P s) :
    (StoreView.ofStates P).onJournal.Meets keys (j, s) (fun _ js => js.1 = j) E := by
  refine (meets_self hs).bind fun _ js _ h => ?_
  obtain ⟨rfl, rfl⟩ := h
  exact answers_onStore (.of_answer (reliable.keys _ hs))

/-- Clearing succeeds. -/
lemma answers_clear (hs : P s) :
    (StoreView.ofStates P).onJournal.Meets clear (j, s)
      (fun _ js => js.1.version = j.version) E := by
  refine (answers_keys reliable hs).bind fun keys js leads h => ?_
  obtain ⟨j₁, s₁⟩ := js
  obtain rfl : j₁ = j := h
  refine (answers_onStore (answers_removeAll reliable leads.live keys)).bind fun _ js leads h => ?_
  obtain ⟨j₂, s₂⟩ := js
  obtain rfl : j₂ = j₁ := h
  have live : P s₂ := leads.live
  refine (meets_resetSeq live).bind fun _ js _ h => ?_
  obtain rfl := h
  exact (answers_onStore (.of_answer (reliable.flush live))).imp
    (fun _ _ _ h => by rw [h]) fun _ _ _ h => h

end

end Journal

namespace Archive
variable {P : σ → Prop} {v : Version} {a : Archive σ}

/-- Whether the archive is active, in a version and on a store in a state of a kind. -/
def Stands (P : σ → Prop) (v : Version) (a : Archive σ) : Prop :=
  ∃ j s, a = active j s ∧ j.version = v ∧ P s

/-- An archive that stands is active. -/
lemma Stands.isActive (h : a.Stands P v) : a.isActive = true := by
  obtain ⟨j, s, rfl, -⟩ := h
  rfl

/-- What answers leaves the archive standing. -/
lemma stands_attempt {α : Type} {act : JournalM σ α} {j : Journal} {s : σ}
    (h : (StoreView.ofStates P).onJournal.Meets act (j, s)
      (fun _ js => js.1.version = j.version) fun _ _ => False) :
    ((active j s).attempt act).2.Stands P j.version := by
  obtain ⟨x, j', s', e, leads, same⟩ | ⟨-, -, -, -, -, fails⟩ := attempt_of_meets h
  · rw [e]
    exact ⟨j', s', rfl, same, leads.live⟩
  · exact fails.elim

variable [RecordStore σ] (reliable : RecordStore.Reliable P)
include reliable

/-- An archive is given up over a packet that is stored and cannot be written, and over no other. -/
lemma stands_save (h : a.Stands P v) (p : Packet) :
    (Record.slot? p ≠ none → p.IsWritable v) ∧ (a.save p).Stands P v ∨
      (Record.slot? p ≠ none ∧ ¬ p.IsWritable v) ∧ (a.save p).isActive = false := by
  obtain ⟨j, s, rfl, rfl, hs⟩ := h
  unfold save
  obtain ⟨x, j', s', e, leads, same, writable⟩ | ⟨_, j', s', e, -, refused⟩ :=
    attempt_of_meets (Journal.answers_write reliable hs p)
  · rw [e]
    exact .inl ⟨writable, j', s', rfl, same, leads.live⟩
  · rw [e]
    exact .inr ⟨refused, rfl⟩

/-- Keeping a packet that can be written leaves the archive standing. -/
lemma stands_save_of_isWritable (h : a.Stands P v) {p : Packet} (writable : p.IsWritable v) :
    (a.save p).Stands P v := by
  obtain ⟨-, stands⟩ | ⟨⟨-, unwritable⟩, -⟩ := stands_save reliable h p
  · exact stands
  · exact absurd writable unwritable

/-- An archive stands when a packet is dropped. -/
lemma stands_drop (h : a.Stands P v) (p : Packet) : (a.drop p).Stands P v := by
  obtain ⟨j, s, rfl, rfl, hs⟩ := h
  exact stands_attempt (Journal.answers_remove reliable hs p)

/-- An archive stands when it is cleared. -/
lemma stands_clear (h : a.Stands P v) : a.clear.Stands P v := by
  obtain ⟨j, s, rfl, rfl, hs⟩ := h
  exact stands_attempt (Journal.answers_clear reliable hs)

/-- An archive stands when it is read. -/
lemma stands_readAll (h : a.Stands P v) : a.readAll.2.Stands P v := by
  obtain ⟨j, s, rfl, rfl, hs⟩ := h
  exact stands_attempt (Journal.answers_readAll reliable hs)

end Archive

namespace Courier
variable {P : σ → Prop} {v : Version} {since : List Packet} {c c' : Courier σ}
  {out : Finset UInt16} {now : Instant} {es es' : List Event}

/-- Whether the archive stands as long as the messages that entered the window can be written, and
is given up otherwise. -/
structure Persists (P : σ → Prop) (v : Version) (c : Courier σ) (since : List Packet) : Prop where
  sendable : c.Sendable v since
  stands : (∀ m, .publish m ∈ since → m.IsWritable v) → c.archive.Stands P v
  lost : (¬ ∀ m, .publish m ∈ since → m.IsWritable v) → c.archive.isActive = false

variable [RecordStore σ]

namespace Persists
variable (reliable : RecordStore.Reliable P)
include reliable

/-- A message that enters the window is kept, or the archive is given up because it cannot be
written. -/
lemma send (h : c.Persists P v since) {m : Publish} (acknowledged : m.isAcknowledged = true)
    (ne : m.packetId ≠ 0) (sendable : c'.Sendable v (since ++ [.publish m]))
    (all : ∀ m, .publish m ∈ since → m.IsWritable v)
    (saved : c'.archive = c.archive.save (.publish m)) :
    c'.Persists P v (since ++ [.publish m]) := by
  have slot : Record.slot? (.publish m) ≠ none := by
    rw [Record.slot?, if_pos acknowledged]
    exact Option.some_ne_none _
  have entered : Packet.publish m ∈ since ++ [.publish m] :=
    List.mem_append_right _ (List.mem_singleton_self _)
  obtain ⟨writable, stands⟩ | ⟨⟨-, unwritable⟩, inactive⟩ :=
    Archive.stands_save reliable (h.stands all) (.publish m)
  · refine ⟨sendable, fun _ => saved ▸ stands, fun not => absurd (fun m' mem => ?_) not⟩
    obtain mem | mem := List.mem_append.mp mem
    · exact all m' mem
    · cases List.mem_singleton.mp mem
      exact (Packet.isWritable_publish_iff.mp (writable slot)).1
  · refine ⟨sendable, fun all' => absurd ?_ unwritable, fun _ => saved ▸ inactive⟩
    exact Packet.isWritable_publish_iff.mpr ⟨all' _ entered, fun _ => ne⟩

/-- Every step keeps the archive standing as long as what enters the window can be written. -/
theorem step (h : c.Persists P v since) (d : c.Disciplined out) (ready : c.Prepared)
    (step : Step now c es c') : c'.Persists P v (since ++ entries es) := by
  have sendable := (h.sendable.step d step).1
  by_cases all : ∀ m, .publish m ∈ since → m.IsWritable v
  · have stands := h.stands all
    -- a step without a new message has to keep the archive only
    have quiet (none : entries es = []) (stands : c'.archive.Stands P v) :
        c'.Persists P v (since ++ entries es) := by
      rw [none, List.append_nil] at sendable ⊢
      exact ⟨sendable, fun _ => stands, absurd all⟩
    cases step with
    | restore fresh =>
      apply quiet (entries_takenUp _)
      rw [archive_restore fresh]
      exact Archive.stands_readAll reliable stands
    | @send m _ id _ _ _ free first =>
      have waited : m ∈ c.queue.toList := by
        rw [Fifo.toList_of_pop? first]
        exact List.mem_cons_self ..
      exact h.send reliable (ready m waited).1 (d.ids.allocate? free).1 sendable all rfl
    | release _ found =>
      obtain ⟨split, rfl, -⟩ := splitAt?_eq_some found
      have ne := d.packetId_ne_zero (split ▸ List.mem_append_cons_self)
      have writable := Packet.isWritable_pubrel (v := v) ne
      exact quiet rfl (Archive.stands_drop reliable
        (Archive.stands_save_of_isWritable reliable stands writable) _)
    | complete => exact quiet rfl (Archive.stands_drop reliable stands _)
    | resend _ split =>
      have mem : _ ∈ c.window.toList := split ▸ List.mem_append_cons_self
      have writable := ((h.sendable.window _ mem).again now).isWritable all
      exact quiet rfl (Archive.stands_save_of_isWritable reliable stands writable)
    | replay => exact quiet (entries_sent _) stands
    | clean => exact quiet rfl (Archive.stands_clear reliable stands)
    | _ => exact quiet rfl stands
  · -- what was given up is never touched again
    have inactive := h.lost all
    have same := archive_of_step step inactive
    refine ⟨sendable, fun all' => absurd (fun m mem => ?_) all, fun _ => same ▸ inactive⟩
    exact all' m (List.mem_append_left _ mem)

/-- Calls keep the archive standing as long as what enters the window can be written. -/
theorem trace (h : c.Persists P v []) (d : c.Disciplined out) (ready : c.Prepared)
    (ops : List Call) : (c.after ops).Persists P v (entries (c.trace ops)) := by
  suffices (c.after ops).Prepared ∧ (c.after ops).Persists P v (entries (c.trace ops)) from this.2
  refine d.trace_induction []
    (motive := fun c es => c.Prepared ∧ c.Persists P v (entries es)) ⟨ready, h⟩ ?_ ops
  rintro c c' out now es es' d ⟨ready, h⟩ step
  rw [entries_append]
  exact ⟨ready.step step, h.step reliable d ready step⟩

end Persists

/-- Over a store all of whose calls succeed, whatever it holds, a courier with a journal keeps what
is in flight exactly as long as all messages that entered the window can be written in the version
of the journal. -/
theorem isPersistent_iff (reliable : RecordStore.Reliable P) (settings : Settings) (j : Journal)
    {s : σ} (hs : P s) (ops : List Call) :
    let c := withJournal settings j s
    (c.after ops).isPersistent = true ↔
      ∀ m, .publish m ∈ entries (c.trace ops) → m.IsWritable j.version := by
  intro c
  have sendable : (initial settings (some (j, s))).Sendable j.version [] := by
    apply sendable_initial
    intro j' s' same
    cases same
    rfl
  have begun : c.Persists P j.version [] :=
    ⟨sendable, fun _ => ⟨j, s, rfl, rfl, hs⟩, fun not => absurd (fun _ => nofun) not⟩
  have h := begun.trace reliable (disciplined_initial settings (some (j, s)))
    (prepared_initial settings (some (j, s))) ops
  constructor
  · intro active
    by_contra not
    exact Bool.noConfusion ((h.lost not).symm.trans active)
  · exact fun all => (h.stands all).isActive

/-- The handshake of a message over a table. -/
theorem isPersistent_of_handshake :
    let settings : Settings := {}
    let j : Journal := ⟨[0, 1, 97], .v311, 0⟩
    let m : Publish := { qos := .exactlyOnce, topic := "a", payload := [1] }
    let ops : List Call :=
      [.enqueue m .origin, .acknowledge 1 .pubrec .origin, .acknowledge 1 .pubcomp .origin]
    RecordStore.Reliable (fun _ : Table => True) ∧
      entries ((withJournal settings j Table.empty).trace ops) =
        [.publish { m with packetId := 1 }] ∧
      ((withJournal settings j Table.empty).after ops).isPersistent = true := by
  intro settings j m ops
  have entered : entries ((withJournal settings j Table.empty).trace ops) =
      [.publish { m with packetId := 1 }] := by decide +kernel
  refine ⟨Table.reliable, entered, (isPersistent_iff Table.reliable settings j trivial ops).mpr ?_⟩
  rw [entered]
  intro m' mem
  cases List.mem_singleton.mp mem
  exact (Packet.isWritable_publish_iff.mp ⟨_, rfl⟩).1

/-- Version 3.1.1 has no place for the properties of the message, so the archive is given up when
the message enters the window, although no call of the table fails. -/
theorem not_isPersistent :
    let m : Publish :=
      { qos := .atLeastOnce, topic := "a", payload := [1], properties := [.user "k" "v"] }
    let c := withJournal {} ⟨[0, 1, 97], .v311, 0⟩ Table.empty
    RecordStore.Reliable (fun _ : Table => True) ∧
      (c.enqueue m .origin).1 = .ok [.publish { m with packetId := 1 }] ∧
      (c.enqueue m .origin).2.isPersistent = false :=
  ⟨Table.reliable, by decide +kernel⟩

end Courier
end MqttClient
