import MqttClient.Proofs.Delivery.Discipline
import MqttClient.Store.Table
import Mathlib.Tactic.Common
import Mathlib.Logic.Function.Iterate

/-!
# Why messages wait

A message waits because the window is full or because all identifiers are taken. Every call that
adds a message or ends a handshake moves messages into the window for as long as it can. Giving an
identifier back does not: a message that waits for one waits on, and the identifier lies idle, until
another call moves messages.
-/

namespace MqttClient.Courier
variable {σ : Type} {c c' : Courier σ} {out idle : Finset UInt16} {now : Instant} {e : Event}
  {es es' : List Event}

/-- Whether messages wait only where the window is full or all identifiers are taken. -/
def IsSaturated (c : Courier σ) : Prop :=
  c.queue.toList ≠ [] →
    capacity c.settings ≤ c.window.size ∨ ∀ id, id ≠ 0 → c.ids.contains id = true

namespace Event

/-- Whether an event adds a message, moves one into the window or makes room there. -/
def moves : Event → Bool
  | queued _ | entered _ => true
  | acknowledged _ kind => kind ≠ .pubrec
  | takenUp _ | sent _ | cleaned | lent _ | returned _ => false

/-- The identifiers that lie idle after an event: those that came back after messages were moved or
dropped last, and were not lent again. -/
def idleIds (out idle : Finset UInt16) : Event → Finset UInt16
  | returned id => if id ∈ out then insert id idle else idle
  | lent id => idle.erase id
  | cleaned => ∅
  | e => if e.moves then ∅ else idle

end Event

/-- The identifiers that lie idle after events. -/
def idleIds (out idle : Finset UInt16) : List Event → Finset UInt16
  | [] => idle
  | e :: es => idleIds (e.lend out) (e.idleIds out idle) es

/-- What lies idle is counted on behind a part of the history. -/
lemma idleIds_append (out idle : Finset UInt16) (es es' : List Event) :
    idleIds out idle (es ++ es') = idleIds (outstanding out es) (idleIds out idle es) es' := by
  induction es generalizing out idle with
  | nil => rfl
  | cons e es ih => exact ih (e.lend out) (e.idleIds out idle)

/-- Taking packets up leaves idle what is idle. -/
lemma idleIds_takenUp (out idle : Finset UInt16) (ps : List Packet) :
    idleIds out idle (ps.map .takenUp) = idle := by
  induction ps with
  | nil => rfl
  | cons p ps ih => exact ih

/-- Sending packets leaves idle what is idle. -/
lemma idleIds_sent (out idle : Finset UInt16) (ps : List Packet) :
    idleIds out idle (ps.map .sent) = idle := by
  induction ps with
  | nil => rfl
  | cons p ps ih => exact ih

/-- Whether idle identifiers are free. -/
structure AreFree (c : Courier σ) (idle : Finset UInt16) : Prop where
  fresh : c.restored = false → idle = ∅
  free : ∀ id ∈ idle, id ≠ 0 ∧ c.ids.contains id = false

/-- Whether no identifiers but idle ones are free where a message waits that has room. -/
def AwaitsMove (c : Courier σ) (idle : Finset UInt16) : Prop :=
  c.queue.toList ≠ [] → c.window.size < capacity c.settings →
    ∀ id, id ≠ 0 → c.ids.contains id = false → id ∈ idle

/-- Where nothing lies idle, all that does is free. -/
lemma areFree_empty (c : Courier σ) : c.AreFree ∅ :=
  ⟨fun _ => rfl, fun id mem => absurd mem (Finset.notMem_empty id)⟩

/-- Where no message waits, no identifier is free for one. -/
lemma awaitsMove_of_queue (empty : c.queue.toList = []) : c.AwaitsMove idle :=
  fun waits => absurd empty waits

/-- Where messages wait for room or identifiers only, no identifier is free for them. -/
lemma IsSaturated.awaitsMove (h : c.IsSaturated) : c.AwaitsMove idle := by
  intro waits room id ne free
  obtain full | taken := h waits
  · exact absurd full (Nat.not_le.mpr room)
  · exact Bool.noConfusion (free.symm.trans (taken id ne))

/-- What lies idle is free as long as the identifiers are the same. -/
lemma AreFree.congr (h : c.AreFree idle) (restored : c'.restored = c.restored)
    (ids : c'.ids = c.ids) : c'.AreFree idle := by
  refine ⟨?_, ?_⟩
  · rw [restored]
    exact h.fresh
  · rw [ids]
    exact h.free

/-- What awaits a move depends on the queue, the window and the identifiers only. -/
lemma AwaitsMove.congr (h : c.AwaitsMove idle) (queue : c'.queue = c.queue)
    (window : c'.window.toList.length = c.window.toList.length) (ids : c'.ids = c.ids)
    (settings : c'.settings = c.settings) : c'.AwaitsMove idle := by
  unfold AwaitsMove
  rw [queue, Fifo.size_eq_length, window, ← Fifo.size_eq_length, ids, settings]
  exact h

/-- Messages wait only where the window is full or all identifiers are taken, unless some lie
idle. -/
lemma AreFree.isSaturated_iff (h : c.AreFree idle) (awaits : c.AwaitsMove idle) :
    c.IsSaturated ↔ c.queue.toList = [] ∨ capacity c.settings ≤ c.window.size ∨ idle = ∅ := by
  constructor
  · intro saturated
    by_cases waits : c.queue.toList = []
    · exact .inl waits
    · refine .inr ((saturated waits).imp_right fun taken => ?_)
      rw [Finset.eq_empty_iff_forall_notMem]
      intro id mem
      obtain ⟨ne, free⟩ := h.free id mem
      exact Bool.noConfusion (free.symm.trans (taken id ne))
  · rintro none waits
    obtain empty | full | rfl := none
    · exact absurd empty waits
    · exact .inl full
    · by_cases room : c.window.size < capacity c.settings
      · refine .inr fun id ne => ?_
        rw [← Bool.not_eq_false]
        exact fun free => absurd (awaits waits room id ne free) (Finset.notMem_empty id)
      · exact .inl (Nat.not_lt.mp room)

/-- What is given back while it is in flight was not lent. -/
lemma idleIds_returned_of_flying {id : UInt16} (d : c.Disciplined out) (flying : id ∈ c.flying) :
    idleIds out idle [.returned id] = idle :=
  if_neg fun lent => d.disjoint id lent flying

variable [RecordStore σ]

/-- Every step keeps idle identifiers free. -/
lemma AreFree.step (h : c.AreFree idle) (d : c.Disciplined out) (step : Step now c es c') :
    c'.AreFree (idleIds out idle es) := by
  cases step with
  | restore fresh =>
    rw [idleIds_takenUp, h.fresh fresh]
    exact areFree_empty _
  | pass => exact h
  | accept | send | clean => exact areFree_empty _
  | release => exact h.congr rfl rfl
  | @complete id kind _ _ _ _ ends =>
    have moves : (Event.acknowledged id kind).moves = true := decide_eq_true ends
    have moved : idleIds out idle [.acknowledged id kind] = ∅ := if_pos moves
    rw [moved]
    exact areFree_empty _
  | resend | settle => exact h.congr rfl rfl
  | replay =>
    rw [idleIds_sent]
    exact h.congr rfl rfl
  | @take id ids restored free =>
    obtain ⟨-, contains⟩ := IdPool.allocate?_eq_some free
    refine ⟨fun fresh => Bool.noConfusion (restored.symm.trans fresh), fun i mem => ?_⟩
    obtain ⟨other, mem⟩ := Finset.mem_erase.mp mem
    obtain ⟨ne, unused⟩ := h.free i mem
    refine ⟨ne, ?_⟩
    rw [Bool.eq_false_iff, Ne, contains, unused]
    exact not_or.mpr ⟨other, Bool.false_ne_true⟩
  | @giveBack id absent =>
    change Courier.AreFree _ (if id ∈ out then insert id idle else idle)
    have kept (i : UInt16) (mem : i ∈ idle) : i ≠ 0 ∧ (c.ids.release id).contains i = false :=
      (h.free i mem).imp_right fun unused => IdPool.contains_release_of_free unused id
    split
    · rename_i lent
      refine ⟨fun fresh => ?_, fun i mem => ?_⟩
      · rw [d.eq_empty fresh] at lent
        exact absurd lent (Finset.notMem_empty id)
      · obtain rfl | mem := Finset.mem_insert.mp mem
        · exact ⟨d.ne_zero (.inr lent), IdPool.contains_release_self ..⟩
        · exact kept i mem
    · exact ⟨h.fresh, kept⟩
  | @retain id present =>
    rw [idleIds_returned_of_flying d (List.mem_map.mpr present)]
    exact h

/-- What lies idle is free behind every run. -/
lemma AreFree.run (h : c.AreFree idle) (d : c.Disciplined out) (run : Run now c es c') :
    c'.AreFree (idleIds out idle es) := by
  induction run generalizing out idle with
  | refl => exact h
  | step first _ ih =>
    rw [idleIds_append]
    exact ih (h.step d first) (d.step first).2

/-- A step that moves nothing leaves waiting messages no free identifiers but idle ones. -/
lemma AwaitsMove.step (h : c.AwaitsMove idle) (d : c.Disciplined out) (step : Step now c es c')
    (still : ∀ e ∈ es, e.moves = false) : c'.AwaitsMove (idleIds out idle es) := by
  cases step with
  | restore fresh =>
    apply awaitsMove_of_queue
    rw [queue_restore]
    exact (d.idle fresh).queue
  | pass => exact h
  -- these move messages
  | accept | send => exact Bool.noConfusion (still _ (List.mem_singleton_self _))
  | release _ found =>
    obtain ⟨window, -⟩ := splitAt?_eq_some found
    refine h.congr rfl ?_ rfl rfl
    rw [window, Fifo.toList_ofList, List.length_append, List.length_append]
    rfl
  | complete _ ends =>
    exact absurd ends (of_decide_eq_false (still _ (List.mem_singleton_self _)))
  | resend _ window =>
    refine h.congr rfl ?_ rfl rfl
    rw [window, Fifo.toList_ofList, List.length_append, List.length_append]
    rfl
  | replay =>
    rw [idleIds_sent]
    refine h.congr rfl ?_ rfl rfl
    rw [Fifo.toList_ofList, List.length_map]
  | settle same => exact h.congr rfl (congrArg List.length same) rfl rfl
  | clean => exact awaitsMove_of_queue rfl
  | @take id ids _ free =>
    obtain ⟨-, contains⟩ := IdPool.allocate?_eq_some free
    intro waits room i ne unused
    rw [Bool.eq_false_iff, Ne, contains, not_or, Bool.not_eq_true] at unused
    exact Finset.mem_erase.mpr ⟨unused.1, h waits room i ne unused.2⟩
  | @giveBack id absent =>
    intro waits room i ne unused
    rw [Bool.eq_false_iff, Ne, IdPool.contains_release, not_and_or, not_not, Bool.not_eq_true]
      at unused
    change i ∈ if id ∈ out then insert id idle else idle
    by_cases free : c.ids.contains i = false
    · have mem := h waits room i ne free
      split
      · exact Finset.mem_insert_of_mem mem
      · exact mem
    · -- what is not in flight and was taken was lent
      obtain rfl : i = id := unused.resolve_right free
      have owned := (d.taken i).mp (Bool.not_eq_false _ ▸ free)
      have grounded : i ∉ c.flying := fun mem => by
        obtain ⟨f, hf, under⟩ := List.mem_map.mp mem
        exact absent f hf under
      rw [if_pos (owned.resolve_left grounded)]
      exact Finset.mem_insert_self ..
  | @retain id present =>
    rw [idleIds_returned_of_flying d (List.mem_map.mpr present)]
    exact h

/-- Behind a run without moves, only idle identifiers are free where a message waits. -/
lemma AwaitsMove.run (h : c.AwaitsMove idle) (d : c.Disciplined out) (run : Run now c es c')
    (still : ∀ e ∈ es, e.moves = false) : c'.AwaitsMove (idleIds out idle es) := by
  induction run generalizing out idle with
  | refl => exact h
  | step first _ ih =>
    rw [List.forall_mem_append] at still
    rw [idleIds_append]
    exact ih (h.step d first still.1) (d.step first).2 still.2

/-- Messages are moved until the window is full, the queue is empty or all identifiers are taken. -/
lemma isSaturated_fill (now : Instant) {room : Nat} (sound : c.ids.IsSound)
    (fits : capacity c.settings ≤ c.window.size + room) : (c.fill now room).2.IsSaturated := by
  induction room generalizing c with
  | zero => exact fun _ => .inl fits
  | succ room ih =>
    unfold fill
    split
    · rename_i none
      exact fun _ => .inr ((IdPool.allocate?_eq_none_iff sound.next).mp none)
    · rename_i id ids free
      split
      · rename_i none
        exact fun waits => absurd ((Fifo.pop?_eq_none_iff _).mp none) waits
      · refine ih (sound.allocate? free).2 ?_
        change capacity c.settings ≤ c.window.size + 1 + room
        omega

/-- Behind a draining messages wait for room or identifiers only. -/
lemma isSaturated_drain (sound : c.ids.IsSound) (now : Instant) :
    (c.drain now).2.IsSaturated :=
  isSaturated_fill now sound (by omega)

/-- Behind a recovery messages wait for room or identifiers only. -/
lemma isSaturated_recover (sound : (c.restore now).ids.IsSound) :
    (c.recover now).2.IsSaturated :=
  isSaturated_drain (c := { c.restore now with
    window := .ofList ((c.restore now).window.toList.map fun e => { e with lastSent := now }) })
    sound now

/-- A call moves nothing if what calls for other events does not and no message enters the
window. -/
lemma still_events {op : Call} (prompts : ∀ e ∈ c.prompts op, e.moves = false)
    (entered : c.entered op = []) : ∀ e ∈ c.events op, e.moves = false := by
  rw [events, entered, List.map_nil, List.append_nil]
  simp only [List.forall_mem_append, List.forall_mem_map]
  exact ⟨⟨fun _ _ => rfl, prompts⟩, fun _ _ => rfl⟩

/-- A message that is refused moves nothing. -/
lemma still_events_enqueue {m : Publish} {e : DeliveryError}
    (refused : c.enqueue m now = (.error e, c')) :
    ∀ e ∈ c.events (.enqueue m now), e.moves = false := by
  refine still_events ?_ ?_
  · rw [prompts, refused]
    exact List.forall_mem_nil _
  · rw [entered, call, refused, ite_self]

/-- A call that moves anything goes on as long as messages can be moved. -/
lemma isSaturated_call (d : c.Disciplined out) (op : Call) :
    (∀ e ∈ c.events op, e.moves = false) ∨ (c.call op).2.IsSaturated := by
  have sound (restores : op.restores = true) : (c.restore op.time).ids.IsSound :=
    (d.run (run_restore c op restores)).2.ids
  -- a call that moves messages ends with a draining, and the others have no such event
  cases op with
  | enqueue m now =>
    by_cases named : m.topic.isEmpty = true
    · exact .inl (still_events_enqueue (enqueue_of_unnamed named))
    by_cases full : (c.restore now).settings.queueCapacity.toNat ≤ (c.restore now).pending
    · exact .inl (still_events_enqueue (enqueue_of_full named full))
    by_cases acknowledged : m.isAcknowledged = true
    · have drained := isSaturated_drain (c := { c.restore now with
        queue := (c.restore now).queue.push { m with dup := false, packetId := 0 } })
        (sound (by simpa [Call.restores] using named)) now
      refine .inr ?_
      rw [call, enqueue_of_acknowledged named full acknowledged]
      exact drained
    · refine .inl (still_events ?_ (if_neg acknowledged))
      rw [prompts]
      split
      · rw [if_neg acknowledged]
        exact List.forall_mem_nil _
      · exact List.forall_mem_nil _
  | acknowledge id kind now =>
    cases found : splitAt? id kind (c.restore now).window.toList with
    | none =>
      refine .inl (still_events ?_ ?_)
      · rw [prompts, found]
        exact List.forall_mem_nil _
      · rw [entered, acknowledge_of_none found, ite_self]
    | some parts =>
      obtain ⟨before, e, after⟩ := parts
      by_cases received : kind = .pubrec
      · subst received
        refine .inl (still_events ?_ rfl)
        rw [prompts, found]
        exact List.forall_mem_singleton.mpr rfl
      · refine .inr ?_
        rw [call, acknowledge_of_ends received found]
        exact isSaturated_drain ((sound rfl).release id) now
  | recover now => exact .inr (isSaturated_recover (sound rfl))
  | connected cleanSession now =>
    cases cleanSession with
    | true => exact .inl (still_events (List.forall_mem_singleton.mpr rfl) rfl)
    | false => exact .inr (isSaturated_recover (sound rfl))
  | nextPacketId =>
    refine .inl (still_events ?_ rfl)
    rw [prompts]
    split
    · exact List.forall_mem_singleton.mpr rfl
    · exact List.forall_mem_nil _
  | retry | cleanAll => exact .inl (still_events (by simp [prompts, Event.moves]) rfl)
  | releasePacketId id => exact .inl (still_events (List.forall_mem_singleton.mpr rfl) rfl)

/-- In every state, no identifiers but idle ones are free where a message waits that has room, and
idle ones are. -/
theorem areFree_trace (free : c.AreFree idle) (awaits : c.AwaitsMove idle) (d : c.Disciplined out)
    (ops : List Call) :
    (c.after ops).AreFree (idleIds out idle (c.trace ops)) ∧
      (c.after ops).AwaitsMove (idleIds out idle (c.trace ops)) := by
  induction ops generalizing c out idle with
  | nil => exact ⟨free, awaits⟩
  | cons op ops ih =>
    have run := (run_call c op).2
    rw [trace, idleIds_append]
    refine ih (free.run d run) ?_ (d.run run).2
    obtain still | saturated := isSaturated_call d op
    · exact awaits.run d run still
    · exact saturated.awaitsMove

/-- In every state of a courier, where a message waits and the window has room, the free identifiers
are the idle ones: those that were given back since messages were moved last, and were not lent
again. So it is only for idle identifiers that a message waits without need. -/
theorem isSaturated_iff_idleIds_eq_empty (settings : Settings) (session : Option (Journal × σ))
    (ops : List Call) :
    let c := (initial settings session).after ops
    let idle := idleIds ∅ ∅ ((initial settings session).trace ops)
    c.settings = settings ∧
      (c.queue.toList ≠ [] → c.window.size < capacity settings →
        ∀ id, id ∈ idle ↔ id ≠ 0 ∧ c.ids.contains id = false) ∧
      (c.IsSaturated ↔
        c.queue.toList = [] ∨ capacity settings ≤ c.window.size ∨ idle = ∅) := by
  intro c idle
  have same : c.settings = settings := by
    refine (settings_after _ ops).trans ?_
    cases session <;> rfl
  have waits : (initial settings session).queue.toList = [] := by
    cases session <;> rfl
  obtain ⟨free, awaits⟩ := areFree_trace (areFree_empty _) (awaitsMove_of_queue waits)
    (disciplined_initial settings session) ops
  refine ⟨same, fun waits room id => ⟨free.free id, fun unused => ?_⟩, ?_⟩
  · exact awaits waits (by rwa [same]) id unused.1 unused.2
  · have iff := free.isSaturated_iff awaits
    rwa [same] at iff

/-- Identifiers are lent one after the other, as long as the pool has not gone round. -/
lemma after_replicate_nextPacketId (c : Courier σ) (restored : c.restored = true) {m n : Nat}
    (le : m + n ≤ 65535) (next : c.ids.next = IdPool.successor^[m] 1)
    (taken : ∀ i, c.ids.contains i = true ↔ ∃ k < m, IdPool.successor^[k] 1 = i) :
    ∃ ids, c.after (List.replicate n .nextPacketId) = { c with ids } ∧
      ∀ i, ids.contains i = true ↔ ∃ k < m + n, IdPool.successor^[k] 1 = i := by
  induction n generalizing c m with
  | zero => exact ⟨c.ids, rfl, taken⟩
  | succ n ih =>
    have free : c.ids.contains c.ids.next = false := by
      rw [Bool.eq_false_iff, Ne, taken, next]
      rintro ⟨k, lt, same⟩
      have number := congrArg UInt16.toNat same
      rw [IdPool.toNat_iterate_successor (by decide), IdPool.toNat_iterate_successor (by decide)]
        at number
      change (1 - 1 + k) % 65535 + 1 = (1 - 1 + m) % 65535 + 1 at number
      omega
    have given := IdPool.allocate?_of_free free
    obtain ⟨-, contains⟩ := IdPool.allocate?_eq_some given
    have called : (c.call .nextPacketId).2 = { c with
        ids := ⟨IdPool.successor c.ids.next, c.ids.taken.insert c.ids.next⟩ } := by
      have same : c.restore .origin = c := if_pos restored
      rw [call, nextPacketId, same, given]
    obtain ⟨ids, lent, all⟩ := ih (m := m + 1) { c with
        ids := ⟨IdPool.successor c.ids.next, c.ids.taken.insert c.ids.next⟩ } restored (by omega)
      (by rw [next, Function.iterate_succ_apply']) fun i => by
        rw [contains, taken, next]
        constructor
        · rintro (rfl | ⟨k, lt, same⟩)
          · exact ⟨m, Nat.lt_succ_self m, rfl⟩
          · exact ⟨k, Nat.lt_succ_of_lt lt, same⟩
        · rintro ⟨k, lt, same⟩
          obtain lt | rfl := Nat.lt_succ_iff_lt_or_eq.mp lt
          · exact .inr ⟨k, lt, same⟩
          · exact .inl same.symm
    refine ⟨ids, ?_, fun i => ?_⟩
    · rw [List.replicate_succ, after, called]
      exact lent
    · rw [all, Nat.add_right_comm, Nat.add_assoc]

/-- No message is moved while all identifiers are taken. -/
lemma fill_of_exhausted {room : Nat} (none : c.ids.allocate? = none) :
    c.fill now room = ([], c) := by
  cases room with
  | zero => rfl
  | succ room => rw [fill, none]

/-- Calls go on behind other calls. -/
lemma after_append (c : Courier σ) (ops ops' : List Call) :
    c.after (ops ++ ops') = (c.after ops).after ops' := by
  induction ops generalizing c with
  | nil => rfl
  | cons op ops ih => exact ih _

/-- Every identifier is lent, so a message waits although the window is empty. When an identifier
comes back the message waits on, and nothing is in flight whose acknowledgment could move it. -/
theorem not_isSaturated_of_returned :
    let m : Publish := { qos := .atLeastOnce, topic := "a", payload := [1] }
    let c := (initial {} none : Courier Table).after
      (List.replicate 65535 .nextPacketId ++ [.enqueue m .origin, .releasePacketId 1])
    c.queue.toList = [m] ∧ c.window.toList = [] ∧ c.ids.contains 1 = false ∧ ¬ c.IsSaturated := by
  intro m c
  let c₀ : Courier Table := initial {} none
  obtain ⟨ids, lent, taken⟩ := after_replicate_nextPacketId c₀ rfl (m := 0) (n := 65535)
    (Nat.le_refl _) rfl fun i => by simp [c₀, contains_initial]
  have sound : ids.IsSound := by
    have d : c₀.Disciplined ∅ := disciplined_initial {} none
    have d' := (d.trace (List.replicate 65535 .nextPacketId)).2
    rw [lent] at d'
    exact d'.ids
  have none : ids.allocate? = none := by
    rw [IdPool.allocate?_eq_none_iff sound.next]
    intro id ne
    obtain ⟨k, lt, same⟩ := IdPool.exists_iterate_successor (by decide : (1 : UInt16) ≠ 0) ne
    exact (taken id).mpr ⟨k, lt, same⟩
  -- the message joins the queue and stays there
  have waits : (Courier.call { c₀ with ids } (.enqueue m .origin)).2 =
      { c₀ with ids, queue := c₀.queue.push m } := by
    have stays : Courier.drain { c₀ with ids, queue := c₀.queue.push m } .origin =
        ([], { c₀ with ids, queue := c₀.queue.push m }) :=
      fill_of_exhausted none
    change (match Courier.drain { c₀ with ids, queue := c₀.queue.push m } .origin with
      | (sent, c) => (sent, c)).2 = _
    rw [stays]
  have returned : c = { c₀ with ids := ids.release 1, queue := c₀.queue.push m } := by
    change Courier.after c₀ _ = _
    rw [after_append, lent]
    show ((Courier.call { c₀ with ids } (.enqueue m .origin)).2.call (.releasePacketId 1)).2 = _
    rw [waits]
    rfl
  have free : (ids.release 1).contains 1 = false := IdPool.contains_release_self ids 1
  rw [returned]
  refine ⟨rfl, rfl, free, fun saturated => ?_⟩
  obtain full | taken := saturated (List.cons_ne_nil m [])
  · exact absurd full (by decide : ¬ capacity {} ≤ 0)
  · exact Bool.noConfusion (free.symm.trans (taken 1 (by decide)))

end MqttClient.Courier
