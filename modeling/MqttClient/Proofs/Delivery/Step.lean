import MqttClient.Proofs.Delivery.Event
import MqttClient.Proofs.Delivery.Window
import Mathlib.Tactic.Common

/-!
# Steps of a courier

Every call of a courier is a run of small steps, each of which is about one message, one packet in
flight or one identifier. What every step preserves is preserved by every call, and what happens in
a call is what happens in its steps, in their order.
-/

namespace MqttClient.Courier
variable {σ : Type} [RecordStore σ]

/-- A step at a point in time. Between the states stands what happens in the step. -/
inductive Step (now : Instant) : Courier σ → List Event → Courier σ → Prop where
  /-- The packets of the archive are taken up. -/
  | restore {c} : c.restored = false →
      Step now c (((c.restore now).window.toList.map Inflight.packet).map .takenUp) (c.restore now)
  /-- A message without acknowledgment passes. -/
  | pass {c m} : c.restored = true → m.isAcknowledged = false → m.packetId = 0 →
      Step now c [.sent (.publish m)] c
  /-- A message joins the queue. -/
  | accept {c m} : c.restored = true → c.pending < c.settings.queueCapacity.toNat →
      m.isAcknowledged = true → m.topic ≠ "" → m.dup = false → m.packetId = 0 →
      Step now c [.queued m] { c with queue := c.queue.push m }
  /-- The first message of the queue enters the window. -/
  | send {c m queue id ids} : c.restored = true → c.window.size < capacity c.settings →
      c.ids.allocate? = some (id, ids) → c.queue.pop? = some (m, queue) →
      Step now c [.entered (.publish { m with packetId := id })]
        { c with
          queue
          ids
          archive := c.archive.save (.publish { m with packetId := id })
          window := c.window.push ⟨.publish { m with packetId := id }, now⟩ }
  /-- A release takes the place of its message. -/
  | release {c id before e after} : c.restored = true →
      splitAt? id .pubrec c.window.toList = some (before, e, after) →
      Step now c [.acknowledged id .pubrec, .sent (.pubrel { packetId := id })]
        { c with
          window := .ofList (before ++ ⟨.pubrel { packetId := id }, now⟩ :: after)
          archive := (c.archive.save (.pubrel { packetId := id })).drop e.packet }
  /-- A handshake ends. -/
  | complete {c id kind before e after} : c.restored = true → kind ≠ .pubrec →
      splitAt? id kind c.window.toList = some (before, e, after) →
      Step now c [.acknowledged id kind]
        { c with
          window := .ofList (before ++ after)
          archive := c.archive.drop e.packet
          ids := c.ids.release id }
  /-- A packet in flight is sent once more. -/
  | resend {c before e after} : c.restored = true → c.window.toList = before ++ e :: after →
      e.isDue now c.settings.retryInterval = true →
      Step now c [.sent (e.again now).packet]
        { c with
          window := .ofList (before ++ e.again now :: after)
          archive := c.archive.save (e.again now).packet }
  /-- All packets in flight are sent once more as they are. -/
  | replay {c} : c.restored = true →
      Step now c ((c.window.toList.map Inflight.packet).map .sent)
        { c with window := .ofList (c.window.toList.map fun e => { e with lastSent := now }) }
  /-- The window is laid out anew with the same packets. -/
  | settle {c window} : window.toList = c.window.toList → Step now c [] { c with window }
  /-- Everything is dropped. -/
  | clean {c} : Step now c [.cleaned] c.cleanAll
  /-- An identifier is taken for a subscription. -/
  | take {c id ids} : c.restored = true → c.ids.allocate? = some (id, ids) →
      Step now c [.lent id] { c with ids }
  /-- An identifier that is not in flight is given back. -/
  | giveBack {c id} : (∀ e ∈ c.window.toList, e.packetId ≠ id) →
      Step now c [.returned id] { c with ids := c.ids.release id }
  /-- An identifier that is in flight stays taken. -/
  | retain {c id} : (∃ e ∈ c.window.toList, e.packetId = id) → Step now c [.returned id] c

/-- A run of steps at a point in time. -/
inductive Run (now : Instant) : Courier σ → List Event → Courier σ → Prop where
  | refl {c} : Run now c [] c
  | step {c c' c'' es es'} : Step now c es c' → Run now c' es' c'' → Run now c (es ++ es') c''

/-- A run of steps, as far as messages enter the window and packets are sent. -/
def Steps (now : Instant) (c : Courier σ) (new sent : List Packet) (c' : Courier σ) : Prop :=
  ∃ es, Run now c es c' ∧ entries es = new ∧ packets es = sent

variable {now : Instant} {c c' c'' : Courier σ} {es es' : List Event} {new sent : List Packet}

/-- A single step is a run. -/
lemma Step.run (h : Step now c es c') : Run now c es c' := by
  have run := Run.step h .refl
  rwa [List.append_nil] at run

/-- A run goes on behind another one. -/
lemma Run.trans (h : Run now c es c') (h' : Run now c' es' c'') : Run now c (es ++ es') c'' := by
  induction h with
  | refl => exact h'
  | step first _ ih =>
    rw [List.append_assoc]
    exact .step first (ih h')

/-- The packets of the archive are taken up once. -/
lemma Run.restored (run : Run now c es c') (restored : c.restored = true) : c'.restored = true := by
  induction run with
  | refl => exact restored
  | step first _ ih =>
    apply ih
    cases first with
    | restore => exact restored_restore ..
    | clean => rfl
    | _ => exact restored

/-- Only messages enter the window. -/
lemma Run.exists_publish (run : Run now c es c') : ∀ p ∈ entries es, ∃ m, p = .publish m := by
  induction run with
  | refl => exact List.forall_mem_nil _
  | step first _ ih =>
    rw [entries_append, List.forall_mem_append]
    refine ⟨?_, ih⟩
    cases first with
    | send => exact fun p mem => ⟨_, List.mem_singleton.mp mem⟩
    | restore =>
      rw [entries_takenUp]
      exact List.forall_mem_nil _
    | replay =>
      rw [entries_sent]
      exact List.forall_mem_nil _
    | _ => exact List.forall_mem_nil _

/-- Only messages enter the window. -/
lemma Steps.exists_publish (run : Steps now c new sent c') : ∀ p ∈ new, ∃ m, p = .publish m := by
  obtain ⟨es, run, rfl, -⟩ := run
  exact run.exists_publish

/-- The packets of the archive are taken up in the first call that asks for it. -/
lemma run_restore (c : Courier σ) (op : Call) (h : op.restores = true) :
    Run op.time c ((c.takenUp op).map .takenUp) (c.restore op.time) := by
  cases restored : c.restored with
  | false =>
    rw [takenUp, h, restored]
    exact (Step.restore restored).run
  | true =>
    rw [takenUp, h, restored, restore, if_pos restored]
    exact .refl

/-- Moving messages into the window is a run of steps, one for each message. -/
lemma run_fill (now : Instant) {room : Nat} (restored : c.restored = true)
    (fits : c.window.size + room ≤ capacity c.settings) :
    Run now c ((c.fill now room).1.map .entered) (c.fill now room).2 := by
  induction room generalizing c with
  | zero => exact .refl
  | succ room ih =>
    unfold fill
    split
    · exact .refl
    · rename_i id ids free
      split
      · exact .refl
      · rename_i m queue first
        have first' : Step now c [.entered _] _ := .send restored (by omega) free first
        have run := ih (c := { c with
          queue
          ids
          archive := c.archive.save (.publish { m with packetId := id })
          window := c.window.push ⟨.publish { m with packetId := id }, now⟩ }) restored (by
            rw [Fifo.size_eq_length, Fifo.toList_push, List.length_append, ← Fifo.size_eq_length]
            simp only [List.length_singleton]
            omega)
        exact .step first' run

/-- The window has room for less than 65536 messages. -/
lemma run_drain (now : Instant) (restored : c.restored = true) :
    (c.drain now).1.length ≤ 65535 ∧
      Run now c ((c.drain now).1.map .entered) (c.drain now).2 := by
  have bound : capacity c.settings < 65536 := UInt16.toNat_lt _
  have le : (c.drain now).1.length ≤ capacity c.settings - c.window.size := length_fill_le ..
  refine ⟨by omega, ?_⟩
  by_cases full : capacity c.settings ≤ c.window.size
  · rw [drain, Nat.sub_eq_zero_of_le full]
    exact .refl
  · exact run_fill now restored (by omega)

/-- Draining is a run in which no more messages enter than there are identifiers. -/
lemma steps_drain (now : Instant) (restored : c.restored = true) :
    (c.drain now).1.length ≤ 65535 ∧
      Steps now c (c.drain now).1 (c.drain now).1 (c.drain now).2 := by
  obtain ⟨le, run⟩ := run_drain now restored
  exact ⟨le, _, run, entries_entered _, packets_entered _⟩

/-- Sending packets again is a run of steps, one for each packet that is due. -/
lemma run_resend (now : Instant) {window : List Inflight} (before : List Inflight)
    (restored : c.restored = true) (split : c.window.toList = before ++ window) :
    Run now c ((resend now c.settings.retryInterval window c.archive).1.map .sent)
      { c with
        window := .ofList
          (before ++ (resend now c.settings.retryInterval window c.archive).2.1)
        archive := (resend now c.settings.retryInterval window c.archive).2.2 } := by
  -- the packets that were looked at stand in front, with those that were sent again
  induction window generalizing c before with
  | nil =>
    refine (Step.settle ?_).run
    rw [Fifo.toList_ofList, split, resend]
  | cons e window ih =>
    unfold resend
    split
    · rename_i due
      have once := Step.resend restored split due
      have split' : (Fifo.ofList (before ++ e.again now :: window)).toList =
          before ++ [e.again now] ++ window := by
        rw [Fifo.toList_ofList, List.append_assoc, List.singleton_append]
      have rest := ih (before ++ [e.again now]) (c := { c with
        window := .ofList (before ++ e.again now :: window)
        archive := c.archive.save (e.again now).packet }) restored split'
      rw [List.append_assoc, List.singleton_append] at rest
      exact .step once rest
    · have split' : c.window.toList = before ++ [e] ++ window := by
        rw [split, List.append_assoc, List.singleton_append]
      have rest := ih (before ++ [e]) restored split'
      rw [List.append_assoc, List.singleton_append] at rest
      exact rest

/-- Taking a message for delivery is a run, with the events of the call. -/
lemma run_enqueue (c : Courier σ) (m : Publish) (now : Instant) :
    (c.entered (.enqueue m now)).length ≤ 65535 ∧
      Run now c (c.events (.enqueue m now)) (c.call (.enqueue m now)).2 := by
  by_cases named : m.topic.isEmpty = true
  · simp only [events, takenUp, prompts, resent, entered, call, enqueue_of_unnamed named,
      Call.restores, named, Bool.not_true, Bool.false_and, Bool.false_eq_true, if_false, ite_self]
    exact ⟨Nat.zero_le _, .refl⟩
  have first := run_restore c (.enqueue m now) (by simpa [Call.restores] using named)
  have restored := restored_restore c now
  by_cases full : (c.restore now).settings.queueCapacity.toNat ≤ (c.restore now).pending
  · simp only [events, prompts, resent, entered, call, enqueue_of_full named full, ite_self,
      List.map_nil, List.append_nil]
    exact ⟨Nat.zero_le _, first⟩
  by_cases acknowledged : m.isAcknowledged = true
  -- the message joins the queue even if it leaves it at once
  · have accepted : Step now (c.restore now) [.queued _] _ :=
      .accept (m := { m with dup := false, packetId := 0 }) restored (by omega) acknowledged
        (by simpa using named) rfl rfl
    obtain ⟨le, drained⟩ := run_drain now (c := { c.restore now with
      queue := (c.restore now).queue.push { m with dup := false, packetId := 0 } }) restored
    have taken := enqueue_of_acknowledged named full acknowledged
    simp only [events, prompts, resent, entered, call, taken, Prod.map, id, acknowledged, if_true,
      List.map_nil, List.append_nil, List.append_assoc]
    exact ⟨le, first.trans (.step accepted drained)⟩
  · have plain : m.isAcknowledged = false := Bool.eq_false_iff.mpr acknowledged
    have passed : Step now (c.restore now) [.sent _] _ :=
      .pass (m := { m with dup := false, packetId := 0 }) restored plain rfl
    have taken := enqueue_of_plain named full acknowledged
    simp only [events, prompts, resent, entered, call, taken, plain, Bool.false_eq_true, if_false,
      List.append_nil, List.map_cons, List.map_nil]
    exact ⟨Nat.zero_le _, first.trans passed.run⟩

/-- An acknowledgment is a run, with the events of the call. -/
lemma run_acknowledge (c : Courier σ) (id : UInt16) (kind : AckKind) (now : Instant) :
    (c.entered (.acknowledge id kind now)).length ≤ 65535 ∧
      Run now c (c.events (.acknowledge id kind now)) (c.acknowledge id kind now).2 := by
  have first := run_restore c (.acknowledge id kind now) rfl
  have restored := restored_restore c now
  cases found : splitAt? id kind (c.restore now).window.toList with
  | none =>
    simp only [events, prompts, resent, entered, acknowledge_of_none found, found,
      Option.isSome_none, ite_self, Bool.false_eq_true, if_false, List.map_nil, List.append_nil]
    exact ⟨Nat.zero_le _, first⟩
  | some parts =>
    obtain ⟨before, e, after⟩ := parts
    by_cases received : kind = .pubrec
    · subst received
      have released := (Step.release restored found : Step now _ _ _).run
      simp only [events, prompts, resent, entered, acknowledge_of_pubrec found, found,
        Option.isSome_some, if_true, List.map_cons, List.map_nil, List.append_nil,
        List.append_assoc]
      exact ⟨Nat.zero_le _, first.trans released⟩
    · have completed : Step now (c.restore now) [.acknowledged id kind] _ :=
        .complete restored received found
      obtain ⟨le, drained⟩ := run_drain now (c := { c.restore now with
        window := .ofList (before ++ after)
        archive := (c.restore now).archive.drop e.packet
        ids := (c.restore now).ids.release id }) restored
      simp only [events, prompts, resent, entered, acknowledge_of_ends received found, found,
        received, Option.isSome_some, if_true, if_false, List.map_nil, List.append_nil,
        List.append_assoc]
      exact ⟨le, first.trans (.step completed drained)⟩

/-- Sending again is a run, with the events of the call. -/
lemma run_retry (c : Courier σ) (now : Instant) :
    Run now c (c.events (.retry now)) (c.retry now).2 := by
  have first := run_restore c (.retry now) rfl
  have again := run_resend now [] (restored_restore c now) (List.nil_append _).symm
  simp only [events, prompts, resent, entered, List.map_nil, List.append_nil]
  exact first.trans again

/-- What is in flight goes out before the messages that enter the window. -/
lemma recover_fst (c : Courier σ) (now : Instant) :
    (c.recover now).1 = c.resent (.recover now) ++ c.entered (.recover now) := by
  unfold resent entered recover
  simp only [Inflight.map_packet_stamp]
  rw [List.drop_left' (List.length_map ..)]

/-- Recovering is a run, with the events of the call. -/
lemma run_recover (c : Courier σ) (now : Instant) :
    (c.entered (.recover now)).length ≤ 65535 ∧
      Run now c (c.events (.recover now)) (c.recover now).2 := by
  have restored := restored_restore c now
  have again : Step now (c.restore now) (.map .sent _) _ := .replay restored
  obtain ⟨le, drained⟩ := run_drain now (c := { c.restore now with
    window := .ofList ((c.restore now).window.toList.map fun e => { e with lastSent := now }) })
    restored
  have first := run_restore c (.recover now) rfl
  have run := first.trans (.step again drained)
  unfold events prompts resent entered recover
  simp only [Inflight.map_packet_stamp, List.append_nil, List.append_assoc]
  rw [List.drop_left' (List.length_map ..)]
  exact ⟨le, run⟩

/-- Lending an identifier is a run, with the events of the call. -/
lemma run_nextPacketId (c : Courier σ) :
    Run .origin c (c.events .nextPacketId) c.nextPacketId.2 := by
  have first := run_restore c .nextPacketId rfl
  cases free : (c.restore .origin).ids.allocate? with
  | none =>
    have refused : c.nextPacketId = (.error .packetIdsExhausted, c.restore .origin) := by
      rw [nextPacketId, free]
    simp only [events, prompts, resent, entered, refused, List.map_nil, List.append_nil]
    exact first
  | some taken =>
    obtain ⟨id, ids⟩ := taken
    have given : c.nextPacketId = (.ok id, { c.restore .origin with ids }) := by
      rw [nextPacketId, free]
    simp only [events, prompts, resent, entered, given, List.map_nil, List.append_nil]
    exact first.trans (Step.take (restored_restore c .origin) free).run

/-- Every call is a run of steps, in which happens what happens in the call. Less than 65536
messages enter the window. -/
theorem run_call (c : Courier σ) (op : Call) :
    (c.entered op).length ≤ 65535 ∧ Run op.time c (c.events op) (c.call op).2 := by
  cases op with
  | enqueue m now => exact run_enqueue c m now
  | acknowledge id kind now => exact run_acknowledge c id kind now
  | retry now => exact ⟨Nat.zero_le _, run_retry c now⟩
  | recover now => exact run_recover c now
  | connected cleanSession now =>
    cases cleanSession with
    | true => exact ⟨Nat.zero_le _, Step.clean.run⟩
    | false => exact run_recover c now
  | cleanAll => exact ⟨Nat.zero_le _, Step.clean.run⟩
  | nextPacketId => exact ⟨Nat.zero_le _, run_nextPacketId c⟩
  | releasePacketId id =>
    refine ⟨Nat.zero_le _, ?_⟩
    simp only [call, releasePacketId]
    split
    · rename_i present
      exact (Step.retain (by simpa using present)).run
    · rename_i absent
      exact (Step.giveBack (by simpa using absent)).run

/-- What calls for other events shows no packet. -/
lemma shown_prompts (c : Courier σ) (op : Call) : shown (c.prompts op) = [] := by
  cases op with
  | enqueue m now =>
    simp only [prompts]
    split
    · by_cases acknowledged : m.isAcknowledged = true
      · rw [if_pos acknowledged]
        rfl
      · rw [if_neg acknowledged]
        rfl
    · rfl
  | acknowledge id kind now =>
    simp only [prompts]
    split <;> rfl
  | nextPacketId =>
    simp only [prompts]
    split <;> rfl
  | connected cleanSession now => cases cleanSession <;> rfl
  | _ => rfl

/-- What calls for the events of a call sends nothing and lets nothing enter. -/
lemma packets_prompts (c : Courier σ) (op : Call) :
    packets (c.prompts op) = [] ∧ entries (c.prompts op) = [] :=
  packets_of_shown (shown_prompts c op)

/-- What a call returns is what is sent by it, with the messages that enter the window last. -/
lemma fst_call (c : Courier σ) (op : Call) : (c.call op).1 = c.resent op ++ c.entered op := by
  cases op with
  | enqueue m now =>
    simp only [resent, entered]
    split <;> simp
  | acknowledge id kind now =>
    simp only [call, resent, entered]
    split <;> simp
  | retry now => exact (List.append_nil _).symm
  | recover now => exact recover_fst c now
  | connected cleanSession now =>
    cases cleanSession with
    | true => rfl
    | false => exact recover_fst c now
  | _ => rfl

/-- The packets of the events of a call are those that it returns. -/
theorem packets_events (c : Courier σ) (op : Call) : packets (c.events op) = (c.call op).1 := by
  simp [events, packets_prompts, fst_call]

/-- The messages that enter in the events of a call are those that enter in it. -/
theorem entries_events (c : Courier σ) (op : Call) : entries (c.events op) = c.entered op := by
  simp [events, packets_prompts]

/-- What comes to light in a call is what is taken up in it and what it returns. -/
theorem shown_events (c : Courier σ) (op : Call) :
    shown (c.events op) = c.takenUp op ++ (c.call op).1 := by
  simp [events, shown_prompts, fst_call]

/-- Every call is a run of steps, and less than 65536 messages enter the window in it. -/
theorem steps_call (c : Courier σ) (op : Call) :
    (c.entered op).length ≤ 65535 ∧
      Steps op.time c (c.entered op) (c.call op).1 (c.call op).2 := by
  obtain ⟨le, run⟩ := run_call c op
  exact ⟨le, _, run, entries_events c op, packets_events c op⟩

/-- The packets of a trace are the packets that the calls return. -/
theorem packets_trace (c : Courier σ) (ops : List Call) :
    packets (c.trace ops) = c.returned ops := by
  induction ops generalizing c with
  | nil => rfl
  | cons op ops ih => rw [trace, returned, packets_append, packets_events, ih]

/-- The settings are those that a courier began with. -/
lemma settings_run (run : Run now c es c') : c'.settings = c.settings := by
  induction run with
  | refl => rfl
  | step first _ ih =>
    rw [ih]
    cases first with
    | restore => exact settings_restore ..
    | _ => rfl

/-- No call changes the settings. -/
lemma settings_after (c : Courier σ) (ops : List Call) : (c.after ops).settings = c.settings := by
  induction ops generalizing c with
  | nil => rfl
  | cons op ops ih => exact (ih _).trans (settings_run (run_call c op).2)

end MqttClient.Courier
