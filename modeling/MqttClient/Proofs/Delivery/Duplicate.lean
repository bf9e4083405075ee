import MqttClient.Proofs.Delivery.Discipline
import MqttClient.Store.Table

/-!
# Acknowledgments that come twice

An acknowledgment that comes once more is ignored unless the first one handed its identifier on: it
ended a handshake, a message of quality of service 1 entered the window under the same identifier,
and the message is taken for acknowledged too.
-/

namespace MqttClient.Courier
variable {σ : Type} [RecordStore σ] {c : Courier σ} {out : Finset UInt16} {id : UInt16}
  {kind : AckKind}

/-- Whether an acknowledgment returns nothing and changes neither the queue nor the window nor the
identifiers that are taken. -/
def Ignores (c : Courier σ) (id : UInt16) (kind : AckKind) (now : Instant) : Prop :=
  (c.acknowledge id kind now).1 = [] ∧
    (c.acknowledge id kind now).2.queue.toList = c.queue.toList ∧
    (c.acknowledge id kind now).2.window.toList = c.window.toList ∧
    ∀ i, (c.acknowledge id kind now).2.ids.contains i = c.ids.contains i

/-- What a packet in flight waits for is never ignored. -/
lemma Disciplined.ignores_iff (h : c.Disciplined out) (restored : c.restored = true)
    (now : Instant) :
    c.Ignores id kind now ↔ ∀ e ∈ c.window.toList, e.packetId = id → e.awaits kind = false := by
  rw [← splitAt?_eq_none_iff]
  have same : c.restore now = c := if_pos restored
  constructor
  · rintro ⟨silent, -, -, contains⟩
    cases found : splitAt? id kind c.window.toList with
    | none => rfl
    | some parts =>
      obtain ⟨before, e, after⟩ := parts
      exfalso
      obtain ⟨window, rfl, -⟩ := splitAt?_eq_some found
      have flying : e.packetId ∈ c.flying := by
        rw [Courier.flying, window, List.map_append, List.map_cons]
        exact List.mem_append_cons_self
      have found' : splitAt? e.packetId kind (c.restore now).window.toList =
          some (before, e, after) := by
        rw [same, found]
      by_cases release : kind = .pubrec
      · subst release
        rw [acknowledge_of_pubrec found'] at silent
        cases silent
      · -- if no message enters, the identifier is free now
        have free := contains e.packetId
        rw [acknowledge_of_ends release found', drain] at silent free
        rw [fill_eq_self _ _ _ silent, (h.taken _).mpr (.inl flying),
          IdPool.contains_release_self] at free
        cases free
  · intro none
    have none' : splitAt? id kind (c.restore now).window.toList = Option.none := by
      rw [same, none]
    rw [Ignores, acknowledge_of_none none', same]
    exact ⟨rfl, rfl, rfl, fun _ => rfl⟩

/-- Draining takes nothing up. -/
lemma restored_drain (c : Courier σ) (now : Instant) : (c.drain now).2.restored = c.restored := by
  obtain ⟨queue, ids, archive, filled⟩ := fill_snd now (capacity c.settings - c.window.size) c
  rw [drain, filled]

/-- Behind an acknowledgment the packets of the archive are taken up. -/
lemma restored_acknowledge (c : Courier σ) (id : UInt16) (kind : AckKind) (now : Instant) :
    (c.acknowledge id kind now).2.restored = true := by
  have restored := restored_restore c now
  cases found : splitAt? id kind (c.restore now).window.toList with
  | none =>
    rw [acknowledge_of_none found]
    exact restored
  | some parts =>
    obtain ⟨before, e, after⟩ := parts
    by_cases release : kind = .pubrec
    · subst release
      rw [acknowledge_of_pubrec found]
      exact restored
    · rw [acknowledge_of_ends release found, restored_drain]
      exact restored

/-- After the end of a handshake, only a message that enters the window is in flight under its
identifier. -/
lemma Disciplined.mem_window_of_complete (h : c.Disciplined out) {before after : List Inflight}
    {e : Inflight} (window : c.window.toList = before ++ e :: after) (restored : c.restored = true)
    (archive : Archive σ) (now : Instant) (f : Inflight) :
    let d : Courier σ := { c with
      window := .ofList (before ++ after)
      archive
      ids := c.ids.release e.packetId }
    f ∈ (d.drain now).2.window.toList ∧ f.packetId = e.packetId ↔
      ∃ m, .publish m ∈ (d.drain now).1 ∧ m.packetId = e.packetId ∧ f = ⟨.publish m, now⟩ := by
  intro d
  have h' : d.Disciplined out := h.remove window restored archive
  obtain ⟨queue, ids, archive, filled⟩ := fill_snd now (capacity d.settings - d.window.size) d
  rw [drain, filled, Fifo.toList_pushAll, List.mem_append]
  constructor
  · rintro ⟨mem | mem, under⟩
    · -- the identifier is free, so none of the others has it
      obtain ⟨grounded, -⟩ := h'.unowned (IdPool.contains_release_self ..)
      exact absurd (List.mem_map.mpr ⟨f, mem, under⟩) grounded
    · obtain ⟨p, entered, rfl⟩ := List.mem_map.mp mem
      obtain ⟨m, rfl⟩ := (steps_drain now (c := d) restored).2.exists_publish p entered
      rw [Inflight.packetId_publish] at under
      exact ⟨m, entered, under, rfl⟩
  · rintro ⟨m, entered, under, rfl⟩
    rw [Inflight.packetId_publish]
    exact ⟨.inr (List.mem_map_of_mem entered), under⟩

/-- What waits for an acknowledgment that came before is a message of quality of service 1 that
entered the window under its identifier. -/
lemma Disciplined.awaits_again_iff (h : c.Disciplined out) (id : UInt16) (kind : AckKind)
    (now : Instant) :
    (∃ e ∈ (c.acknowledge id kind now).2.window.toList, e.packetId = id ∧ e.awaits kind = true) ↔
      kind = .puback ∧ ∃ m, .publish m ∈ (c.acknowledge id kind now).1 ∧ m.packetId = id ∧
        m.qos = .atLeastOnce := by
  have h' := (h.run (run_call c (.acknowledge id kind now)).2).2
  have h₀ : (c.restore now).Disciplined _ :=
    (h.run (run_restore c (.acknowledge id kind now) rfl)).2
  have restored := restored_restore c now
  cases found : splitAt? id kind (c.restore now).window.toList with
  | none =>
    rw [acknowledge_of_none found]
    constructor
    · rintro ⟨e, mem, under, awaits⟩
      have quiet := splitAt?_eq_none_iff.mp found e mem under
      exact Bool.noConfusion (quiet.symm.trans awaits)
    · rintro ⟨-, m, sent, -⟩
      cases sent
  | some parts =>
    obtain ⟨before, e, after⟩ := parts
    obtain ⟨window, rfl, awaits⟩ := splitAt?_eq_some found
    by_cases release : kind = .pubrec
    · subst release
      have released : (c.acknowledge e.packetId .pubrec now).2.window.toList =
          before ++ ⟨.pubrel { packetId := e.packetId }, now⟩ :: after := by
        rw [acknowledge_of_pubrec found, Fifo.toList_ofList]
      constructor
      · rintro ⟨f, mem, under, awaits⟩
        -- no other packet shares the identifier of the release
        have release : f = ⟨.pubrel { packetId := e.packetId }, now⟩ := by
          apply h'.eq_of_packetId mem
          · show _ ∈ (c.acknowledge e.packetId .pubrec now).2.window.toList
            rw [released]
            exact List.mem_append_right _ (List.mem_cons_self ..)
          · exact under
        rw [release] at awaits
        cases awaits
      · rintro ⟨⟨⟩, -⟩
    · have entered := h₀.mem_window_of_complete window restored
        ((c.restore now).archive.drop e.packet) now
      rw [acknowledge_of_ends release found]
      constructor
      · rintro ⟨f, mem, under, awaits⟩
        obtain ⟨m, sent, named, rfl⟩ := (entered f).mp ⟨mem, under⟩
        obtain ⟨_, ⟨⟩, ⟨qos, rfl⟩ | ⟨-, rfl⟩⟩ | ⟨_, ⟨⟩, -⟩ := Inflight.awaits_eq_true_iff.mp awaits
        · exact ⟨rfl, m, sent, named, qos⟩
        · exact absurd rfl release
      · rintro ⟨rfl, m, sent, named, qos⟩
        obtain ⟨mem, under⟩ := (entered ⟨.publish m, now⟩).mpr ⟨m, sent, named, rfl⟩
        exact ⟨_, mem, under, Inflight.awaits_eq_true_iff.mpr (.inl ⟨m, rfl, .inl ⟨qos, rfl⟩⟩)⟩

/-- In every state of a courier, an acknowledgment that comes twice is ignored the second time,
unless the first time a message of quality of service 1 entered the window under its identifier. -/
theorem ignores_again_iff (settings : Settings) (session : Option (Journal × σ)) (ops : List Call)
    (id : UInt16) (kind : AckKind) (now later : Instant) :
    let c := (initial settings session).after ops
    (c.acknowledge id kind now).2.Ignores id kind later ↔
      ¬ (kind = .puback ∧ ∃ m, .publish m ∈ (c.acknowledge id kind now).1 ∧ m.packetId = id ∧
        m.qos = .atLeastOnce) := by
  intro c
  have h := ((disciplined_initial settings session).trace ops).2
  have h' : (c.acknowledge id kind now).2.Disciplined _ :=
    (h.run (run_call c (.acknowledge id kind now)).2).2
  rw [← h.awaits_again_iff, h'.ignores_iff (restored_acknowledge c id kind now)]
  constructor
  · rintro quiet ⟨e, mem, under, awaits⟩
    exact Bool.noConfusion ((quiet e mem under).symm.trans awaits)
  · intro none e mem under
    rw [Bool.eq_false_iff]
    exact fun awaits => none ⟨e, mem, under, awaits⟩

/-- A message that was stored is taken up under the first identifier. Its acknowledgment hands the
identifier on to a message that waits, and the second acknowledgment ends the handshake of that
one. -/
theorem not_ignores_again_of_restart :
    let settings : Settings := { inflightWindow := 1, queueCapacity := 100 }
    let m : Publish := { qos := .atLeastOnce, topic := "a", payload := [1] }
    let m' : Publish := { qos := .atLeastOnce, topic := "b", payload := [2] }
    let stored := (initial settings (some (⟨[0, 1, 97], .v311, 0⟩, Table.empty))).after
      [.enqueue m .origin]
    let session := stored.archive.store?.bind fun s =>
      match Journal.openFor "a" .v311 s with
      | (.ok j, s) => some (j, s)
      | (.error _, _) => none
    let c := (initial settings session).after [.enqueue m' .origin]
    let once := c.acknowledge 1 .puback .origin
    once.1 = [.publish { m' with packetId := 1 }] ∧
      (once.2.acknowledge 1 .puback .origin).2.window.toList = [] ∧
      ¬ once.2.Ignores 1 .puback .origin := by
  intro settings m m' stored session c once
  have twice : (once.2.acknowledge 1 .puback .origin).2.window.toList = [] := by decide +kernel
  refine ⟨by decide +kernel, twice, ?_⟩
  rintro ⟨-, -, window, -⟩
  have entered : once.2.window.toList ≠ [] := by decide +kernel
  exact entered (window.symm.trans twice)

end MqttClient.Courier
