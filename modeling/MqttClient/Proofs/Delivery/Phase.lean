import MqttClient.Proofs.Delivery.Event

/-!
# Phases of an identifier

What can happen under one packet identifier is a small automaton: its states are the phases of the
identifier, its letters the events that concern it. Every path of the automaton sends a message
before its release, and nothing after the end of the handshake.
-/

namespace MqttClient.Courier

/-- What an identifier is used for. -/
inductive Phase where
  /-- Nothing has happened under the identifier yet. -/
  | untouched
  /-- The identifier is free again. -/
  | idle
  /-- The identifier is lent for a subscription. -/
  | lent
  /-- A packet is in flight under the identifier. -/
  | flying (p : Packet)

/-- Whether an identifier is neither lent nor in flight. -/
def Phase.IsFree : Phase → Prop
  | untouched | idle => True
  | lent | flying _ => False

/-- What an event does to the phase of an identifier. -/
inductive Shifts (id : UInt16) : Phase → Event → Phase → Prop where
  /-- A packet of the archive is taken up before all else. -/
  | takeUp {p} : p.packetId? = some id → Shifts id .untouched (.takenUp p) (.flying p)
  /-- A message goes out for the first time, under an identifier that is free. -/
  | enter {φ m} : φ.IsFree → id ≠ 0 → m.packetId = id → m.isAcknowledged = true → m.dup = false →
      Shifts id φ (.entered (.publish m)) (.flying (.publish m))
  /-- A packet in flight goes out as it is. -/
  | again {p} : Shifts id (.flying p) (.sent p) (.flying p)
  /-- A message in flight goes out with the mark of being sent before. -/
  | mark {m} : Shifts id (.flying (.publish m)) (.sent (.publish { m with dup := true }))
      (.flying (.publish { m with dup := true }))
  /-- A handshake of quality of service 1 ends. -/
  | puback {m} : m.qos = .atLeastOnce →
      Shifts id (.flying (.publish m)) (.acknowledged id .puback) .idle
  /-- A release takes the place of a message of quality of service 2. -/
  | pubrec {m} : m.qos = .exactlyOnce → Shifts id (.flying (.publish m)) (.acknowledged id .pubrec)
      (.flying (.pubrel { packetId := id }))
  /-- A handshake of quality of service 2 ends. -/
  | pubcomp {a} : Shifts id (.flying (.pubrel a)) (.acknowledged id .pubcomp) .idle
  | clean {φ} : Shifts id φ .cleaned .idle
  | lend {φ} : φ.IsFree → Shifts id φ (.lent id) .lent
  | giveBack : Shifts id .lent (.returned id) .idle
  /-- Giving back an identifier that is not lent changes nothing. -/
  | keep {φ} : φ ≠ .lent → Shifts id φ (.returned id) φ

/-- A path of the automaton. -/
inductive Follows (id : UInt16) : Phase → List Event → Phase → Prop where
  | nil {φ} : Follows id φ [] φ
  | cons {φ φ' φ'' e es} : Shifts id φ e φ' → Follows id φ' es φ'' → Follows id φ (e :: es) φ''

/-- Whether an event is about an identifier. -/
def Event.concerns (id : UInt16) : Event → Bool
  | takenUp p | entered p | sent p => p.packetId? = some id
  | acknowledged i _ | lent i | returned i => i = id
  | cleaned => true
  | queued _ => false

variable {id : UInt16} {φ φ' φ'' : Phase} {es es' : List Event}

/-- A single event is a path. -/
lemma Shifts.follows {e : Event} (shift : Shifts id φ e φ') : Follows id φ [e] φ' :=
  .cons shift .nil

/-- A path goes on behind another one. -/
lemma Follows.append (first : Follows id φ es φ') (rest : Follows id φ' es' φ'') :
    Follows id φ (es ++ es') φ'' := by
  induction first with
  | nil => exact rest
  | cons shift _ ih => exact .cons shift (ih rest)

namespace Follows

/-- A path is cut between any two events. -/
lemma of_append (path : Follows id φ (es ++ es') φ'') :
    ∃ φ', Follows id φ es φ' ∧ Follows id φ' es' φ'' := by
  induction es generalizing φ with
  | nil => exact ⟨φ, .nil, path⟩
  | cons e es ih =>
    cases path with
    | cons shift path =>
      obtain ⟨φ', first, rest⟩ := ih path
      exact ⟨φ', .cons shift first, rest⟩

/-- Nothing is sent under an identifier that is not in flight. -/
lemma packets_eq_nil (path : Follows id φ es φ') (ended : φ = .idle ∨ φ = .lent)
    (same : entries es = []) : packets es = [] := by
  induction path with
  | nil => rfl
  | cons shift _ ih =>
    cases shift with
    | enter => cases same
    | puback => exact ih (.inl rfl) same
    | pubcomp => exact ih (.inl rfl) same
    | clean => exact ih (.inl rfl) same
    | lend => exact ih (.inr rfl) same
    | giveBack => exact ih (.inl rfl) same
    | keep => exact ih ended same
    | _ => exact absurd ended (by simp)

/-- After a release nothing but the release is sent. -/
lemma packets_release {a : Ack} (path : Follows id (.flying (.pubrel a)) es φ)
    (same : entries es = []) : ∃ n, packets es = List.replicate n (.pubrel a) := by
  generalize start : Phase.flying (.pubrel a) = φ₀ at path
  induction path with
  | nil => exact ⟨0, rfl⟩
  | cons shift path ih =>
    cases shift with
    | again =>
      cases start
      obtain ⟨n, sent⟩ := ih same rfl
      exact ⟨n + 1, congrArg (List.cons _) sent⟩
    | pubcomp => exact ⟨0, path.packets_eq_nil (.inl rfl) same⟩
    | clean => exact ⟨0, path.packets_eq_nil (.inl rfl) same⟩
    | keep => exact ih same start
    | enter => cases same
    | lend free =>
      cases start
      exact free.elim
    | _ => cases start

/-- What is sent of a message until another one takes its identifier: the message itself, whose mark
of being sent before stays once it is there, and after that its release, if the quality of service
asks for one. -/
theorem packets_publish {m : Publish} (path : Follows id (.flying (.publish m)) es φ)
    (same : entries es = []) :
    ∃ marks n, packets es = marks.map (fun dup => .publish { m with dup }) ++
        List.replicate n (.pubrel { packetId := id }) ∧
      (m.dup :: marks).Pairwise (fun dup dup' => dup = true → dup' = true) ∧
      (n ≠ 0 → m.qos = .exactlyOnce) := by
  generalize start : Phase.flying (.publish m) = φ₀ at path
  have done : (m.dup :: []).Pairwise (fun dup dup' => dup = true → dup' = true) :=
    List.pairwise_singleton ..
  -- each message that is sent once more is marked, and stays so; behind PUBREC come releases only
  induction path generalizing m with
  | nil => exact ⟨[], 0, rfl, done, fun ne => absurd rfl ne⟩
  | cons shift path ih =>
    cases shift with
    | again =>
      cases start
      obtain ⟨marks, n, sent, marked, release⟩ := ih same rfl done
      refine ⟨m.dup :: marks, n, congrArg (List.cons _) sent, ?_, release⟩
      rw [List.pairwise_cons]
      refine ⟨?_, marked⟩
      rw [List.forall_mem_cons]
      exact ⟨fun dup => dup, (List.pairwise_cons.mp marked).1⟩
    | mark =>
      cases start
      obtain ⟨marks, n, sent, marked, release⟩ := ih same rfl (List.pairwise_singleton ..)
      refine ⟨true :: marks, n, congrArg (List.cons _) sent, ?_, release⟩
      rw [List.pairwise_cons]
      refine ⟨?_, marked⟩
      rw [List.forall_mem_cons]
      exact ⟨fun _ => rfl, fun dup mem _ => (List.pairwise_cons.mp marked).1 dup mem rfl⟩
    | pubrec qos =>
      cases start
      obtain ⟨n, sent⟩ := path.packets_release same
      exact ⟨[], n, sent, done, fun _ => qos⟩
    | puback => exact ⟨[], 0, path.packets_eq_nil (.inl rfl) same, done, fun ne => absurd rfl ne⟩
    | clean => exact ⟨[], 0, path.packets_eq_nil (.inl rfl) same, done, fun ne => absurd rfl ne⟩
    | keep => exact ih same start done
    | enter => cases same
    | lend free =>
      cases start
      exact free.elim
    | _ => cases start

end Follows

end MqttClient.Courier
