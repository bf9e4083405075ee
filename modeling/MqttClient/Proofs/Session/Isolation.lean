import MqttClient.Proofs.Session.Journal
import MqttClient.Proofs.Session.Respect
import MqttClient.Proofs.Wire.Field

/-!
# Clients that share a store

Clients take turns at one store, each with any number of journals open. The keys of a client begin
with its identifier behind the length of it, so no key is one of two clients. What a client is
answered and what it keeps in the store is therefore what it would be if it were alone, whatever the
records of others are.
-/

namespace MqttClient
variable {σ : Type}

/-- Texts are told apart by their bytes. -/
lemma Bytes.ofText_inj {s s' : String} : ofText s = ofText s' ↔ s = s' := by
  refine ⟨fun same => ?_, congrArg ofText⟩
  rw [← Option.some_inj, ← toText?_ofText, same, toText?_ofText]

namespace Journal

/-- No key belongs to two clients, even where one identifier begins with the other. -/
lemma eq_of_prefix_startOf {a b k : Bytes} (ha : a.length < 65536) (hb : b.length < 65536)
    (front : startOf a <+: k) (front' : startOf b <+: k) : a = b := by
  obtain ⟨u, hu⟩ := front
  obtain ⟨u', hu'⟩ := front'
  have same := hu.trans hu'.symm
  unfold startOf at same
  rw [List.append_assoc, List.append_assoc] at same
  obtain ⟨lengths, rest⟩ := List.append_inj same <| by
    rw [Bytes.length_bigEndian, Bytes.length_bigEndian]
  exact (List.append_inj rest (Bytes.bigEndian_inj ha hb lengths)).1

/-- What a client does with a journal. -/
inductive Operation where
  | write (p : Packet)
  | remove (p : Packet)
  | readAll
  | takeAll
  | clear
  | size
  | isEmpty
  | synchronize

/-- What a client is told. -/
inductive Reply where
  | done
  | opened (j : Journal)
  | said (b : Bool)
  | packets (ps : List Packet)
  | count (n : Nat)
  deriving DecidableEq, Repr

variable [RecordStore σ]

/-- Does what is asked, and tells what comes of it. -/
def perform : Operation → JournalM σ Reply
  | .write p => return .said (← write p)
  | .remove p => do
    remove p
    return .done
  | .readAll => return .packets (← readAll)
  | .takeAll => return .packets (← takeAll)
  | .clear => do
    clear
    return .done
  | .size => return .count (← size)
  | .isEmpty => return .said (← isEmpty)
  | .synchronize => do
    synchronize
    return .done

/-- No journal is opened for a client whose identifier is too long. -/
lemma openFor_of_long {clientId : String} (long : 65536 ≤ (Bytes.ofText clientId).length)
    (v : Version) (s : σ) : openFor clientId v s = (.error .writeError, s) := by
  unfold openFor
  dsimp only
  rw [if_pos long]
  rfl

/-- Every operation respects what calls about the keys of its client respect. -/
lemma respects_perform {R : σ → σ → Prop} {start : Bytes} {own : Bytes → Prop}
    (calls : RespectedBy R start own) (h : ∀ kind id, own (keyAt start kind id)) (op : Operation) :
    Respects (Beside R start) (perform (σ := σ) op) := by
  cases op with
  | write p => exact (respects_write calls h p).bind fun _ _ => .pure _
  | remove p => exact (respects_remove calls h p).bind fun _ _ => .pure _
  | readAll => exact (respects_readAll calls).bind fun _ _ => .pure _
  | takeAll => exact (respects_takeAll calls).bind fun _ _ => .pure _
  | clear => exact (respects_clear calls).bind fun _ _ => .pure _
  | size => exact (respects_size calls).bind fun _ _ => .pure _
  | isEmpty => exact (respects_isEmpty calls).bind fun _ _ => .pure _
  | synchronize => exact (respects_onStore calls.flush).bind fun _ _ => .pure _

end Journal

namespace StoreView
variable {V : StoreView σ} {start : Bytes}

/-- Whether two stores agree on the keys of a client. -/
structure Agree (V : StoreView σ) (start : Bytes) (s s' : σ) : Prop where
  serves : V.Serves s
  serves' : V.Serves s'
  records_eq : ∀ k, start <+: k → V.records s k = V.records s' k

/-- Whether a store differs from an earlier state in the keys of a client only. -/
structure Differs (V : StoreView σ) (start : Bytes) (s₀ s s' : σ) : Prop where
  eq : s = s'
  serves : V.Serves s
  records_eq : ∀ k, ¬ start <+: k → V.records s k = V.records s₀ k

/-- Whether a key is one of a client and is taken. -/
def Owns (V : StoreView σ) (start key : Bytes) : Prop :=
  start <+: key ∧ V.takes key

/-- A change under a key leaves two stores agreed if it is the same in both. -/
lemma Agree.update {s s' t t' : σ} {key : Bytes} {value : Option Bytes} (h : V.Agree start s s')
    (serves : V.Serves t) (serves' : V.Serves t')
    (changed : V.records t = Function.update (V.records s) key value)
    (changed' : V.records t' = Function.update (V.records s') key value) : V.Agree start t t' := by
  refine ⟨serves, serves', fun k front => ?_⟩
  rw [changed, changed', Function.update_apply, Function.update_apply, h.records_eq k front]

/-- Stores with the same records as before agree as before. -/
lemma Agree.congr {s s' t t' : σ} (h : V.Agree start s s') (serves : V.Serves t)
    (serves' : V.Serves t') (same : V.records t = V.records s)
    (same' : V.records t' = V.records s') : V.Agree start t t' := by
  refine ⟨serves, serves', ?_⟩
  rw [same, same']
  exact h.records_eq

/-- A store that changes under a key of the client differs in keys of the client only. -/
lemma Differs.update {s₀ s t : σ} {key : Bytes} {value : Option Bytes} (front : start <+: key)
    (h : V.Differs start s₀ s s) (serves : V.Serves t)
    (changed : V.records t = Function.update (V.records s) key value) :
    V.Differs start s₀ t t := by
  refine ⟨rfl, serves, fun k other => ?_⟩
  have ne : k ≠ key := by
    rintro rfl
    exact other front
  rw [changed, Function.update_of_ne ne, h.records_eq k other]

/-- A store with the same records as before differs in the same keys. -/
lemma Differs.congr {s₀ s t : σ} (h : V.Differs start s₀ s s) (serves : V.Serves t)
    (same : V.records t = V.records s) : V.Differs start s₀ t t := by
  refine ⟨rfl, serves, ?_⟩
  rw [same]
  exact h.records_eq

variable [RecordStore σ] (law : V.Orderly)
include law

/-- The keys that are listed belong to the client. -/
lemma Orderly.owns_of_keys {s t : σ} {ks : List Bytes} (serves : V.Serves s)
    (answer : RecordStore.keys start s = (.ok ks, t)) : ∀ k ∈ ks, V.Owns start k := by
  obtain ⟨ks', t', e, -, -, mem, -⟩ := law.keys start serves
  rw [answer] at e
  cases e
  intro k hk
  obtain ⟨front, held⟩ := (mem k).mp hk
  exact ⟨front, law.takes serves.live held⟩

/-- What a store answers about the keys of a client, and how it changes them, depends on them
alone. -/
lemma Orderly.respectedBy_agree : RespectedBy (V.Agree start) start (V.Owns start) where
  get {key} own s s' h := by
    obtain ⟨t, e, serves, same⟩ := law.lawful.get_of_serves h.serves own.2
    obtain ⟨t', e', serves', same'⟩ := law.lawful.get_of_serves h.serves' own.2
    rw [e, e']
    exact ⟨congrArg Except.ok (h.records_eq key own.1), h.congr serves serves' same same'⟩
  put value own s s' h := by
    obtain ⟨t, e, serves, changed⟩ := law.lawful.put_of_serves h.serves own.2 value
    obtain ⟨t', e', serves', changed'⟩ := law.lawful.put_of_serves h.serves' own.2 value
    rw [e, e']
    exact ⟨rfl, h.update serves serves' changed changed'⟩
  remove own s s' h := by
    obtain ⟨t, e, serves, changed⟩ := law.lawful.remove_of_serves h.serves own.2
    obtain ⟨t', e', serves', changed'⟩ := law.lawful.remove_of_serves h.serves' own.2
    rw [e, e']
    exact ⟨rfl, h.update serves serves' changed changed'⟩
  keys s s' h := by
    obtain ⟨ks, t, e, serves, sorted, mem, same⟩ := law.keys start h.serves
    obtain ⟨ks', t', e', serves', sorted', mem', same'⟩ := law.keys start h.serves'
    rw [e, e']
    -- both list the same keys in ascending order
    refine ⟨congrArg Except.ok (sorted.eq_of_mem_iff sorted' fun k => ?_),
      h.congr serves serves' same same'⟩
    rw [mem, mem', and_congr_right]
    intro front
    rw [h.records_eq k front]
  listed h := law.owns_of_keys h.serves
  flush s s' h := by
    obtain ⟨t, e, serves, same⟩ := law.lawful.flush_of_serves h.serves
    obtain ⟨t', e', serves', same'⟩ := law.lawful.flush_of_serves h.serves'
    rw [e, e']
    exact ⟨rfl, h.congr serves serves' same same'⟩

/-- Calls about the keys of a client change nothing else. -/
lemma Orderly.respectedBy_differs (s₀ : σ) :
    RespectedBy (V.Differs start s₀) start (V.Owns start) where
  get {key} own s s' h := by
    obtain rfl := h.eq
    obtain ⟨t, e, serves, same⟩ := law.lawful.get_of_serves h.serves own.2
    rw [e]
    exact ⟨rfl, h.congr serves same⟩
  put value own s s' h := by
    obtain rfl := h.eq
    obtain ⟨t, e, serves, changed⟩ := law.lawful.put_of_serves h.serves own.2 value
    rw [e]
    exact ⟨rfl, h.update own.1 serves changed⟩
  remove own s s' h := by
    obtain rfl := h.eq
    obtain ⟨t, e, serves, changed⟩ := law.lawful.remove_of_serves h.serves own.2
    rw [e]
    exact ⟨rfl, h.update own.1 serves changed⟩
  keys s s' h := by
    obtain rfl := h.eq
    obtain ⟨ks, t, e, serves, -, -, same⟩ := law.keys start h.serves
    rw [e]
    exact ⟨rfl, h.congr serves same⟩
  listed h := law.owns_of_keys h.serves
  flush s s' h := by
    obtain rfl := h.eq
    obtain ⟨t, e, serves, same⟩ := law.lawful.flush_of_serves h.serves
    rw [e]
    exact ⟨rfl, h.congr serves same⟩

end StoreView

/-- A store and the journals that its clients have open, each under a number. -/
structure Shared (σ : Type) where
  store : σ
  journals : String → Nat → Option Journal

namespace Shared

/-- A store where no client has a journal open. -/
def closed (s : σ) : Shared σ :=
  ⟨s, fun _ _ => none⟩

/-- What a client does in its turn. -/
inductive Task where
  /-- It opens its journal. -/
  | openAs (v : Version)
  /-- It works with a journal that it has open. -/
  | perform (op : Journal.Operation)

/-- A turn of a client with one of its journals. -/
structure Turn where
  clientId : String
  number : Nat
  task : Task

/-- What the keys of a client begin with. -/
abbrev startOf (clientId : String) : Bytes :=
  Journal.startOf (Bytes.ofText clientId)

/-- The state with a journal open, and the store behind it. -/
def keep (w : Shared σ) (t : Turn) (js : Journal × σ) : Shared σ where
  store := js.2
  journals := Function.update w.journals t.clientId
    (Function.update (w.journals t.clientId) t.number (some js.1))

/-- Whether clients have journals of their own open only. -/
def IsOwned (w : Shared σ) : Prop :=
  ∀ clientId n j, w.journals clientId n = some j →
    (Bytes.ofText clientId).length < 65536 ∧ j.start = startOf clientId

/-- A journal that is open when another one was kept is that one or was open before. -/
lemma of_journals_keep {w : Shared σ} {t : Turn} {js : Journal × σ} {clientId : String} {n : Nat}
    {j : Journal} (held : (w.keep t js).journals clientId n = some j) :
    clientId = t.clientId ∧ j = js.1 ∨ w.journals clientId n = some j := by
  change Function.update w.journals t.clientId _ clientId n = some j at held
  rw [Function.update_apply] at held
  split at held
  · rename_i same
    subst same
    rw [Function.update_apply] at held
    split at held
    · cases held
      exact .inl ⟨rfl, rfl⟩
    · exact .inr held
  · exact .inr held

/-- A journal that is kept belongs to the client whose turn it is. -/
lemma isOwned_keep {w : Shared σ} (owned : w.IsOwned) {t : Turn} {js : Journal × σ}
    (short : (Bytes.ofText t.clientId).length < 65536) (of : js.1.start = startOf t.clientId) :
    (w.keep t js).IsOwned := by
  intro clientId n j held
  obtain ⟨rfl, rfl⟩ | before := of_journals_keep held
  · exact ⟨short, of⟩
  · exact owned _ _ _ before

variable [RecordStore σ]

/-- What a client is told in its turn, and the state after it. Without a journal under the number
that it names nothing happens. -/
def turn (w : Shared σ) (t : Turn) : Except StoreError (Option Journal.Reply) × Shared σ :=
  match t.task with
  | .openAs v =>
    match Journal.openFor t.clientId v w.store with
    | (.ok j, s) => (.ok (some (.opened j)), w.keep t (j, s))
    | (.error e, s) => (.error e, { w with store := s })
  | .perform op =>
    match w.journals t.clientId t.number with
    | none => (.ok none, w)
    | some j =>
      match Journal.perform op (j, w.store) with
      | (result, js) => (result.map some, w.keep t js)

/-- The state after turns. -/
def after (w : Shared σ) : List Turn → Shared σ
  | [] => w
  | t :: ts => (w.turn t).2.after ts

/-- What a client is told in turns, in order. -/
def replies (w : Shared σ) (clientId : String) :
    List Turn → List (Except StoreError (Option Journal.Reply))
  | [] => []
  | t :: ts =>
    if t.clientId = clientId then (w.turn t).1 :: (w.turn t).2.replies clientId ts
    else (w.turn t).2.replies clientId ts

/-- A turn of a client respects what calls about its keys respect. -/
lemma respects_turn {R : σ → σ → Prop} {own : Bytes → Prop} {w w' : Shared σ} {t : Turn}
    (calls : RespectedBy R (startOf t.clientId) own)
    (h : ∀ kind id, own (Journal.keyAt (startOf t.clientId) kind id)) (owned : w.IsOwned)
    (journals : w.journals t.clientId = w'.journals t.clientId) (related : R w.store w'.store) :
    (w.turn t).1 = (w'.turn t).1 ∧ (w.turn t).2.IsOwned ∧
      (w.turn t).2.journals t.clientId = (w'.turn t).2.journals t.clientId ∧
      R (w.turn t).2.store (w'.turn t).2.store := by
  obtain ⟨clientId, n, task⟩ := t
  change w.journals clientId = w'.journals clientId at journals
  -- the same journal is kept under the same number
  have kept (js js' : Journal × σ) (same : js.1 = js'.1) :
      (w.keep ⟨clientId, n, task⟩ js).journals clientId =
        (w'.keep ⟨clientId, n, task⟩ js').journals clientId := by
    change Function.update w.journals clientId (Function.update _ n _) clientId =
      Function.update w'.journals clientId (Function.update _ n _) clientId
    rw [Function.update_self, Function.update_self, same]
    change Function.update (w.journals clientId) n _ = Function.update (w'.journals clientId) n _
    rw [journals]
  cases task with
  | openAs v =>
    have opens : Respects R (Journal.openFor clientId v) := Journal.respects_openFor calls rfl
    obtain ⟨e | j, s, s', answer, answer', left⟩ := opens.answers related
    · unfold turn
      simp only
      rw [answer, answer']
      exact ⟨rfl, owned, journals, left⟩
    · unfold turn
      simp only
      rw [answer, answer']
      have short := Journal.length_lt_of_openFor answer
      have of := (Journal.start_of_openFor answer).1
      exact ⟨rfl, isOwned_keep owned short of, kept _ _ rfl, left⟩
  | perform op =>
    unfold turn
    simp only
    rw [← journals]
    cases held : w.journals clientId n with
    | none => exact ⟨rfl, owned, journals, related⟩
    | some j =>
      obtain ⟨short, of⟩ := owned clientId n j held
      have beside : Journal.Beside R (startOf clientId) (j, w.store) (j, w'.store) :=
        ⟨rfl, of, related⟩
      obtain ⟨same, left⟩ := Journal.respects_perform calls h op beside
      exact ⟨congrArg (Except.map some) same, isOwned_keep owned short left.2.1,
        kept _ _ left.1, left.2.2⟩

/-- Whether two states look the same to a client. -/
structure Alike (V : StoreView σ) (clientId : String) (w w' : Shared σ) : Prop where
  journals : w.journals clientId = w'.journals clientId
  store : V.Agree (startOf clientId) w.store w'.store
  owned : w.IsOwned

variable {V : StoreView σ} {clientId : String} {w w' : Shared σ} {t : Turn}

/-- What a client is told in its turn depends only on what it sees. -/
lemma Alike.turn (h : Alike V clientId w w') (law : V.Orderly) (own : t.clientId = clientId)
    (takes : Journal.TakesAll V (startOf clientId)) :
    (w.turn t).1 = (w'.turn t).1 ∧ Alike V clientId (w.turn t).2 (w'.turn t).2 := by
  subst own
  obtain ⟨told, owned, journals, store⟩ := respects_turn law.respectedBy_agree
    (fun kind id => ⟨Journal.prefix_keyAt .., takes.takes_key kind id⟩) h.owned h.journals h.store
  exact ⟨told, journals, store, owned⟩

/-- No turn changes the journals of another client. -/
lemma journals_turn (other : t.clientId ≠ clientId) :
    (w.turn t).2.journals clientId = w.journals clientId := by
  have kept (js : Journal × σ) : (w.keep t js).journals clientId = w.journals clientId :=
    Function.update_of_ne (Ne.symm other) ..
  unfold turn
  split
  · split
    · exact kept _
    · rfl
  · split
    · rfl
    · exact kept _

/-- A client whose identifier is too long does not come to the store. -/
lemma store_turn_of_long (owned : w.IsOwned) (long : 65536 ≤ (Bytes.ofText t.clientId).length) :
    (w.turn t).2.store = w.store := by
  unfold turn
  split
  · rename_i v _
    rw [Journal.openFor_of_long long]
  · cases held : w.journals t.clientId t.number with
    | none => rfl
    | some j => exact absurd (owned _ _ _ held).1 (Nat.not_lt.mpr long)

/-- No turn changes the records of another client. -/
lemma records_turn (law : V.Orderly) (takes : Journal.TakesAll V (startOf t.clientId))
    (owned : w.IsOwned) (serves : V.Serves w.store)
    (short : (Bytes.ofText clientId).length < 65536) (other : t.clientId ≠ clientId) :
    (w.turn t).2.IsOwned ∧ V.Serves (w.turn t).2.store ∧
      ∀ k, startOf clientId <+: k → V.records (w.turn t).2.store k = V.records w.store k := by
  have itself : V.Differs (startOf t.clientId) w.store w.store w.store :=
    ⟨rfl, serves, fun _ _ => rfl⟩
  obtain ⟨-, owned', -, differs⟩ := respects_turn (law.respectedBy_differs w.store)
    (fun kind id => ⟨Journal.prefix_keyAt .., takes.takes_key kind id⟩) owned rfl itself
  refine ⟨owned', differs.serves, fun k front => ?_⟩
  by_cases long : 65536 ≤ (Bytes.ofText t.clientId).length
  · rw [store_turn_of_long owned long]
  · refine differs.records_eq k fun front' => other (Bytes.ofText_inj.mp ?_)
    exact Journal.eq_of_prefix_startOf (Nat.not_le.mp long) short front' front

/-- A turn of another client is nothing that a client sees. -/
lemma Alike.turn_of_ne (h : Alike V clientId w w') (law : V.Orderly)
    (takes : Journal.TakesAll V (startOf t.clientId))
    (short : (Bytes.ofText clientId).length < 65536) (other : t.clientId ≠ clientId) :
    Alike V clientId (w.turn t).2 w' := by
  obtain ⟨owned, serves, same⟩ := records_turn law takes h.owned h.store.serves short other
  refine ⟨(journals_turn other).trans h.journals, ⟨serves, h.store.serves', fun k front => ?_⟩,
    owned⟩
  rw [same k front, h.store.records_eq k front]

/-- What a client is told, and what it keeps, does not change when the turns of others are left
out. -/
lemma Alike.run (h : Alike V clientId w w') (law : V.Orderly) {ts : List Turn}
    (takes : ∀ t ∈ ts, Journal.TakesAll V (startOf t.clientId))
    (short : (Bytes.ofText clientId).length < 65536) :
    w.replies clientId ts = w'.replies clientId (ts.filter (·.clientId = clientId)) ∧
      Alike V clientId (w.after ts) (w'.after (ts.filter (·.clientId = clientId))) := by
  induction ts generalizing w w' with
  | nil => exact ⟨rfl, h⟩
  | cons t ts ih =>
    rw [List.forall_mem_cons] at takes
    by_cases own : t.clientId = clientId
    · obtain ⟨told, alike⟩ := h.turn law own (own ▸ takes.1)
      obtain ⟨replies, alike'⟩ := ih alike takes.2
      rw [List.filter_cons, if_pos (decide_eq_true own), Shared.replies, Shared.replies,
        if_pos own, if_pos own, told, replies]
      exact ⟨rfl, alike'⟩
    · rw [List.filter_cons, if_neg fun kept => own (of_decide_eq_true kept), Shared.replies,
        if_neg own]
      exact ih (h.turn_of_ne law takes.1 short own) takes.2

/-- Clients at one store are apart. Whatever turns they take, and whatever records others have, a
client is told in its turns what it is told when it takes them alone, it has the same journals open
and the same records in the store. No turn of another client changes its records. -/
theorem replies_eq_of_alone (law : V.Orderly) (short : (Bytes.ofText clientId).length < 65536)
    {ts : List Turn} (takes : ∀ t ∈ ts, Journal.TakesAll V (startOf t.clientId)) {s s' : σ}
    (serves : V.Serves s) (serves' : V.Serves s')
    (same : ∀ k, startOf clientId <+: k → V.records s k = V.records s' k) :
    let own := ts.filter (·.clientId = clientId)
    let w := (closed s).after ts
    let w' := (closed s').after own
    (closed s).replies clientId ts = (closed s').replies clientId own ∧
      w.journals clientId = w'.journals clientId ∧
      (∀ k, startOf clientId <+: k → V.records w.store k = V.records w'.store k) ∧
      ∀ t : Turn, t.clientId ≠ clientId → Journal.TakesAll V (startOf t.clientId) →
        ∀ k, startOf clientId <+: k → V.records (w.turn t).2.store k = V.records w.store k := by
  intro own w w'
  have alike : Alike V clientId (closed s) (closed s') :=
    ⟨rfl, ⟨serves, serves', same⟩, fun _ _ _ held => by cases held⟩
  obtain ⟨told, alike⟩ := alike.run law takes short
  refine ⟨told, alike.journals, alike.store.records_eq, fun t other takes => ?_⟩
  exact (records_turn law takes alike.owned alike.store.serves short other).2.2

/-- The identifier of one client begins with that of another, and each does not see the message that
the other keeps. -/
theorem replies_eq_of_alone_table :
    let m : Publish := { qos := .atLeastOnce, topic := "t", payload := [1], packetId := 1 }
    let ts : List Turn := [⟨"a", 0, .openAs .v311⟩, ⟨"ab", 0, .openAs .v5⟩,
      ⟨"ab", 0, .perform (.write (.publish m))⟩, ⟨"a", 0, .perform .size⟩,
      ⟨"a", 0, .perform .takeAll⟩, ⟨"ab", 0, .perform .readAll⟩]
    let w : Shared Table := closed .empty
    (w.replies "a" ts).drop 1 = [.ok (some (.count 0)), .ok (some (.packets []))] ∧
      (w.replies "ab" ts).drop 1 =
        [.ok (some (.said true)), .ok (some (.packets [.publish m]))] ∧
      w.replies "a" ts = w.replies "a" (ts.filter (·.clientId = "a")) ∧
      w.replies "ab" ts = w.replies "ab" (ts.filter (·.clientId = "ab")) := by
  intro m ts w
  have takes : ∀ t ∈ ts, Journal.TakesAll Table.view (startOf t.clientId) :=
    fun _ _ => ⟨trivial, fun _ _ => trivial⟩
  have serves : Table.view.Serves .empty := ⟨trivial, trivial⟩
  have first := replies_eq_of_alone Table.orderly (by decide : (Bytes.ofText "a").length < 65536)
    takes serves serves fun _ _ => rfl
  have second := replies_eq_of_alone Table.orderly
    (by decide : (Bytes.ofText "ab").length < 65536) takes serves serves fun _ _ => rfl
  exact ⟨by decide +kernel, by decide +kernel, first.1, second.1⟩

end Shared
end MqttClient
