import MqttClient.Store.Basic

/-!
# Stores that fail

Any store, with a plan that says which of its calls fail before they reach it.
-/

namespace MqttClient

/-- The calls of a store by name. -/
inductive StoreCall where
  | get
  | put
  | remove
  | keys
  | flush
  deriving DecidableEq, Repr

/-- A store some of whose calls fail. -/
structure Unreliable (σ : Type) where
  store : σ
  /-- The error of the call with a number, if it fails. -/
  plan : Nat → StoreCall → Option StoreError
  /-- The number of calls so far. -/
  calls : Nat := 0

namespace Unreliable
variable {σ : Type}

/-- A store all of whose calls reach it. -/
def sound (s : σ) : Unreliable σ :=
  { store := s, plan := fun _ _ => none }

/-- From now on the calls of some names fail. -/
def failing (u : Unreliable σ) (calls : List StoreCall) (e : StoreError) : Unreliable σ :=
  { u with plan := fun _ call => if call ∈ calls then some e else none }

/-- Makes a call unless the plan lets it fail. -/
def attempt (call : StoreCall) (act : StoreM σ α) : StoreM (Unreliable σ) α := fun u =>
  match u.plan u.calls call with
  | some e => (.error e, { u with calls := u.calls + 1 })
  | none =>
    match act u.store with
    | (result, s) => (result, { u with store := s, calls := u.calls + 1 })

instance [RecordStore σ] : RecordStore (Unreliable σ) where
  get key := attempt .get (RecordStore.get key)
  put key value := attempt .put (RecordStore.put key value)
  remove key := attempt .remove (RecordStore.remove key)
  keys start := attempt .keys (RecordStore.keys start)
  flush := attempt .flush RecordStore.flush

end Unreliable
end MqttClient
