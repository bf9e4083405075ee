import MqttClient.Wire.Bytes

/-!
# Record stores

A record store keeps byte strings under byte strings. Every call may fail, and a call that fails may
have changed the store all the same, so the state of the store is part of every outcome.
-/

namespace MqttClient

/-- Why a store did not do what it was asked. -/
inductive StoreError where
  | writeError
  | readError
  /-- A record is damaged. -/
  | corrupted
  /-- The store cannot be opened, or is gone. -/
  | unavailable
  deriving DecidableEq, Repr

def StoreError.message : StoreError → String
  | writeError => "write failed"
  | readError => "read failed"
  | corrupted => "corrupted record"
  | unavailable => "store unavailable"

/-- Computations on a store that may fail. -/
abbrev StoreM (σ : Type) := ExceptT StoreError (StateM σ)

/-- The calls of a record store. -/
class RecordStore (σ : Type) where
  /-- The value under a key, if there is one. -/
  get : (key : Bytes) → StoreM σ (Option Bytes)
  /-- Puts a value under a key, in place of an earlier one. -/
  put : (key value : Bytes) → StoreM σ Unit
  /-- Removes the value under a key. Nothing happens if there is none. -/
  remove : (key : Bytes) → StoreM σ Unit
  /-- The keys that begin with `start`, in ascending order. -/
  keys : (start : Bytes) → StoreM σ (List Bytes)
  /-- Makes earlier changes durable. -/
  flush : StoreM σ Unit

namespace RecordStore

/-- Removes the values under all of the keys, as long as no call fails. -/
def removeAll {σ : Type} [RecordStore σ] : List Bytes → StoreM σ Unit
  | [] => pure ()
  | key :: keys => do
    remove key
    removeAll keys

end RecordStore
end MqttClient
