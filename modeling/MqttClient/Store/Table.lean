import MqttClient.Store.Basic
import Std.Data.ExtTreeMap

/-!
# Stores in memory

A table keeps its records sorted by key. Its calls never fail.
-/

namespace MqttClient

/-- Byte strings that stand under byte strings, sorted by key. -/
structure Table where
  entries : Std.ExtTreeMap Bytes Bytes

namespace Table

/-- The table without records. -/
def empty : Table := ⟨∅⟩

instance : Inhabited Table := ⟨empty⟩

/-- The value under a key, if there is one. -/
def find? (t : Table) (key : Bytes) : Option Bytes :=
  t.entries[key]?

def insert (t : Table) (key value : Bytes) : Table :=
  ⟨t.entries.insert key value⟩

def erase (t : Table) (key : Bytes) : Table :=
  ⟨t.entries.erase key⟩

/-- The keys that begin with `start`, in ascending order. -/
def keysFrom (t : Table) (start : Bytes) : List Bytes :=
  t.entries.keys.filter start.isPrefixOf

def size (t : Table) : Nat :=
  t.entries.size

instance : RecordStore Table where
  get key := fun t => (.ok (t.find? key), t)
  put key value := fun t => (.ok (), t.insert key value)
  remove key := fun t => (.ok (), t.erase key)
  keys start := fun t => (.ok (t.keysFrom start), t)
  flush := fun t => (.ok (), t)

end Table
end MqttClient
