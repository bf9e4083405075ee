import MqttClient.Store.Folder
import MqttClient.Store.Table

/-!
# The choice of a store

A store that is either a table in memory or a directory.
-/

namespace MqttClient

/-- A table or a directory. -/
inductive Backend where
  | table (t : Table)
  | folder (d : Folder)

namespace Backend

instance : Inhabited Backend := ⟨.table .empty⟩

/-- Makes a call of the store that was chosen. -/
def call (onTable : StoreM Table α) (onFolder : StoreM Folder α) : StoreM Backend α
  | .table t =>
    match onTable t with
    | (result, t) => (result, .table t)
  | .folder d =>
    match onFolder d with
    | (result, d) => (result, .folder d)

instance : RecordStore Backend where
  get key := call (RecordStore.get key) (RecordStore.get key)
  put key value := call (RecordStore.put key value) (RecordStore.put key value)
  remove key := call (RecordStore.remove key) (RecordStore.remove key)
  keys start := call (RecordStore.keys start) (RecordStore.keys start)
  flush := call RecordStore.flush RecordStore.flush

end Backend
end MqttClient
