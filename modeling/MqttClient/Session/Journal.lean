import MqttClient.Session.Record
import MqttClient.Store.Basic

/-!
# Journals

The journal of a client holds the packets that were sent and are not yet done with: messages that
wait for an acknowledgment, and releases. All records of a client have keys that begin with its
identifier behind the length of it, so that clients share a store without meeting. A record keeps
its place when it is written again, and a release takes the place of its message. A damaged record
counts as absent.
-/

namespace MqttClient

/-- The journal of a client. -/
structure Journal where
  /-- What the keys of the client begin with. -/
  start : Bytes
  /-- The version in which packets are written. -/
  version : Version
  /-- The place of the next new record. -/
  nextSeq : UInt64
  deriving DecidableEq, Repr

/-- Computations on a journal and its store. -/
abbrev JournalM (σ : Type) := ExceptT StoreError (StateM (Journal × σ))

namespace Journal

/-- What the keys of a client begin with. -/
def startOf (clientId : Bytes) : Bytes :=
  Bytes.bigEndian 2 clientId.length ++ clientId

/-- The key of a packet: the client, the identifier and the kind, in fixed places. -/
def key (j : Journal) (kind : Record.Kind) (id : UInt16) : Bytes :=
  j.start ++ Bytes.bigEndian 2 id.toNat ++ [kind.mark]

/-- The key under which a packet is stored, if it is. -/
def keyOf? (j : Journal) (p : Packet) : Option Bytes :=
  (Record.slot? p).map fun (kind, id) => j.key kind id

section
variable {σ : Type} [RecordStore σ]

/-- The record under a key, if there is one that is not damaged. -/
def lookup (v : Version) (key : Bytes) : StoreM σ (Option Record) := fun s =>
  match RecordStore.get key s with
  | (.ok value, s) => (.ok (value.bind (Record.decode? · v)), s)
  | (.error .corrupted, s) => (.ok none, s)
  | (.error e, s) => (.error e, s)

/-- The records under the keys, in the order of the keys. -/
def lookupAll (v : Version) : List Bytes → StoreM σ (List Record)
  | [] => pure []
  | key :: keys => do
    let record ← lookup v key
    let records ← lookupAll v keys
    return record.toList ++ records

/-- All records whose keys begin with `start`, in the order of the keys. -/
def load (v : Version) (start : Bytes) : StoreM σ (List Record) := do
  let keys ← RecordStore.keys start
  lookupAll v keys

/-- The place after the last one of the records. -/
def seqAfter (records : List Record) : UInt64 :=
  match (records.map Record.seq).max? with
  | some last => last + 1
  | none => 0

/-- Opens the journal of a client. New records come after those that are there. -/
def openFor (clientId : String) (v : Version) : StoreM σ Journal := do
  let id := Bytes.ofText clientId
  if 65536 ≤ id.length then
    throw .writeError
  let records ← load v (startOf id)
  return ⟨startOf id, v, seqAfter records⟩

/-- The place of the record under a key, if there is one. -/
def seq? (v : Version) (key : Bytes) : StoreM σ (Option UInt64) :=
  return (← lookup v key).map Record.seq

/-- The place that a packet keeps: that of its record or, for a release, that of its message. -/
def seqOf? (j : Journal) (kind : Record.Kind) (id : UInt16) : StoreM σ (Option UInt64) := do
  match ← seq? j.version (j.key kind id), kind with
  | none, .release => seq? j.version (j.key .message id)
  | seq, _ => return seq

/-- Makes a call of the store of the journal. -/
def onStore (act : StoreM σ α) : JournalM σ α := fun (j, s) =>
  match act s with
  | (result, s) => (result, j, s)

/-- The journal itself. -/
def self : JournalM σ Journal := fun (j, s) => (.ok j, j, s)

/-- Takes the next place. -/
def takeSeq : JournalM σ UInt64 := fun (j, s) =>
  (.ok j.nextSeq, { j with nextSeq := j.nextSeq + 1 }, s)

/-- Gives places from the first one on again. -/
def resetSeq : JournalM σ Unit := fun (j, s) =>
  (.ok (), { j with nextSeq := 0 }, s)

/-- Stores a packet if it is of a kind that is stored, and tells whether it is. -/
def write (p : Packet) : JournalM σ Bool := do
  match Record.slot? p with
  | none => return false
  | some (kind, id) =>
    let j ← self
    let seq ←
      match ← onStore (seqOf? j kind id) with
      | some seq => pure seq
      | none => takeSeq
    match p.encode j.version with
    | .error _ => throw .writeError
    | .ok bytes =>
      onStore (RecordStore.put (j.key kind id) (Record.encode seq bytes))
      return true

/-- Removes the record of a packet, if it is of a kind that is stored. -/
def remove (p : Packet) : JournalM σ Unit := do
  match (← self).keyOf? p with
  | some key => onStore (RecordStore.remove key)
  | none => return

/-- The packets of the records in the order of their places, without the messages that are released
already. -/
def replay (records : List Record) : List Packet :=
  let sorted := records.mergeSort fun r s => r.seq ≤ s.seq
  let released := sorted.filterMap fun r =>
    match r.packet with
    | .pubrel a => some a.packetId
    | _ => none
  (sorted.map Record.packet).filter fun
    | .publish p => !released.contains p.packetId
    | _ => true

/-- All packets in the order of their places. -/
def readAll : JournalM σ (List Packet) := do
  let j ← self
  return replay (← onStore (load j.version j.start))

/-- The keys of all records, damaged ones among them. -/
def keys : JournalM σ (List Bytes) := do
  let j ← self
  onStore (RecordStore.keys j.start)

/-- Removes all records. -/
def clear : JournalM σ Unit := do
  let keys ← keys
  onStore (RecordStore.removeAll keys)
  resetSeq
  onStore RecordStore.flush

/-- Reads all packets and removes all records. -/
def takeAll : JournalM σ (List Packet) := do
  let packets ← readAll
  clear
  return packets

/-- Waits until the store has written everything. -/
def synchronize : JournalM σ Unit :=
  onStore RecordStore.flush

/-- The number of keys, those of damaged records among them. -/
def size : JournalM σ Nat :=
  return (← keys).length

/-- Whether there are no records. -/
def isEmpty : JournalM σ Bool :=
  return (← size) = 0

end
end Journal
end MqttClient
