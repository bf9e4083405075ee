import MqttClient.Store.Basic
import MqttClient.Store.FileName
import Std.Data.ExtTreeMap

/-!
# Stores in a directory

Each record is a file of a directory. A value is first written to a file beside the record's own and
then renamed, so that the record is at all times either the earlier value or the new one. The steps
of such a write are given one by one, each with what may befall it.
-/

namespace MqttClient

/-- What stands at a name of a directory. -/
inductive DirEntry where
  | file (content : Bytes)
  | directory
  deriving DecidableEq, Repr

/-- A directory, or the place of one that was removed. -/
structure Folder where
  entries? : Option (Std.ExtTreeMap Bytes DirEntry)

namespace Folder

/-- The longest file name. -/
def maxName : Nat := 255

/-- The end of the names of files that are still being written. -/
def temporaryEnd : Bytes := [0x2E, 0x74, 0x6D, 0x70]

/-- The directory without files. -/
def empty : Folder := ⟨some ∅⟩

instance : Inhabited Folder := ⟨empty⟩

/-- The place of a directory that was removed. -/
def removed : Folder := ⟨none⟩

/-- The directory, made if it is not there. Where a file stands in its way it cannot be made. -/
def openAt (d : Folder) (reachable : Bool) : Except StoreError Folder :=
  if !reachable then .error .unavailable
  else match d.entries? with
    | some _ => .ok d
    | none => .ok empty

/-- What is at a name, if the directory is there. -/
def find? (d : Folder) (name : Bytes) : Option DirEntry :=
  d.entries?.bind (·[name]?)

/-- The directory with an entry at a name. A removed directory takes none. -/
def insert (d : Folder) (name : Bytes) (e : DirEntry) : Folder :=
  ⟨d.entries?.map (·.insert name e)⟩

/-- The directory without an entry at a name. -/
def erase (d : Folder) (name : Bytes) : Folder :=
  ⟨d.entries?.map (·.erase name)⟩

/-- The names of all entries in ascending order. -/
def names (d : Folder) : List Bytes :=
  match d.entries? with
  | some entries => entries.keys
  | none => []

/-- Whether a file can stand at a name. The empty name is the directory itself. -/
def admits (d : Folder) (name : Bytes) : Bool :=
  d.entries?.isSome && !name.isEmpty && name.length ≤ maxName && d.find? name ≠ some .directory

/-- What befalls a step of a write. -/
inductive Mishap where
  | none
  /-- The step fails. A failing write leaves the first `kept` bytes in the file. -/
  | failure (kept : Nat)
  /-- The process stops in the middle of the step. -/
  | stop (kept : Nat)
  deriving DecidableEq, Repr

/-- The steps of a write. -/
inductive WriteStep where
  | create
  | write
  | sync
  | rename
  | cleanUp
  deriving DecidableEq, Repr

/-- How a sequence of steps comes to an early end. -/
inductive Halt where
  | failed
  | stopped
  deriving DecidableEq, Repr

/-- Steps on a directory. -/
abbrev StepM := ExceptT Halt (StateM Folder)

/-- A step on the directory that leaves `damaged` behind if it does not come to its end. -/
def step (mishap : Mishap) (damaged : Nat → Folder → Folder) (act : Folder → Option Folder) :
    StepM Unit := fun d =>
  match mishap with
  | .none =>
    match act d with
    | some d => (.ok (), d)
    | none => (.error .failed, d)
  | .failure kept => (.error .failed, damaged kept d)
  | .stop kept => (.error .stopped, damaged kept d)

/-- Makes an empty file, or empties the one that is there. -/
def createFile (mishap : Mishap) (name : Bytes) : StepM Unit :=
  step mishap (fun _ d => d) fun d =>
    if d.admits name then some (d.insert name (.file [])) else none

/-- Writes the content of a file that was just made. -/
def writeFile (mishap : Mishap) (name content : Bytes) : StepM Unit :=
  step mishap (fun kept d => d.insert name (.file (content.take kept))) fun d =>
    some (d.insert name (.file content))

/-- Makes the content of a file durable. -/
def syncFile (mishap : Mishap) : StepM Unit :=
  step mishap (fun _ d => d) some

/-- Gives a file another name, in place of the file that has it. -/
def renameFile (mishap : Mishap) (source target : Bytes) : StepM Unit :=
  step mishap (fun _ d => d) fun d =>
    match d.find? source with
    | some e => if d.admits target then some ((d.erase source).insert target e) else none
    | none => none

def removeFile (mishap : Mishap) (name : Bytes) : StepM Unit :=
  step mishap (fun _ d => d) fun d =>
    match d.find? name with
    | some (.file _) => if d.admits name then some (d.erase name) else none
    | _ => none

/-- The name under which the value of a key is written before it is renamed. -/
def temporaryName (key : Bytes) : Bytes :=
  FileName.ofKey key ++ temporaryEnd

/-- The steps that put a value under a key. -/
def stage (mishap : WriteStep → Mishap) (key value : Bytes) : StepM Unit := do
  createFile (mishap .create) (temporaryName key)
  writeFile (mishap .write) (temporaryName key) value
  syncFile (mishap .sync)
  renameFile (mishap .rename) (temporaryName key) (FileName.ofKey key)

/-- Puts a value under a key, where steps may meet with a mishap. There is no answer if the process
stops. -/
def putThrough (mishap : WriteStep → Mishap) (key value : Bytes) (d : Folder) :
    Option (Except StoreError Unit) × Folder :=
  match stage mishap key value d with
  | (.ok (), d) => (some (.ok ()), d)
  | (.error .stopped, d) => (none, d)
  | (.error .failed, d) =>
    match removeFile (mishap .cleanUp) (temporaryName key) d with
    | (.error .stopped, d) => (none, d)
    | (_, d) => (some (.error .writeError), d)

/-- Writes a value to a file beside its record, and renames it then. -/
def put (key value : Bytes) : StoreM Folder Unit := fun d =>
  match putThrough (fun _ => .none) key value d with
  | (some result, d) => (result, d)
  | (none, d) => (.error .writeError, d)

/-- The value under a key. A removed directory has no values; the empty name, names that are too
long and names of directories cannot be read. -/
def get (key : Bytes) : StoreM Folder (Option Bytes) := fun d =>
  let name := FileName.ofKey key
  if d.entries?.isSome && !d.admits name then (.error .readError, d)
  else match d.find? name with
    | some (.file content) => (.ok (some content), d)
    | _ => (.ok none, d)

/-- Removes the file of a key, whether it is there or not. Where no file can stand it fails. -/
def remove (key : Bytes) : StoreM Folder Unit := fun d =>
  let name := FileName.ofKey key
  if d.entries?.isSome && !d.admits name then (.error .writeError, d)
  else (.ok (), d.erase name)

/-- The key of an entry, unless the file is still being written or its name belongs to no key. -/
def keyOf? (name : Bytes) : Option Bytes :=
  if temporaryEnd.isSuffixOf name then none else FileName.toKey? name

/-- The keys that begin with `start`, in ascending order. -/
def keys (start : Bytes) : StoreM Folder (List Bytes) := fun d =>
  match d.entries? with
  | some entries =>
    let keys := (entries.keys.filterMap keyOf?).filter start.isPrefixOf
    (.ok (keys.mergeSort fun a b => (compare a b).isLE), d)
  | none => (.error .readError, d)

/-- A flush succeeds as long as the directory is there. -/
def flush : StoreM Folder Unit := fun d =>
  (if d.entries?.isSome then .ok () else .error .writeError, d)

instance : RecordStore Folder := ⟨get, put, remove, keys, flush⟩

end Folder
end MqttClient
