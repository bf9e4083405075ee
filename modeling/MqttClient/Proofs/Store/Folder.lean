import MqttClient.Proofs.Store.FileName
import MqttClient.Proofs.Store.Orderly

/-!
# Directories as stores

A directory that nobody else uses holds the files of its records and nothing else. While no step of
a write meets with a mishap it is an orderly store: a value that is being written is out of the way
of all records, and the keys of all records are found in their file names. It takes the keys whose
file names, and those of the files beside them, are not too long.
-/

namespace MqttClient.Folder
variable {d : Folder} {name key value : Bytes} {e : DirEntry}

/-- What is put at a name is found there, and what is at others stays. -/
lemma find?_insert (there : d.entries?.isSome = true) (n : Bytes) :
    (d.insert name e).find? n = if name = n then some e else d.find? n := by
  obtain ⟨entries, h⟩ := Option.isSome_iff_exists.mp there
  unfold insert find?
  rw [h]
  change (entries.insert name e)[n]? = if name = n then some e else entries[n]?
  simp only [Std.ExtTreeMap.getElem?_insert, Std.LawfulEqCmp.compare_eq_iff_eq]

/-- Nothing is found at a name that was removed, and what is at others stays. -/
lemma find?_erase (d : Folder) (name n : Bytes) :
    (d.erase name).find? n = if name = n then none else d.find? n := by
  unfold erase find?
  cases d.entries? with
  | none => exact (ite_self _).symm
  | some entries =>
    change (entries.erase name)[n]? = if name = n then none else entries[n]?
    simp only [Std.ExtTreeMap.getElem?_erase, Std.LawfulEqCmp.compare_eq_iff_eq]

/-- Nothing is found in an empty directory. -/
lemma find?_empty (n : Bytes) : empty.find? n = none :=
  Std.ExtTreeMap.getElem?_empty

/-- A directory stays where it is when something is put there. -/
lemma isSome_insert (there : d.entries?.isSome = true) (name : Bytes) (e : DirEntry) :
    (d.insert name e).entries?.isSome = true := by
  rw [insert, Option.isSome_map, there]

/-- A directory stays where it is when something is removed. -/
lemma isSome_erase (there : d.entries?.isSome = true) (name : Bytes) :
    (d.erase name).entries?.isSome = true := by
  rw [erase, Option.isSome_map, there]

/-- A file can stand at a name that is not too long, unless a directory does. -/
lemma admits_iff : d.admits name = true ↔ d.entries?.isSome = true ∧ name ≠ [] ∧
    name.length ≤ maxName ∧ d.find? name ≠ some .directory := by
  simp only [admits, Bool.and_eq_true, Bool.not_eq_true', List.isEmpty_eq_false_iff,
    decide_eq_true_iff, and_assoc, ne_eq]

/-- No file stands at a name that is too long. -/
lemma not_admits_of_long (long : maxName < name.length) : d.admits name = false := by
  rw [Bool.eq_false_iff]
  exact fun admits => Nat.not_le.mpr long (admits_iff.mp admits).2.2.1

/-- Whether a directory takes a key. -/
structure Takes (key : Bytes) : Prop where
  ne_nil : key ≠ []
  length_le : key.length ≤ 188

/-- The file name of a key that is taken is not empty. -/
lemma Takes.ofKey_ne_nil (h : Takes key) : FileName.ofKey key ≠ [] :=
  fun none => h.ne_nil (FileName.ofKey_inj.mp none)

/-- The name under which the value of a key is written is just short enough. -/
lemma Takes.length_temporaryName (h : Takes key) : (temporaryName key).length ≤ maxName := by
  have le := h.length_le
  rw [temporaryName, List.length_append, FileName.length_ofKey, maxName]
  change _ + 4 ≤ 255
  omega

/-- The file name of a key that is taken is not too long. -/
lemma Takes.length_ofKey (h : Takes key) : (FileName.ofKey key).length ≤ maxName :=
  Nat.le_trans (List.IsPrefix.length_le (List.prefix_append ..)) h.length_temporaryName

/-- A file that is still being written is not taken for that of a record. -/
lemma temporaryName_ne_ofKey (key key' : Bytes) : temporaryName key ≠ FileName.ofKey key' := by
  intro same
  have dot : 0x2E ∈ temporaryName key :=
    List.mem_append_right _ (List.mem_cons_self ..)
  rw [same] at dot
  exact FileName.dot_notMem_ofKey key' dot

/-- The only name of a key is the one that is made of it. -/
lemma keyOf?_eq_some_iff : keyOf? name = some key ↔ name = FileName.ofKey key := by
  constructor
  · intro named
    rw [keyOf?] at named
    split at named
    · cases named
    · exact (FileName.ofKey_of_toKey? named).symm
  · rintro rfl
    have whole : temporaryEnd.isSuffixOf (FileName.ofKey key) = false := by
      rw [Bool.eq_false_iff, Ne, List.isSuffixOf_iff_suffix]
      intro tail
      exact FileName.dot_notMem_ofKey key (tail.subset (List.mem_cons_self ..))
    rw [keyOf?, whole]
    exact FileName.toKey?_ofKey key

section Listing
variable {entries : Std.ExtTreeMap Bytes DirEntry}

/-- The keys of the names in a directory are those at whose names something stands. -/
lemma mem_filterMap_keyOf? (there : d.entries? = some entries) (k : Bytes) :
    k ∈ entries.keys.filterMap keyOf? ↔ d.find? (FileName.ofKey k) ≠ none := by
  have found (n : Bytes) : n ∈ entries.keys ↔ d.find? n ≠ none := by
    rw [find?, there, Std.ExtTreeMap.mem_keys, Std.ExtTreeMap.mem_iff_isSome_getElem?,
      Option.isSome_iff_ne_none]
    rfl
  rw [← found, List.mem_filterMap]
  constructor
  · rintro ⟨n, mem, named⟩
    rwa [← keyOf?_eq_some_iff.mp named]
  · exact fun mem => ⟨_, mem, keyOf?_eq_some_iff.mpr rfl⟩

/-- No two names are those of one key. -/
lemma nodup_filterMap_keyOf? : (entries.keys.filterMap keyOf?).Nodup := by
  refine List.pairwise_filterMap.mpr (entries.nodup_keys.imp ?_)
  rintro n n' ne k hk k' hk' rfl
  exact ne ((keyOf?_eq_some_iff.mp hk).trans (keyOf?_eq_some_iff.mp hk').symm)

/-- A directory lists the keys at whose names something stands, in ascending order. -/
lemma keys_of_isSome (there : d.entries?.isSome = true) (start : Bytes) :
    ∃ ks, keys start d = (.ok ks, d) ∧ ks.Pairwise (· < ·) ∧
      ∀ k, k ∈ ks ↔ start <+: k ∧ d.find? (FileName.ofKey k) ≠ none := by
  obtain ⟨entries, there⟩ := Option.isSome_iff_exists.mp there
  let listed := (entries.keys.filterMap keyOf?).filter start.isPrefixOf
  refine ⟨listed.mergeSort fun a b => (compare a b).isLE, ?_, ?_, fun k => ?_⟩
  · unfold keys
    rw [there]
  · exact Bytes.pairwise_mergeSort (nodup_filterMap_keyOf?.filter _)
  · rw [List.mem_mergeSort, List.mem_filter, List.isPrefixOf_iff_prefix,
      mem_filterMap_keyOf? there, and_comm]

end Listing

/-- Whether a directory is there and holds the files of records only. -/
structure IsTidy (d : Folder) : Prop where
  there : d.entries?.isSome = true
  only {name : Bytes} {e : DirEntry} : d.find? name = some e →
    ∃ key content, Takes key ∧ name = FileName.ofKey key ∧ e = .file content

/-- An empty directory is tidy. -/
lemma isTidy_empty : empty.IsTidy where
  there := rfl
  only {name e} found := by
    rw [find?_empty] at found
    cases found

/-- The content of a file. -/
def content? : DirEntry → Option Bytes
  | .file content => some content
  | .directory => none

/-- The value of a record is the content of the file at the name of its key. -/
def record? (d : Folder) (key : Bytes) : Option Bytes :=
  (d.find? (FileName.ofKey key)).bind content?

/-- A key at whose name a file can stand has the value of the file that does. -/
lemma get_of_admits (admits : d.admits (FileName.ofKey key) = true) :
    get key d = (.ok (d.record? key), d) := by
  unfold get
  simp only
  rw [admits, Bool.not_true, Bool.and_false, if_neg Bool.false_ne_true, record?]
  cases found : d.find? (FileName.ofKey key) with
  | none => rfl
  | some e =>
    cases e with
    | file content => rfl
    | directory => exact absurd found (admits_iff.mp admits).2.2.2

/-- A directory holds its records, as long as there is nothing else in it. -/
def view : StoreView Folder where
  records := record?
  live := IsTidy
  sound := fun _ => True
  takes := Takes

namespace IsTidy

/-- No directory stands in a tidy one. -/
lemma find?_ne_directory (h : d.IsTidy) (name : Bytes) : d.find? name ≠ some .directory := by
  intro found
  obtain ⟨_, _, -, -, same⟩ := h.only found
  cases same

/-- No file that is still being written stands in a tidy directory. -/
lemma find?_temporaryName (h : d.IsTidy) (key : Bytes) : d.find? (temporaryName key) = none := by
  rw [Option.eq_none_iff_forall_ne_some]
  intro e found
  obtain ⟨key', _, -, same, -⟩ := h.only found
  exact temporaryName_ne_ofKey key key' same

/-- At the name of a key stands its record. -/
lemma find?_ofKey (h : d.IsTidy) (key : Bytes) :
    d.find? (FileName.ofKey key) = (d.record? key).map .file := by
  cases found : d.find? (FileName.ofKey key) with
  | none =>
    rw [record?, found]
    rfl
  | some e =>
    obtain ⟨_, content, -, -, rfl⟩ := h.only found
    rw [record?, found]
    rfl

/-- Records stand under keys that are taken only. -/
lemma takes_of_record? (h : d.IsTidy) (held : d.record? key ≠ none) : Takes key := by
  obtain ⟨content, found⟩ := Option.ne_none_iff_exists'.mp held
  have named := h.find?_ofKey key
  rw [found] at named
  obtain ⟨key', _, takes, same, -⟩ := h.only named
  rwa [FileName.ofKey_inj.mp same]

/-- A file can stand at the name of a key that is taken. -/
lemma admits (h : d.IsTidy) (takes : Takes key) : d.admits (FileName.ofKey key) = true :=
  admits_iff.mpr ⟨h.there, takes.ofKey_ne_nil, takes.length_ofKey, h.find?_ne_directory _⟩

/-- A change at the name of a key is a change of its record. -/
lemma update (h : d.IsTidy) (takes : Takes key) {d' : Folder} {x : Option Bytes}
    (there : d'.entries?.isSome = true)
    (changed : ∀ n, d'.find? n = if FileName.ofKey key = n then x.map .file else d.find? n) :
    d'.IsTidy ∧ d'.record? = Function.update d.record? key x := by
  refine ⟨⟨there, fun {name e} found => ?_⟩, ?_⟩
  · rw [changed] at found
    split at found
    · rename_i same
      obtain ⟨content, -, rfl⟩ := Option.map_eq_some_iff.mp found
      exact ⟨key, content, takes, same.symm, rfl⟩
    · exact h.only found
  · funext k
    rw [record?, changed, Function.update_apply]
    by_cases same : k = key
    · subst same
      rw [if_pos rfl, if_pos rfl]
      cases x <;> rfl
    · rw [if_neg fun names => same (FileName.ofKey_inj.mp names).symm, if_neg same]
      rfl

/-- Under a key that is taken its record is read. -/
lemma get (h : d.IsTidy) (takes : Takes key) : Folder.get key d = (.ok (d.record? key), d) :=
  get_of_admits (h.admits takes)

/-- Removing a key that is taken removes its file. -/
lemma remove (h : d.IsTidy) (takes : Takes key) :
    Folder.remove key d = (.ok (), d.erase (FileName.ofKey key)) := by
  unfold Folder.remove
  simp only
  rw [h.admits takes, Bool.not_true, Bool.and_false, if_neg Bool.false_ne_true]

end IsTidy

section Steps

/-- Steps go on behind a step that comes to its end. -/
lemma StepM.bind_of_ok {α β : Type} {act : StepM α} {next : α → StepM β} {d d' : Folder} {x : α}
    (h : act d = (.ok x, d')) : (act >>= next) d = next x d' := by
  change (fun p => ExceptT.bindCont next p.1 p.2) (act d) = _
  rw [h]
  rfl

/-- Steps end with the first one that does not come to its end. -/
lemma StepM.bind_of_error {α β : Type} {act : StepM α} {next : α → StepM β} {d d' : Folder}
    {halt : Halt} (h : act d = (.error halt, d')) : (act >>= next) d = (.error halt, d') := by
  change (fun p => ExceptT.bindCont next p.1 p.2) (act d) = _
  rw [h]
  rfl

/-- A step without a mishap does what it is for. -/
lemma step_of_some {damaged : Nat → Folder → Folder} {act : Folder → Option Folder} {d' : Folder}
    (h : act d = some d') : step .none damaged act d = (.ok (), d') := by
  unfold step
  simp only [h]

/-- A step that cannot be done leaves the directory as it is. -/
lemma step_of_none {damaged : Nat → Folder → Folder} {act : Folder → Option Folder}
    (h : act d = none) : step .none damaged act d = (.error .failed, d) := by
  unfold step
  simp only [h]

/-- Without a mishap, a file is created where it can stand. -/
lemma createFile_of_admits (admits : d.admits name = true) :
    createFile .none name d = (.ok (), d.insert name (.file [])) :=
  step_of_some (if_pos admits)

/-- Without a mishap, a file that is there is renamed to where it can stand. -/
lemma renameFile_of_admits {source target : Bytes} (found : d.find? source = some e)
    (admits : d.admits target = true) :
    renameFile .none source target d = (.ok (), (d.erase source).insert target e) := by
  refine step_of_some ?_
  simp only [found]
  exact if_pos admits

end Steps

/-- The directory in which the value of a key was written, but not renamed yet. -/
def staged (d : Folder) (key value : Bytes) : Folder :=
  (d.insert (temporaryName key) (.file [])).insert (temporaryName key) (.file value)

/-- The directory stays where it is while a value is written. -/
lemma isSome_staged (there : d.entries?.isSome = true) (key value : Bytes) :
    (d.staged key value).entries?.isSome = true :=
  isSome_insert (isSome_insert there ..) ..

/-- While a value is written, the file beside its record has it, and all others stay. -/
lemma find?_staged (there : d.entries?.isSome = true) (key value n : Bytes) :
    (d.staged key value).find? n =
      if temporaryName key = n then some (.file value) else d.find? n := by
  rw [staged, find?_insert (isSome_insert there ..), find?_insert there]
  split <;> rfl

/-- The directory with a record in place of an earlier one. -/
def stored (d : Folder) (key value : Bytes) : Folder :=
  ((d.staged key value).erase (temporaryName key)).insert (FileName.ofKey key) (.file value)

/-- The directory stays where it is when a value was put. -/
lemma isSome_stored (there : d.entries?.isSome = true) (key value : Bytes) :
    (d.stored key value).entries?.isSome = true :=
  isSome_insert (isSome_erase (isSome_staged there ..) _) ..

namespace IsTidy

/-- Without mishaps, all steps of a write come to their end. -/
lemma stage (h : d.IsTidy) (takes : Takes key) (value : Bytes) :
    Folder.stage (fun _ => .none) key value d = (.ok (), d.stored key value) := by
  have free : d.find? (temporaryName key) = none := h.find?_temporaryName key
  have there := isSome_staged h.there key value
  have beside : d.admits (temporaryName key) = true := by
    refine admits_iff.mpr ⟨h.there, fun none => ?_, takes.length_temporaryName, ?_⟩
    · exact List.cons_ne_nil _ _ (List.append_eq_nil_iff.mp none).2
    · rw [free]
      exact nofun
  have named : (d.staged key value).admits (FileName.ofKey key) = true := by
    refine admits_iff.mpr ⟨there, takes.ofKey_ne_nil, takes.length_ofKey, ?_⟩
    rw [find?_staged h.there, if_neg (temporaryName_ne_ofKey key key)]
    exact h.find?_ne_directory _
  have written : (d.staged key value).find? (temporaryName key) = some (.file value) := by
    rw [find?_staged h.there, if_pos rfl]
  unfold Folder.stage
  rw [StepM.bind_of_ok (createFile_of_admits beside)]
  exact renameFile_of_admits written named

/-- A value is put under a key that is taken. -/
lemma put (h : d.IsTidy) (takes : Takes key) (value : Bytes) :
    Folder.put key value d = (.ok (), d.stored key value) := by
  rw [Folder.put, putThrough, h.stage takes]

/-- A value that was put is the content of its file, and all others stay. -/
lemma find?_stored (h : d.IsTidy) (key value n : Bytes) :
    (d.stored key value).find? n =
      if FileName.ofKey key = n then some (.file value) else d.find? n := by
  have there := isSome_staged h.there key value
  rw [stored, find?_insert (isSome_erase there _), find?_erase, find?_staged h.there]
  by_cases beside : temporaryName key = n
  · subst beside
    rw [if_pos rfl, h.find?_temporaryName]
  · rw [if_neg beside, if_neg beside]

/-- A directory lists the keys of its records that begin with anything, in ascending order. -/
lemma keys (h : d.IsTidy) (start : Bytes) :
    ∃ ks, Folder.keys start d = (.ok ks, d) ∧ ks.Pairwise (· < ·) ∧
      ∀ k, k ∈ ks ↔ start <+: k ∧ d.record? k ≠ none := by
  obtain ⟨ks, listed, sorted, mem⟩ := keys_of_isSome h.there start
  refine ⟨ks, listed, sorted, fun k => ?_⟩
  rw [mem, h.find?_ofKey, ne_eq, Option.map_eq_none_iff]

/-- A tidy directory is flushed. -/
lemma flush (h : d.IsTidy) : Folder.flush d = (.ok (), d) := by
  rw [Folder.flush, h.there]
  rfl

end IsTidy

/-- Directories are lawful. -/
theorem lawful : view.Lawful where
  get live takes := .intro (IsTidy.get live takes) (.refl live) ⟨rfl, rfl⟩
  put {d key value} live takes := by
    obtain ⟨tidy, changed⟩ := IsTidy.update live takes (x := some value)
      (isSome_stored live.there key value) (live.find?_stored key value)
    exact .intro (IsTidy.put live takes value) ⟨tidy, id⟩ changed
  remove {d key} live takes := by
    obtain ⟨tidy, changed⟩ := IsTidy.update live takes (x := none) (isSome_erase live.there _)
      (find?_erase d (FileName.ofKey key))
    exact .intro (IsTidy.remove live takes) ⟨tidy, id⟩ changed
  keys {d start} live _ := by
    obtain ⟨ks, e, sorted, mem⟩ := IsTidy.keys live start
    exact .intro e (.refl live) ⟨sorted.nodup, mem, rfl⟩
  flush live := .intro (IsTidy.flush live) (.refl live) rfl

/-- Directories are orderly. -/
theorem orderly : view.Orderly where
  lawful := lawful
  keys start serves := by
    obtain ⟨ks, e, sorted, mem⟩ := IsTidy.keys serves.live start
    exact ⟨ks, _, e, serves, sorted, mem, rfl⟩
  takes live held := IsTidy.takes_of_record? live held

end MqttClient.Folder
