import MqttClient.Proofs.Session.Effect
import MqttClient.Proofs.Session.Ownership
import MqttClient.Proofs.Session.Replay
import MqttClient.Proofs.Store.Folder

/-!
# Clients of a directory

The keys of a client are a little longer than its identifier, and the names of the files in which a
directory keeps its records are longer again. A journal is opened for any identifier whose length
fits into two bytes, as opening it takes no file of a record. Messages can be kept for those only
for which the longest name is still one that a file can have.
-/

namespace MqttClient

namespace Folder
variable {d : Folder} {key : Bytes}

/-- A key whose file has too long a name cannot be read. -/
lemma get_of_long (there : d.entries?.isSome = true)
    (long : maxName < (FileName.ofKey key).length) : get key d = (.error .readError, d) := by
  unfold get
  simp only
  rw [there, not_admits_of_long long]
  rfl

/-- A value is not written where the file that is to be renamed has too long a name. -/
lemma put_of_long (long : maxName < (temporaryName key).length) (value : Bytes) :
    put key value d = (.error .writeError, d) := by
  have refused := not_admits_of_long (d := d) long
  have halted : stage (fun _ => .none) key value d = (.error .failed, d) := by
    refine StepM.bind_of_error (step_of_none ?_)
    rw [refused]
    rfl
  have left : removeFile .none (temporaryName key) d = (.error .failed, d) := by
    refine step_of_none ?_
    rw [refused]
    split <;> rfl
  rw [put, putThrough, halted]
  simp only
  rw [left]

end Folder

namespace Journal
variable {clientId : Bytes} {v : Version} {d d' : Folder} {j : Journal} {p : Packet}
  {kind : Record.Kind} {id : UInt16}

/-- A key takes five bytes more than the identifier of the client. -/
lemma length_keyAt_startOf (clientId : Bytes) (kind : Record.Kind) (id : UInt16) :
    (keyAt (startOf clientId) kind id).length = clientId.length + 5 := by
  rw [keyAt, startOf]
  simp only [List.length_append, Bytes.length_bigEndian, List.length_singleton]
  omega

/-- A folder takes all keys of a client whose identifier has at most 183 bytes. -/
lemma takesAll_folder (le : clientId.length ≤ 183) :
    TakesAll Folder.view (startOf clientId) where
  takes_start := by
    refine ⟨List.cons_ne_nil _ _, ?_⟩
    rw [startOf, List.length_append, Bytes.length_bigEndian]
    omega
  takes_key kind id := by
    refine ⟨fun none => ?_, ?_⟩
    · exact List.cons_ne_nil _ _ (List.append_eq_nil_iff.mp none).2
    · rw [length_keyAt_startOf]
      omega

section Store
variable {σ : Type} [RecordStore σ] {s : σ}

/-- No place is found where neither the packet has a record nor its message. -/
lemma seqOf?_of_absent (absent : ∀ kind, RecordStore.get (j.key kind id) s = (.ok none, s)) :
    seqOf? j kind id s = (.ok none, s) := by
  have none (kind : Record.Kind) : seq? j.version (j.key kind id) s = (.ok none, s) := by
    have looked : lookup j.version (j.key kind id) s = (.ok Option.none, s) := by
      rw [lookup, absent kind]
      rfl
    exact StoreM.map_of_eq looked (Option.map Record.seq)
  unfold seqOf?
  rw [StoreM.bind_of_ok (none kind)]
  cases kind with
  | message => rfl
  | release => exact none .message

/-- A key that the store fails on gives no place. -/
lemma seqOf?_of_error {e : StoreError} (damaged : e ≠ .corrupted)
    (fails : RecordStore.get (j.key kind id) s = (.error e, s)) :
    seqOf? j kind id s = (.error e, s) := by
  have looked : lookup j.version (j.key kind id) s = (.error e, s) := by
    unfold lookup
    rw [fails]
    cases e with
    | corrupted => exact absurd rfl damaged
    | _ => rfl
  exact StoreM.bind_of_error (StoreM.map_of_eq looked (Option.map Record.seq))

end Store

/-- The name of a key is about a third longer than the key. -/
lemma length_ofKey_key (start : j.start = startOf clientId) (kind : Record.Kind) (id : UInt16) :
    (FileName.ofKey (j.key kind id)).length = (clientId.length * 4 + 22) / 3 := by
  have bytes : (j.key kind id).length = clientId.length + 5 := by
    rw [← length_keyAt_startOf clientId kind id, ← start]
    rfl
  rw [FileName.length_ofKey, bytes]
  omega

/-- Nothing is written for a client whose identifier is longer than the names of files allow. Where
the records themselves could still be read, it is the file beside them that is not made. -/
lemma write_of_long (tidy : d.IsTidy) (clear : Folder.view.IsClear j.start d)
    (start : j.start = startOf clientId) (long : 183 < clientId.length)
    (slot : Record.slot? p = some (kind, id)) :
    ∃ j', write p (j, d) =
      (.error (if clientId.length ≤ 186 then .writeError else .readError), j', d) := by
  have names := length_ofKey_key (j := j) start
  -- up to here the record itself could still be read, but not the file beside it be written
  by_cases le : clientId.length ≤ 186
  · have absent (kind : Record.Kind) : RecordStore.get (j.key kind id) d = (.ok none, d) := by
      have admits : d.admits (FileName.ofKey (j.key kind id)) = true := by
        refine Folder.admits_iff.mpr ⟨tidy.there, fun none => ?_, ?_, tidy.find?_ne_directory _⟩
        · have empty := congrArg List.length none
          rw [names, List.length_nil] at empty
          omega
        · rw [names, Folder.maxName]
          omega
      have none : d.record? (j.key kind id) = none := clear _ (prefix_keyAt ..)
      rw [← none]
      exact Folder.get_of_admits admits
    have put (value : Bytes) :
        RecordStore.put (j.key kind id) value d = (.error .writeError, d) := by
      refine Folder.put_of_long ?_ value
      rw [Folder.temporaryName, List.length_append, names, Folder.maxName]
      change 255 < _ + 4
      omega
    rw [write_eq slot, seqOf?_of_absent absent, if_pos le]
    cases encoded : p.encode j.version with
    | error e => exact ⟨_, rfl⟩
    | ok bytes =>
      simp only
      rw [put]
      exact ⟨_, rfl⟩
  · have fails : RecordStore.get (j.key kind id) d = (.error .readError, d) := by
      refine Folder.get_of_long tidy.there ?_
      rw [names, Folder.maxName]
      omega
    rw [write_eq slot, seqOf?_of_error (by decide) fails, if_neg le]
    exact ⟨j, rfl⟩

/-- Nothing is read where no record stands. -/
lemma readAll_of_isClear {σ : Type} [RecordStore σ] {V : StoreView σ} (law : V.Orderly) {s : σ}
    (serves : V.Serves s) (clear : V.IsClear j.start s) : (readAll (j, s)).1 = .ok [] := by
  obtain ⟨ks, t, read, -, -, names⟩ := readAll_of_serves law serves j
  have none : ks = [] := by
    rw [List.eq_nil_iff_forall_not_mem]
    intro k mem
    obtain ⟨front, ne⟩ := (names.mem_iff k).mp mem
    exact ne (clear k front)
  rw [read, none, List.filterMap_nil, replay_nil]

/-- The only packet that is stored is read again. -/
lemma readAll_of_write {σ : Type} [RecordStore σ] {V : StoreView σ} (law : V.Orderly) {s : σ}
    (serves : V.Serves s) (takes : TakesAll V j.start) (clear : V.IsClear j.start s)
    (slot : Record.slot? p = some (kind, id)) (admitted : p.Admitted j.version) {bytes : Bytes}
    (encoded : p.encode j.version = .ok bytes) :
    (write p (j, s)).1 = .ok true ∧
      (readAll (write p (j, s)).2).1 = .ok [p.readBack j.version] := by
  obtain ⟨t, written, serves', changed⟩ := write_of_encode law.lawful serves takes slot encoded
  let place? := (slotsOf j.start j.version (V.records s)).place? kind id
  obtain ⟨start, version⟩ : (j.placed place?).start = j.start ∧
      (j.placed place?).version = j.version := by
    cases place? <;> exact ⟨rfl, rfl⟩
  obtain ⟨ks, t', read, -, -, names⟩ := readAll_of_serves law serves' (j.placed place?)
  rw [start] at names
  rw [version] at read
  have one : ks = [keyAt j.start kind id] := by
    refine names.sorted.eq_of_mem_iff (List.pairwise_singleton ..) fun k => ?_
    rw [names.mem_iff, changed, List.mem_singleton, Function.update_apply]
    constructor
    · rintro ⟨front, ne⟩
      by_contra other
      rw [if_neg other] at ne
      exact ne (clear k front)
    · rintro rfl
      rw [if_pos rfl]
      exact ⟨prefix_keyAt .., Option.some_ne_none _⟩
  rw [written]
  refine ⟨rfl, ?_⟩
  rw [read, one, List.filterMap_cons, changed, Function.update_self, Option.bind_some,
    Record.decode?_encode_readBack _ encoded admitted, List.filterMap_nil, replay_singleton]

/-- A directory keeps the packets of a client exactly if the identifier is not longer than 183
bytes, though the journal is opened for identifiers that are much longer. For these every packet is
refused, and the directory stays as it is. -/
theorem readAll_write_folder_iff {clientId : String} (tidy : d.IsTidy)
    (clear : Folder.view.IsClear (startOf (Bytes.ofText clientId)) d)
    (opened : openFor clientId v d = (.ok j, d')) (slot : Record.slot? p = some (kind, id))
    (admitted : p.Admitted v) :
    let length := (Bytes.ofText clientId).length
    let written := write p (j, d')
    (written.1 = .ok true ∧ (readAll written.2).1 = .ok [p.readBack v] ↔
        length ≤ 183 ∧ ∃ bytes, p.encode v = .ok bytes) ∧
      (183 < length →
        written.1 = .error (if length ≤ 186 then .writeError else .readError) ∧
          written.2.2 = d' ∧ (readAll written.2).1 = .ok []) := by
  intro length written
  have serves : Folder.view.Serves d := ⟨tidy, trivial⟩
  obtain ⟨ks, t, opened', serves', same, -⟩ :=
    openFor_of_serves (v := v) Folder.orderly serves (length_lt_of_openFor opened)
  obtain ⟨start, version⟩ := start_of_openFor opened
  obtain ⟨-, rfl⟩ := Prod.mk.inj (opened.symm.trans opened')
  have clear' : Folder.view.IsClear j.start d' := by
    rw [start]
    intro k front
    rw [same]
    exact clear k front
  -- beyond the bound the file beside the record has no name, and the store stays as it is
  have refused (long : 183 < length) :
      written.1 = .error (if length ≤ 186 then .writeError else .readError) ∧
        written.2.2 = d' ∧ (readAll written.2).1 = .ok [] := by
    obtain ⟨j', refused⟩ := write_of_long (p := p) serves'.live clear' start long slot
    have stays := (stays_write p j d').1
    rw [refused] at stays
    rw [show written = _ from refused]
    exact ⟨rfl, rfl, readAll_of_isClear Folder.orderly serves' (stays ▸ clear')⟩
  refine ⟨⟨fun ⟨done, _⟩ => ?_, fun ⟨le, bytes, encoded⟩ => ?_⟩, refused⟩
  · have le : length ≤ 183 := by
      by_contra long
      rw [(refused (Nat.not_le.mp long)).1] at done
      cases done
    refine ⟨le, ?_⟩
    cases encoded : p.encode v with
    | ok bytes => exact ⟨bytes, rfl⟩
    | error e =>
      rw [← version] at encoded
      obtain ⟨_, failed, -⟩ := write_of_encode_error Folder.orderly.lawful serves'
        (start ▸ takesAll_folder le) slot encoded
      rw [show written = _ from failed] at done
      cases done
  · rw [← version] at admitted encoded ⊢
    exact readAll_of_write Folder.orderly serves' (start ▸ takesAll_folder le) clear' slot admitted
      encoded

/-- For an identifier of 183 bytes a message is kept in a directory that was empty. -/
theorem readAll_write_folder_longest :
    let clientId := String.ofList (List.replicate 183 'a')
    let j : Journal := ⟨startOf (Bytes.ofText clientId), .v311, 0⟩
    let m : Packet := .publish { qos := .atLeastOnce, topic := "a", packetId := 1, payload := [1] }
    let opened := openFor clientId .v311 Folder.empty
    opened.1 = .ok j ∧ (Bytes.ofText clientId).length = 183 ∧
      (write m (j, opened.2)).1 = .ok true ∧
      (readAll (write m (j, opened.2)).2).1 = .ok [m] := by
  intro clientId j m opened
  have opens : opened.1 = .ok j := by decide +kernel
  have length : (Bytes.ofText clientId).length = 183 := by decide +kernel
  have clear : Folder.view.IsClear (startOf (Bytes.ofText clientId)) Folder.empty := by
    intro k _
    change Folder.empty.record? k = none
    rw [Folder.record?, Folder.find?_empty]
    rfl
  have encoded : m.encode .v311 = .ok [0x32, 6, 0, 1, 97, 0, 1, 1] := by decide +kernel
  have slot : Record.slot? m = some (.message, 1) := rfl
  have admitted : m.Admitted .v311 := trivial
  have opened' : opened = (.ok j, opened.2) := opens ▸ Prod.mk.eta.symm
  have kept := readAll_write_folder_iff Folder.isTidy_empty clear opened' slot admitted
  exact ⟨opens, length, kept.1.mpr ⟨Nat.le_of_eq length, _, encoded⟩⟩

/-- A journal is opened for an identifier of one byte more, and a message that can be written is
refused. -/
theorem not_readAll_write_folder :
    let clientId := String.ofList (List.replicate 184 'a')
    let m : Packet := .publish { qos := .atLeastOnce, topic := "a", packetId := 1, payload := [1] }
    let opened := openFor clientId .v311 Folder.empty
    ∃ j, opened.1 = .ok j ∧ (m.encode .v311).isOk = true ∧
      (write m (j, opened.2)).1 = .error .writeError ∧
      (readAll (write m (j, opened.2)).2).1 = .ok [] := by
  intro clientId m opened
  refine ⟨⟨startOf (Bytes.ofText clientId), .v311, 0⟩, ?_⟩
  decide +kernel

end Journal

end MqttClient
