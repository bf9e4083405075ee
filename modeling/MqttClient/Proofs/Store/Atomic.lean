import MqttClient.Proofs.Store.Folder

/-!
# All or nothing

A value is put under a key in steps, any of which may fail or be the last one. All of them but the
last change nothing but the file that is still being written, and it is no file of any key. So
whatever stands in the directory and wherever the steps end, the key has its earlier value or the
new one, and nothing else changes that can be seen.
-/

namespace MqttClient.Folder
variable {d d' d'' : Folder} {names names' : Bytes → Prop} {name key value : Bytes} {e : DirEntry}

/-- Whether two directories are the same but for what stands at some names. -/
structure SameBut (names : Bytes → Prop) (d d' : Folder) : Prop where
  isSome_eq : d'.entries?.isSome = d.entries?.isSome
  find?_eq : ∀ n, ¬ names n → d'.find? n = d.find? n

namespace SameBut

/-- A directory is the same as itself. -/
lemma refl (names : Bytes → Prop) (d : Folder) : SameBut names d d :=
  ⟨rfl, fun _ _ => rfl⟩

/-- Directories that are the same but for some names are so over several changes. -/
lemma trans (h : SameBut names d d') (h' : SameBut names d' d'') : SameBut names d d'' :=
  ⟨h'.isSome_eq.trans h.isSome_eq, fun n other => (h'.find?_eq n other).trans (h.find?_eq n other)⟩

/-- Directories that are the same but for some names are the same but for more of them. -/
lemma mono (h : SameBut names d d') (imp : ∀ n, names n → names' n) : SameBut names' d d' :=
  ⟨h.isSome_eq, fun n other => h.find?_eq n fun named => other (imp n named)⟩

/-- A file that is put somewhere leaves all other names. -/
lemma insert (d : Folder) (name : Bytes) (e : DirEntry) :
    SameBut (· = name) d (d.insert name e) := by
  refine ⟨Option.isSome_map, fun n other => ?_⟩
  cases there : d.entries?.isSome with
  | true => rw [find?_insert there, if_neg (Ne.symm other)]
  | false =>
    rw [Option.isSome_eq_false_iff, Option.isNone_iff_eq_none] at there
    rw [Folder.insert, find?, find?, there]
    rfl

/-- A file that is removed leaves all other names. -/
lemma erase (d : Folder) (name : Bytes) : SameBut (· = name) d (d.erase name) :=
  ⟨Option.isSome_map, fun n other => by rw [find?_erase, if_neg (Ne.symm other)]⟩

/-- What is done with a name does not depend on what stands at others. -/
lemma admits_eq (h : SameBut names d d') (other : ¬ names name) :
    d'.admits name = d.admits name := by
  rw [admits, admits, h.isSome_eq, h.find?_eq name other]

/-- The same value is read under a key whose file name is none of the changed ones. -/
lemma get_eq (h : SameBut names d d') (other : ¬ names (FileName.ofKey key)) :
    (get key d').1 = (get key d).1 := by
  unfold get
  simp only
  rw [h.isSome_eq, h.admits_eq other, h.find?_eq _ other]
  split
  · rfl
  · split <;> rfl

/-- The keys at whose names nothing is changed are listed as before. -/
lemma keys_eq (h : SameBut names d d') (only : ∀ k, names (FileName.ofKey k) → k = key)
    (start : Bytes) :
    (keys start d').1.map (·.filter (· ≠ key)) = (keys start d).1.map (·.filter (· ≠ key)) := by
  cases there : d.entries?.isSome with
  | true =>
    obtain ⟨ks, listed, sorted, mem⟩ := keys_of_isSome there start
    obtain ⟨ks', listed', sorted', mem'⟩ := keys_of_isSome (h.isSome_eq.trans there) start
    rw [listed, listed']
    refine congrArg Except.ok ((sorted'.filter _).eq_of_mem_iff (sorted.filter _) fun k => ?_)
    rw [List.mem_filter, List.mem_filter, mem, mem', and_congr_left_iff, decide_eq_true_iff]
    intro other
    rw [h.find?_eq _ fun named => other (only k named)]
  | false =>
    have none {d : Folder} (gone : d.entries?.isSome = false) :
        keys start d = (.error .readError, d) := by
      rw [Option.isSome_eq_false_iff, Option.isNone_iff_eq_none] at gone
      rw [keys, gone]
    rw [none there, none (h.isSome_eq.trans there)]

end SameBut

/-- What steps lead to: a directory with `P` if they come to their end, or else one with `E`. -/
def StepM.Leads (act : StepM Unit) (d : Folder) (P E : Folder → Prop) : Prop :=
  match act d with
  | (.ok _, d') => P d'
  | (.error _, d') => E d'

section Leads
variable {P Q E : Folder → Prop}

/-- Steps lead on from where the ones before them led. -/
lemma StepM.Leads.bind {act : StepM Unit} {next : Unit → StepM Unit} (h : act.Leads d P E)
    (h' : ∀ d', P d' → (next ()).Leads d' Q E) : (act >>= next).Leads d Q E := by
  unfold StepM.Leads at h
  split at h
  · rename_i d' answer
    have rest := h' d' h
    unfold StepM.Leads at rest ⊢
    rwa [StepM.bind_of_ok answer]
  · rename_i halt d' answer
    unfold StepM.Leads
    rwa [StepM.bind_of_error answer]

/-- A step that cannot be done leaves the directory as it is. -/
lemma step_leads {mishap : Mishap} {damaged : Nat → Folder → Folder}
    {act : Folder → Option Folder} (ends : ∀ kept, E (damaged kept d)) (idle : E d)
    (done : ∀ d', act d = some d' → P d') : (step mishap damaged act).Leads d P E := by
  unfold StepM.Leads
  cases mishap with
  | none =>
    cases does : act d with
    | none => rwa [step_of_none does]
    | some d' =>
      rw [step_of_some does]
      exact done d' does
  | failure kept => exact ends kept
  | stop kept => exact ends kept

end Leads

/-- Whether a file stands at a name, and nothing else was changed but what stood at another one. -/
structure Placed (source target content : Bytes) (d d' : Folder) : Prop where
  same : SameBut (fun n => n = source ∨ n = target) d d'
  admits : d'.admits target = true
  found : d'.find? target = some (.file content)

section Steps
variable (mishap : Mishap) {d₀ : Folder}

/-- Creating a file changes what is at its name only. -/
lemma createFile_leads (name : Bytes) (d : Folder) :
    (createFile mishap name).Leads d
      (fun d' => SameBut (· = name) d d' ∧ d'.entries?.isSome = true) (SameBut (· = name) d) := by
  refine step_leads (fun _ => .refl _ d) (.refl _ d) fun d' does => ?_
  split at does
  · rename_i admits
    cases does
    exact ⟨.insert d name _, isSome_insert (admits_iff.mp admits).1 ..⟩
  · cases does

/-- Writing a file changes what is at its name only, and leaves the whole content if it ends. -/
lemma writeFile_leads (before : SameBut (· = name) d₀ d) (there : d.entries?.isSome = true)
    (content : Bytes) :
    (writeFile mishap name content).Leads d
      (fun d' => SameBut (· = name) d₀ d' ∧ d'.find? name = some (.file content))
      (SameBut (· = name) d₀) := by
  refine step_leads (fun _ => before.trans (.insert d name _)) before fun d' does => ?_
  cases does
  refine ⟨before.trans (.insert d name _), ?_⟩
  rw [find?_insert there, if_pos rfl]

/-- Syncing a file changes nothing. -/
lemma syncFile_leads {E : Folder → Prop} (before : E d) : (syncFile mishap).Leads d (· = d) E :=
  step_leads (fun _ => before) before fun _ does => by
    cases does
    rfl

/-- Renaming a file puts it in its place, or changes nothing. -/
lemma renameFile_leads {content : Bytes} (before : SameBut (· = name) d₀ d)
    (found : d.find? name = some (.file content)) (target : Bytes) :
    (renameFile mishap name target).Leads d (Placed name target content d₀)
      (SameBut (· = name) d₀) := by
  refine step_leads (fun _ => before) before fun d' does => ?_
  simp only [found] at does
  split at does
  · rename_i admits
    cases does
    obtain ⟨there, ne, le, -⟩ := admits_iff.mp admits
    have there' := isSome_erase there name
    have placed : ((d.erase name).insert target (.file content)).find? target =
        some (.file content) := by
      rw [find?_insert there', if_pos rfl]
    refine ⟨?_, admits_iff.mpr ⟨isSome_insert there' .., ne, le, ?_⟩, placed⟩
    · have erased := before.trans (.erase d name)
      exact (erased.mono fun _ => .inl).trans ((SameBut.insert _ target _).mono fun _ => .inr)
    · rw [placed]
      exact nofun
  · cases does

/-- Removing a file changes what is at its name only. -/
lemma removeFile_leads (before : SameBut (· = name) d₀ d) :
    (removeFile mishap name).Leads d (SameBut (· = name) d₀) (SameBut (· = name) d₀) := by
  refine step_leads (fun _ => before) before fun d' does => ?_
  split at does
  · split at does
    · cases does
      exact before.trans (.erase d name)
    · cases does
  · cases does

end Steps

/-- All steps are done, or nothing but the file that is still being written has changed. -/
lemma stage_leads (mishap : WriteStep → Mishap) (key value : Bytes) (d : Folder) :
    (stage mishap key value).Leads d (Placed (temporaryName key) (FileName.ofKey key) value d)
      (SameBut (· = temporaryName key) d) := by
  refine (createFile_leads _ _ d).bind fun d₁ created => ?_
  refine (writeFile_leads _ created.1 created.2 value).bind fun d₂ written => ?_
  refine (syncFile_leads _ written.1).bind fun d₃ synced => ?_
  rw [synced]
  exact renameFile_leads _ written.1 written.2 _

/-- A value is in place exactly if that is the answer, and otherwise nothing but the file that is
still being written has changed. -/
lemma putThrough_cases (mishap : WriteStep → Mishap) (key value : Bytes) (d : Folder) :
    (∃ d', putThrough mishap key value d = (some (.ok ()), d') ∧
        Placed (temporaryName key) (FileName.ofKey key) value d d') ∨
      ∃ result d', putThrough mishap key value d = (result, d') ∧ result ≠ some (.ok ()) ∧
        SameBut (· = temporaryName key) d d' := by
  have staged := stage_leads mishap key value d
  unfold StepM.Leads at staged
  unfold putThrough
  rcases steps : stage mishap key value d with ⟨halt | _, d₁⟩
  · rw [steps] at staged
    cases halt with
    | stopped => exact .inr ⟨none, d₁, rfl, nofun, staged⟩
    | failed =>
      have cleaned := removeFile_leads (mishap .cleanUp) staged
      unfold StepM.Leads at cleaned
      simp only
      rcases tidied : removeFile (mishap .cleanUp) (temporaryName key) d₁ with ⟨halt | _, d₂⟩
      · rw [tidied] at cleaned
        cases halt with
        | stopped => exact .inr ⟨none, d₂, rfl, nofun, cleaned⟩
        | failed => exact .inr ⟨some (.error .writeError), d₂, rfl, nofun, cleaned⟩
      · rw [tidied] at cleaned
        exact .inr ⟨some (.error .writeError), d₂, rfl, nofun, cleaned⟩
  · rw [steps] at staged
    exact .inl ⟨d₁, rfl, staged⟩

/-- Putting a value is all or nothing. Whatever stands in the directory and whatever befalls each of
the steps, the key has its earlier value or the whole new one, the new one if that is the answer and
the earlier one if the answer is an error. No other key has another value for it, is listed or is no
longer listed. A process that stops right behind the last step leaves what an answer does. -/
theorem putThrough_atomic (mishap : WriteStep → Mishap) (key value : Bytes) (d : Folder) :
    let r := putThrough mishap key value d
    ((get key r.2).1 = (get key d).1 ∨ (get key r.2).1 = .ok (some value)) ∧
      (r.1 = some (.ok ()) → (get key r.2).1 = .ok (some value)) ∧
      (∀ e, r.1 = some (.error e) → (get key r.2).1 = (get key d).1) ∧
      (∀ k, k ≠ key → (get k r.2).1 = (get k d).1) ∧
      ∀ start, (keys start r.2).1.map (·.filter (· ≠ key)) =
        (keys start d).1.map (·.filter (· ≠ key)) := by
  intro r
  have beside (k : Bytes) : ¬ FileName.ofKey k = temporaryName key :=
    (temporaryName_ne_ofKey key k).symm
  obtain ⟨d', put, placed⟩ | ⟨result, d', put, other, same⟩ := putThrough_cases mishap key value d
  · have got : (get key d').1 = .ok (some value) := by
      rw [get_of_admits placed.admits, record?, placed.found]
      rfl
    have only (k : Bytes) (named : FileName.ofKey k = temporaryName key ∨
        FileName.ofKey k = FileName.ofKey key) : k = key :=
      FileName.ofKey_inj.mp (named.resolve_left (beside k))
    rw [show r = _ from put]
    refine ⟨.inr got, fun _ => got, fun e wrong => ?_, fun k ne => ?_, fun start => ?_⟩
    · cases wrong
    · exact placed.same.get_eq fun named => ne (only k named)
    · exact placed.same.keys_eq only start
  · rw [show r = _ from put]
    have kept (k : Bytes) : (get k d').1 = (get k d).1 := same.get_eq (beside k)
    exact ⟨.inl (kept key), fun wrong => absurd wrong other, fun _ _ => kept key,
      fun k _ => kept k, same.keys_eq fun k named => absurd named (beside k)⟩

end MqttClient.Folder
