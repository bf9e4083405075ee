import MqttClient.Store.Table
import MqttClient.Store.Unreliable
import Mathlib.Tactic.Common
import Mathlib.Logic.Function.Basic

/-!
# Lawful stores

What is proved about journals holds of every store that keeps what it is given. A store is looked at
through its records by key. Each call of a lawful store does its job, or it fails and leaves the
records as they were; from a sound state on no call fails. So a store that stops working in the
middle of something is lawful, and shows what is left behind by a client that stops there.
-/

namespace MqttClient
variable {σ α β : Type}

/-- A computation goes on behind a call that succeeded. -/
lemma StoreM.bind_of_ok {act : StoreM σ α} {next : α → StoreM σ β} {s s' : σ} {x : α}
    (h : act s = (.ok x, s')) : (act >>= next) s = next x s' := by
  change (fun p => ExceptT.bindCont next p.1 p.2) (act s) = _
  rw [h]
  rfl

/-- A computation ends with a call that failed. -/
lemma StoreM.bind_of_error {act : StoreM σ α} {next : α → StoreM σ β} {s s' : σ} {e : StoreError}
    (h : act s = (.error e, s')) : (act >>= next) s = (.error e, s') := by
  change (fun p => ExceptT.bindCont next p.1 p.2) (act s) = _
  rw [h]
  rfl

/-- A sequence of calls answers if the first one answers and the others do behind it. -/
lemma StoreM.bind_eq_ok_iff {act : StoreM σ α} {next : α → StoreM σ β} {s s'' : σ} {y : β} :
    (act >>= next) s = (.ok y, s'') ↔
      ∃ x s', act s = (.ok x, s') ∧ next x s' = (.ok y, s'') := by
  rcases answer : act s with ⟨e | x, s'⟩
  · rw [bind_of_error answer]
    exact ⟨nofun, nofun⟩
  · rw [bind_of_ok answer]
    exact ⟨fun h => ⟨x, s', rfl, h⟩, fun ⟨_, _, same, h⟩ => by cases same; exact h⟩

/-- How a store is looked at. -/
structure StoreView (σ : Type) where
  /-- The value under a key, if there is one. -/
  records : σ → Bytes → Option Bytes
  /-- The states that the laws are about. -/
  live : σ → Prop
  /-- The states from which on no call fails. -/
  sound : σ → Prop
  /-- The keys that the laws are about. -/
  takes : Bytes → Prop

namespace StoreView
variable {V : StoreView σ}

/-- Calls lead from live states to live states, and from sound states to sound states. -/
structure Leads (V : StoreView σ) (s s' : σ) : Prop where
  live : V.live s'
  sound : V.sound s → V.sound s'

/-- What a call does: its answer and the state behind it satisfy `P`, or its failure and the state
behind that satisfy `E`. -/
def Meets (V : StoreView σ) (act : StoreM σ α) (s : σ) (P : α → σ → Prop)
    (E : StoreError → σ → Prop) : Prop :=
  match act s with
  | (.ok x, s') => V.Leads s s' ∧ P x s'
  | (.error e, s') => V.Leads s s' ∧ E e s'

/-- A failure that leaves the records as they are. It must not look like a damaged record, for then
the call would be taken to have answered. -/
structure Fails (V : StoreView σ) (s : σ) (e : StoreError) (s' : σ) : Prop where
  unsound : ¬ V.sound s
  undamaged : e ≠ .corrupted
  records_eq : V.records s' = V.records s

/-- The laws of a store that keeps what it is given. -/
structure Lawful [RecordStore σ] (V : StoreView σ) : Prop where
  get {s key} : V.live s → V.takes key →
    V.Meets (RecordStore.get key) s
      (fun x s' => x = V.records s key ∧ V.records s' = V.records s) (V.Fails s)
  put {s key value} : V.live s → V.takes key →
    V.Meets (RecordStore.put key value) s
      (fun _ s' => V.records s' = Function.update (V.records s) key (some value)) (V.Fails s)
  remove {s key} : V.live s → V.takes key →
    V.Meets (RecordStore.remove key) s
      (fun _ s' => V.records s' = Function.update (V.records s) key none) (V.Fails s)
  keys {s start} : V.live s → V.takes start →
    V.Meets (RecordStore.keys start) s
      (fun ks s' => ks.Nodup ∧ (∀ k, k ∈ ks ↔ start <+: k ∧ V.records s k ≠ none) ∧
        V.records s' = V.records s) (V.Fails s)
  flush {s} : V.live s →
    V.Meets RecordStore.flush s (fun _ s' => V.records s' = V.records s) (V.Fails s)

/-- Calls lead on from where others led. -/
lemma Leads.trans {s s' s'' : σ} (h : V.Leads s s') (h' : V.Leads s' s'') : V.Leads s s'' :=
  ⟨h'.live, fun sound => h'.sound (h.sound sound)⟩

/-- Nothing leads away from a live state. -/
lemma Leads.refl {s : σ} (live : V.live s) : V.Leads s s :=
  ⟨live, id⟩

/-- A failure behind a call that changed nothing. -/
lemma Fails.of_leads {s s' s'' : σ} {e : StoreError} (leads : V.Leads s s')
    (same : V.records s' = V.records s) (h : V.Fails s' e s'') : V.Fails s e s'' :=
  ⟨fun sound => h.unsound (leads.sound sound), h.undamaged, h.records_eq.trans same⟩

namespace Meets
variable {act : StoreM σ α} {next : α → StoreM σ β} {s : σ} {P P' : α → σ → Prop}
  {Q : β → σ → Prop} {E E' : StoreError → σ → Prop}

/-- What a call does has weaker descriptions. -/
lemma imp (h : V.Meets act s P E) (hP : ∀ x s', V.Leads s s' → P x s' → P' x s')
    (hE : ∀ e s', V.Leads s s' → E e s' → E' e s') : V.Meets act s P' E' := by
  unfold Meets at h ⊢
  split at h
  · exact ⟨h.1, hP _ _ h.1 h.2⟩
  · exact ⟨h.1, hE _ _ h.1 h.2⟩

/-- A constant meets what holds of it. -/
lemma pure {x : α} (live : V.live s) (h : P x s) : V.Meets (pure x) s P E :=
  ⟨.refl live, h⟩

/-- A fault meets what holds of it. -/
lemma throw {e : StoreError} (live : V.live s) (h : E e s) :
    V.Meets (throw e : StoreM σ α) s P E :=
  ⟨.refl live, h⟩

/-- A call behind another one begins where that one ends. -/
lemma bind (h : V.Meets act s P E)
    (h' : ∀ x s', V.Leads s s' → P x s' → V.Meets (next x) s' Q E) :
    V.Meets (act >>= next) s Q E := by
  unfold Meets at h
  split at h
  · rename_i x s' e
    obtain ⟨leads, hP⟩ := h
    have h' := h' x s' leads hP
    unfold Meets at h' ⊢
    rw [StoreM.bind_of_ok e]
    split at h'
    · exact ⟨leads.trans h'.1, h'.2⟩
    · exact ⟨leads.trans h'.1, h'.2⟩
  · rename_i fault s' e
    unfold Meets
    rw [StoreM.bind_of_error e]
    exact h

/-- A call whose failures are out of the question answers. -/
lemma answers (h : V.Meets act s P E) (never : ∀ e s', ¬ E e s') :
    ∃ x s', act s = (.ok x, s') ∧ V.Leads s s' ∧ P x s' := by
  unfold Meets at h
  split at h
  · rename_i x s' e
    exact ⟨x, s', e, h⟩
  · exact absurd h.2 (never _ _)

/-- A call that succeeds meets what holds behind it. -/
lemma intro {x : α} {s' : σ} (e : act s = (.ok x, s')) (leads : V.Leads s s') (h : P x s') :
    V.Meets act s P E := by
  unfold Meets
  rw [e]
  exact ⟨leads, h⟩

/-- What a call meets holds behind it if it succeeded. -/
lemma of_ok {x : α} {s' : σ} (h : V.Meets act s P E) (e : act s = (.ok x, s')) :
    V.Leads s s' ∧ P x s' := by
  unfold Meets at h
  rwa [e] at h

end Meets

/-- The look at a store that knows its sound states only. -/
def steady (V : StoreView σ) : StoreView σ :=
  { V with live := fun s => V.live s ∧ V.sound s }

/-- A call that fails only where the store may fail answers from a sound state. -/
lemma Meets.steady {act : StoreM σ α} {s : σ} {P : α → σ → Prop} (sound : V.sound s)
    (h : V.Meets act s P (V.Fails s)) : V.steady.Meets act s P (V.steady.Fails s) := by
  unfold Meets at h ⊢
  split at h
  · exact ⟨⟨⟨h.1.live, h.1.sound sound⟩, h.1.sound⟩, h.2⟩
  · exact absurd sound h.2.unsound

/-- A store that does not fail is lawful by itself. -/
lemma Lawful.steady [RecordStore σ] (law : V.Lawful) : V.steady.Lawful where
  get live takes := (law.get live.1 takes).steady live.2
  put live takes := (law.put live.1 takes).steady live.2
  remove live takes := (law.remove live.1 takes).steady live.2
  keys live takes := (law.keys live.1 takes).steady live.2
  flush live := (law.flush live.1).steady live.2

end StoreView

/-- What is left of records without those under some keys. -/
def without (records : Bytes → Option Bytes) (ks : List Bytes) : Bytes → Option Bytes :=
  fun k => if k ∈ ks then none else records k

section Without
variable (records : Bytes → Option Bytes) (key : Bytes) (ks : List Bytes)

/-- All records are left if no keys are removed. -/
lemma without_nil : without records [] = records :=
  funext fun _ => if_neg List.not_mem_nil

/-- Keys are removed one by one. -/
lemma without_cons :
    without records (key :: ks) = without (Function.update records key none) ks := by
  funext k
  unfold without
  rw [Function.update_apply]
  by_cases first : k = key
  · rw [if_pos (List.mem_cons.mpr (.inl first)), if_pos first, ite_self]
  · simp only [List.mem_cons, first, false_or, if_false]

/-- Under a key there is nothing left, or what there was. -/
lemma without_eq_or (k : Bytes) :
    without records ks k = none ∨ without records ks k = records k := by
  unfold without
  split
  · exact .inl rfl
  · exact .inr rfl

variable {records ks}

/-- Nothing is left under a start if all keys with it were removed. -/
lemma without_eq_none {start k : Bytes} (mem : ∀ k, k ∈ ks ↔ start <+: k ∧ records k ≠ none)
    (front : start <+: k) : without records ks k = none := by
  by_contra ne
  obtain gone | same := without_eq_or records ks k
  · exact ne gone
  · exact ne (if_pos ((mem k).mpr ⟨front, same ▸ ne⟩))

end Without

namespace Table

/-- A table holds the records that are found in it, and takes all keys. -/
def view : StoreView Table where
  records := find?
  live := fun _ => True
  sound := fun _ => True
  takes := fun _ => True

/-- Tables are lawful. -/
theorem lawful : view.Lawful where
  get _ _ := ⟨⟨trivial, id⟩, rfl, rfl⟩
  put {t key value} _ _ := by
    refine ⟨⟨trivial, id⟩, ?_⟩
    funext k
    change (t.entries.insert key value)[k]? = Function.update t.find? key (some value) k
    rw [Std.ExtTreeMap.getElem?_insert, Function.update_apply]
    by_cases same : k = key
    · rw [if_pos same, if_pos (Std.LawfulEqCmp.compare_eq_iff_eq.mpr same.symm)]
    · rw [if_neg same, if_neg fun e => same (Std.LawfulEqCmp.compare_eq_iff_eq.mp e).symm]
      rfl
  remove {t key} _ _ := by
    refine ⟨⟨trivial, id⟩, ?_⟩
    funext k
    change (t.entries.erase key)[k]? = Function.update t.find? key none k
    rw [Std.ExtTreeMap.getElem?_erase, Function.update_apply]
    by_cases same : k = key
    · rw [if_pos same, if_pos (Std.LawfulEqCmp.compare_eq_iff_eq.mpr same.symm)]
    · rw [if_neg same, if_neg fun e => same (Std.LawfulEqCmp.compare_eq_iff_eq.mp e).symm]
      rfl
  keys {t start} _ _ := by
    refine ⟨⟨trivial, id⟩, t.entries.nodup_keys.filter _, fun k => ?_, rfl⟩
    change k ∈ t.entries.keys.filter start.isPrefixOf ↔ start <+: k ∧ t.entries[k]? ≠ none
    rw [List.mem_filter, Std.ExtTreeMap.mem_keys, List.isPrefixOf_iff_prefix,
      Std.ExtTreeMap.mem_iff_isSome_getElem?, Option.isSome_iff_ne_none, and_comm]
  flush _ := ⟨⟨trivial, id⟩, rfl⟩

end Table

namespace Unreliable
variable {V : StoreView σ}

/-- A store some of whose calls fail holds the records of the store behind it. -/
def view (V : StoreView σ) : StoreView (Unreliable σ) where
  records u := V.records u.store
  live u := (∀ n call, u.plan n call ≠ some .corrupted) ∧ V.live u.store
  sound u := (∀ n call, u.plan n call = none) ∧ V.sound u.store
  takes := V.takes

/-- A call reaches the store behind, or it fails before. -/
lemma meets_attempt {call : StoreCall} {act : StoreM σ α} {u : Unreliable σ} {P : α → σ → Prop}
    (live : (view V).live u) (h : V.Meets act u.store P (V.Fails u.store)) :
    (view V).Meets (attempt call act) u (fun x u' => P x u'.store) ((view V).Fails u) := by
  unfold StoreView.Meets attempt
  cases planned : u.plan u.calls call with
  | some e =>
    refine ⟨⟨live, id⟩, fun sound => ?_, fun damaged => ?_, rfl⟩
    · rw [sound.1] at planned
      cases planned
    · exact live.1 _ _ (damaged ▸ planned)
  | none =>
    unfold StoreView.Meets at h
    simp only
    split at h
    · rename_i x s e
      rw [e]
      exact ⟨⟨⟨live.1, h.1.live⟩, fun sound => ⟨sound.1, h.1.sound sound.2⟩⟩, h.2⟩
    · rename_i fault s e
      rw [e]
      exact ⟨⟨⟨live.1, h.1.live⟩, fun sound => ⟨sound.1, h.1.sound sound.2⟩⟩,
        fun sound => h.2.unsound sound.2, h.2.undamaged, h.2.records_eq⟩

/-- Stores some of whose calls fail are lawful if the stores behind them are. -/
theorem lawful [RecordStore σ] (h : V.Lawful) : (view V).Lawful where
  get live takes := meets_attempt live (h.get live.2 takes)
  put live takes := meets_attempt live (h.put live.2 takes)
  remove live takes := meets_attempt live (h.remove live.2 takes)
  keys live takes := meets_attempt live (h.keys live.2 takes)
  flush live := meets_attempt live (h.flush live.2)

/-- A store whose calls fail by a plan holds the records of the store behind it. It is sound if no
later call fails, whatever failed before. -/
def viewOnward (plan : Nat → StoreCall → Option StoreError) (V : StoreView σ) :
    StoreView (Unreliable σ) where
  records u := V.records u.store
  live u := u.plan = plan ∧ (∀ n call, plan n call ≠ some .corrupted) ∧ V.live u.store
  sound u := (∀ n call, u.calls ≤ n → plan n call = none) ∧ V.sound u.store
  takes := V.takes

section
variable {plan : Nat → StoreCall → Option StoreError}

/-- A call that the plan lets through does what the store behind does, and fails else. -/
lemma meets_attempt_onward {call : StoreCall} {act : StoreM σ α} {u : Unreliable σ}
    {P : α → σ → Prop} (live : (viewOnward plan V).live u)
    (h : V.Meets act u.store P (V.Fails u.store)) :
    (viewOnward plan V).Meets (attempt call act) u (fun x u' => P x u'.store)
      ((viewOnward plan V).Fails u) := by
  obtain ⟨rfl, undamaged, live⟩ := live
  have later (sound : (viewOnward u.plan V).sound u) (n : Nat) (call : StoreCall)
      (le : u.calls + 1 ≤ n) : u.plan n call = none := sound.1 n call (Nat.le_of_succ_le le)
  unfold StoreView.Meets attempt
  cases planned : u.plan u.calls call with
  | some e =>
    refine ⟨⟨⟨rfl, undamaged, live⟩, fun sound => ⟨later sound, sound.2⟩⟩, fun sound => ?_,
      fun damaged => ?_, rfl⟩
    · rw [sound.1 _ _ (Nat.le_refl _)] at planned
      cases planned
    · exact undamaged _ _ (damaged ▸ planned)
  | none =>
    unfold StoreView.Meets at h
    simp only
    split at h
    · rename_i x s e
      rw [e]
      exact ⟨⟨⟨rfl, undamaged, h.1.live⟩, fun sound => ⟨later sound, h.1.sound sound.2⟩⟩, h.2⟩
    · rename_i fault s e
      rw [e]
      exact ⟨⟨⟨rfl, undamaged, h.1.live⟩, fun sound => ⟨later sound, h.1.sound sound.2⟩⟩,
        fun sound => h.2.unsound sound.2, h.2.undamaged, h.2.records_eq⟩

/-- A store whose calls fail by a plan is lawful if the store behind it is. -/
theorem lawful_onward [RecordStore σ] (h : V.Lawful) : (viewOnward plan V).Lawful where
  get live takes := meets_attempt_onward live (h.get live.2.2 takes)
  put live takes := meets_attempt_onward live (h.put live.2.2 takes)
  remove live takes := meets_attempt_onward live (h.remove live.2.2 takes)
  keys live takes := meets_attempt_onward live (h.keys live.2.2 takes)
  flush live := meets_attempt_onward live (h.flush live.2.2)

end

end Unreliable

end MqttClient
