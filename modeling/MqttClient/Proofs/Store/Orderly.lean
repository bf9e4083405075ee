import MqttClient.Proofs.Store.Lawful
import Mathlib.Data.List.Sort

/-!
# Orderly stores

What a lawful store answers while it does not fail depends on its records alone, but for the order
in which it lists keys. An orderly store lists them in ascending order, whatever they are to begin
with, so that two such stores with the same records cannot be told apart.
-/

namespace MqttClient
variable {σ : Type}

/-- Comparing bytes tells their order. -/
lemma Bytes.compare_eq_lt_iff {a b : Bytes} : compare a b = .lt ↔ a < b := by
  induction a generalizing b with
  | nil => cases b <;> simp [compare, List.compareLex]
  | cons x a ih =>
    cases b with
    | nil => simp [compare, List.compareLex]
    | cons y b =>
      rw [List.cons_lt_cons_iff, ← ih, List.compare_cons_cons, Ordering.then_eq_lt,
        Std.LawfulEqCmp.compare_eq_iff_eq, Std.compare_eq_lt]

/-- Sorting byte strings that are all different puts them in ascending order. -/
lemma Bytes.pairwise_mergeSort {ks : List Bytes} (nodup : ks.Nodup) :
    (ks.mergeSort fun a b => (compare a b).isLE).Pairwise (· < ·) := by
  have total (a b : Bytes) : ((compare a b).isLE || (compare b a).isLE) = true := by
    rw [Std.OrientedOrd.eq_swap (a := b)]
    cases compare a b <;> rfl
  have sorted := List.pairwise_mergeSort (fun _ _ _ => Std.TransCmp.isLE_trans) total ks
  have apart := (List.mergeSort_perm ks fun a b => (compare a b).isLE).nodup_iff.mpr nodup
  refine (sorted.and apart).imp fun {a b} h => Bytes.compare_eq_lt_iff.mp ?_
  refine (Ordering.isLE_iff_eq_lt_or_eq_eq.mp h.1).resolve_right fun same => h.2 ?_
  exact Std.LawfulEqCmp.compare_eq_iff_eq.mp same

namespace StoreView
variable {V : StoreView σ} {s : σ} {key : Bytes}

/-- Whether a store answers every call from now on. -/
structure Serves (V : StoreView σ) (s : σ) : Prop where
  live : V.live s
  sound : V.sound s

/-- A store that serves still serves behind a call. -/
lemma Serves.leads {s' : σ} (h : V.Serves s) (leads : V.Leads s s') : V.Serves s' :=
  ⟨leads.live, leads.sound h.sound⟩

/-- A call that fails only where the store may fail answers. -/
lemma Serves.answers {α : Type} {act : StoreM σ α} {P : α → σ → Prop} (h : V.Serves s)
    (meets : V.Meets act s P (V.Fails s)) :
    ∃ x s', act s = (.ok x, s') ∧ V.Serves s' ∧ P x s' := by
  obtain ⟨x, s', e, leads, hP⟩ := meets.answers fun _ _ fails => fails.unsound h.sound
  exact ⟨x, s', e, h.leads leads, hP⟩

/-- The laws of a store that lists keys in ascending order and holds no keys but those it takes. -/
structure Orderly [RecordStore σ] (V : StoreView σ) : Prop where
  lawful : V.Lawful
  keys {s : σ} (start : Bytes) : V.Serves s →
    ∃ ks s', RecordStore.keys start s = (.ok ks, s') ∧ V.Serves s' ∧ ks.Pairwise (· < ·) ∧
      (∀ k, k ∈ ks ↔ start <+: k ∧ V.records s k ≠ none) ∧ V.records s' = V.records s
  takes {s : σ} {k : Bytes} : V.live s → V.records s k ≠ none → V.takes k

variable [RecordStore σ] (law : V.Lawful) (h : V.Serves s)
include law h

/-- A store that serves answers with the value under a key. -/
lemma Lawful.get_of_serves (takes : V.takes key) :
    ∃ s', RecordStore.get key s = (.ok (V.records s key), s') ∧ V.Serves s' ∧
      V.records s' = V.records s := by
  obtain ⟨x, s', e, serves, rfl, same⟩ := h.answers (law.get h.live takes)
  exact ⟨s', e, serves, same⟩

/-- A store that serves puts a value under its key. -/
lemma Lawful.put_of_serves (takes : V.takes key) (value : Bytes) :
    ∃ s', RecordStore.put key value s = (.ok (), s') ∧ V.Serves s' ∧
      V.records s' = Function.update (V.records s) key (some value) := by
  have puts : V.Meets (RecordStore.put key value) s _ _ := law.put h.live takes
  obtain ⟨_, s', e, serves, changed⟩ := h.answers puts
  exact ⟨s', e, serves, changed⟩

/-- A store that serves removes what is under a key. -/
lemma Lawful.remove_of_serves (takes : V.takes key) :
    ∃ s', RecordStore.remove key s = (.ok (), s') ∧ V.Serves s' ∧
      V.records s' = Function.update (V.records s) key none := by
  obtain ⟨_, s', e, serves, changed⟩ := h.answers (law.remove h.live takes)
  exact ⟨s', e, serves, changed⟩

/-- A store that serves is flushed, and keeps its records. -/
lemma Lawful.flush_of_serves :
    ∃ s', RecordStore.flush s = (.ok (), s') ∧ V.Serves s' ∧ V.records s' = V.records s := by
  obtain ⟨_, s', e, serves, same⟩ := h.answers (law.flush h.live)
  exact ⟨s', e, serves, same⟩

end StoreView

namespace Table

/-- The keys of a table are in ascending order. -/
lemma pairwise_keysFrom (t : Table) (start : Bytes) : (t.keysFrom start).Pairwise (· < ·) := by
  refine List.Pairwise.filter _ ?_
  exact Std.ExtTreeMap.ordered_keys.imp fun lt => Bytes.compare_eq_lt_iff.mp lt

/-- Tables are orderly. -/
theorem orderly : view.Orderly where
  lawful := lawful
  keys {t} start _ := by
    have lists : view.Meets (RecordStore.keys start) t _ _ := lawful.keys trivial trivial
    obtain ⟨-, -, mem, same⟩ := lists.of_ok rfl
    exact ⟨t.keysFrom start, t, rfl, ⟨trivial, trivial⟩, t.pairwise_keysFrom start, mem, same⟩
  takes _ _ := trivial

end Table
end MqttClient
