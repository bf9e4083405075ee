import MqttClient.Proofs.Store.Folder
import Mathlib.Data.List.Induction

/-!
# What a store answers

A table and a directory answer every call as one map would that begins empty: with the value that
was put last under a key and not removed since, and with the keys that have values, in ascending
order. So nobody can tell by its answers which of the two a store is, as long as the keys are such
as a directory takes.
-/

namespace MqttClient

/-- A call of a store. -/
inductive Access where
  | put (key value : Bytes)
  | get (key : Bytes)
  | remove (key : Bytes)
  | keys (start : Bytes)
  | flush

namespace Access

/-- What a store answers. -/
inductive Reply where
  | done
  | value (x : Option Bytes)
  | keys (ks : List Bytes)
  deriving DecidableEq, Repr

/-- The key that a call is about. -/
def key? : Access → Option Bytes
  | put key _ | get key | remove key => some key
  | keys _ | flush => none

/-- The records after a call. -/
def effect (records : Bytes → Option Bytes) : Access → Bytes → Option Bytes
  | put key value => Function.update records key (some value)
  | remove key => Function.update records key none
  | get _ | keys _ | flush => records

/-- The records after calls, from none on. -/
def held (as : List Access) : Bytes → Option Bytes :=
  as.foldl effect fun _ => none

/-- Whether a call puts or removes the value under a key. -/
def Changes (key : Bytes) : Access → Prop
  | put k _ | remove k => k = key
  | get _ | keys _ | flush => False

/-- Whether a reply is the one that the records call for. -/
def Fits (records : Bytes → Option Bytes) (reply : Except StoreError Reply) : Access → Prop
  | put .. | remove _ | flush => reply = .ok .done
  | get key => reply = .ok (.value (records key))
  | keys start => ∃ ks, reply = .ok (.keys ks) ∧ ks.Pairwise (· < ·) ∧
      ∀ k, k ∈ ks ↔ start <+: k ∧ records k ≠ none

/-- A call that changes no value under a key leaves the value. -/
lemma effect_of_not_changes {records : Bytes → Option Bytes} {key : Bytes} {a : Access}
    (h : ¬ a.Changes key) : a.effect records key = records key := by
  cases a with
  | put k _ => exact Function.update_of_ne (Ne.symm h) ..
  | remove k => exact Function.update_of_ne (Ne.symm h) ..
  | get | keys | flush => rfl

/-- A key has the value that was put under it last, if it was not removed since. -/
theorem held_eq_some_iff {as : List Access} {key value : Bytes} :
    held as key = some value ↔
      ∃ before after, as = before ++ put key value :: after ∧ ∀ a ∈ after, ¬ a.Changes key := by
  -- on the last call: it put the value, or it left what the calls before it hold
  induction as using List.reverseRecOn with
  | nil =>
    refine ⟨nofun, fun ⟨before, after, same, _⟩ => ?_⟩
    exact absurd same.symm (List.append_ne_nil_of_right_ne_nil before (List.cons_ne_nil _ after))
  | append_singleton as a ih =>
    have last : held (as ++ [a]) = a.effect (held as) := List.foldl_append
    rw [last]
    constructor
    · intro found
      by_cases changes : a.Changes key
      · cases a with
        | put k v =>
          obtain rfl : k = key := changes
          rw [effect, Function.update_self] at found
          cases found
          exact ⟨as, [], rfl, List.forall_mem_nil _⟩
        | remove k =>
          obtain rfl : k = key := changes
          rw [effect, Function.update_self] at found
          cases found
        | get | keys | flush => exact changes.elim
      · rw [effect_of_not_changes changes] at found
        obtain ⟨before, after, rfl, still⟩ := ih.mp found
        refine ⟨before, after ++ [a], List.append_assoc .., ?_⟩
        exact List.forall_mem_append.mpr ⟨still, List.forall_mem_singleton.mpr changes⟩
    · rintro ⟨before, after, same, still⟩
      obtain rfl | ⟨after, b, rfl⟩ := List.eq_nil_or_concat after
      · obtain ⟨-, ends⟩ := List.append_inj' same rfl
        cases ends
        exact Function.update_self ..
      · rw [List.concat_eq_append] at same still
        rw [← List.cons_append, ← List.append_assoc] at same
        obtain ⟨rfl, ends⟩ := List.append_inj' same rfl
        cases ends
        rw [List.forall_mem_append] at still
        rw [effect_of_not_changes (still.2 a (List.mem_singleton_self a)), ih]
        exact ⟨before, after, rfl, still.1⟩

/-- There is only one fitting reply. -/
lemma Fits.unique {records : Bytes → Option Bytes} {a : Access} {x y : Except StoreError Reply}
    (h : a.Fits records x) (h' : a.Fits records y) : x = y := by
  cases a with
  | keys start =>
    obtain ⟨ks, rfl, sorted, mem⟩ := h
    obtain ⟨ks', rfl, sorted', mem'⟩ := h'
    have same := sorted.eq_of_mem_iff sorted' fun k => (mem k).trans (mem' k).symm
    rw [same]
  | put | remove | get | flush => exact h.trans h'.symm

variable {σ : Type} [RecordStore σ]

/-- A call made of a store. -/
def run : Access → StoreM σ Reply
  | put key value => do
    RecordStore.put key value
    return .done
  | get key => return .value (← RecordStore.get key)
  | remove key => do
    RecordStore.remove key
    return .done
  | keys start => return .keys (← RecordStore.keys start)
  | flush => do
    RecordStore.flush
    return .done

/-- A store after calls. -/
def after (s : σ) : List Access → σ
  | [] => s
  | a :: as => after (a.run s).2 as

variable {V : StoreView σ} {s : σ}

/-- A store that does not fail answers as its records call for, and changes them as it is asked. -/
lemma fits_run (law : V.Orderly) (serves : V.Serves s) {a : Access}
    (takes : ∀ key ∈ a.key?, V.takes key) :
    a.Fits (V.records s) (a.run s).1 ∧ V.Serves (a.run s).2 ∧
      V.records (a.run s).2 = a.effect (V.records s) := by
  cases a with
  | put key value =>
    obtain ⟨s', e, serves', changed⟩ := law.lawful.put_of_serves serves (takes key rfl) value
    rw [run, StoreM.bind_of_ok e]
    exact ⟨rfl, serves', changed⟩
  | get key =>
    obtain ⟨s', e, serves', same⟩ := law.lawful.get_of_serves serves (takes key rfl)
    rw [run, StoreM.bind_of_ok e]
    exact ⟨rfl, serves', same⟩
  | remove key =>
    obtain ⟨s', e, serves', changed⟩ := law.lawful.remove_of_serves serves (takes key rfl)
    rw [run, StoreM.bind_of_ok e]
    exact ⟨rfl, serves', changed⟩
  | keys start =>
    obtain ⟨ks, s', e, serves', sorted, mem, same⟩ := law.keys start serves
    rw [run, StoreM.bind_of_ok e]
    exact ⟨⟨ks, rfl, sorted, mem⟩, serves', same⟩
  | flush =>
    obtain ⟨s', e, serves', same⟩ := law.lawful.flush_of_serves serves
    rw [run, StoreM.bind_of_ok e]
    exact ⟨rfl, serves', same⟩

/-- After calls a store holds what they put and did not remove. -/
lemma records_after (law : V.Orderly) (serves : V.Serves s) {as : List Access}
    (takes : ∀ a ∈ as, ∀ key ∈ a.key?, V.takes key) :
    V.Serves (after s as) ∧ V.records (after s as) = as.foldl effect (V.records s) := by
  induction as generalizing s with
  | nil => exact ⟨serves, rfl⟩
  | cons a as ih =>
    rw [List.forall_mem_cons] at takes
    obtain ⟨-, serves', changed⟩ := fits_run law serves takes.1
    obtain ⟨serves'', records⟩ := ih serves' takes.2
    rw [changed] at records
    exact ⟨serves'', records⟩

/-- A store that was empty answers a call behind others as what they put and did not remove calls
for. -/
lemma fits_run_after (law : V.Orderly) (serves : V.Serves s) (empty : V.records s = fun _ => none)
    {as : List Access} {a : Access} (takes : ∀ b ∈ a :: as, ∀ key ∈ b.key?, V.takes key) :
    a.Fits (held as) (a.run (after s as)).1 := by
  rw [List.forall_mem_cons] at takes
  obtain ⟨serves', records⟩ := records_after law serves takes.2
  rw [empty] at records
  have fits := (fits_run law serves' takes.1).1
  rwa [records] at fits

end Access

namespace Bytes
variable {start k k' : Bytes}

/-- What lies between a byte string and one that it begins begins with it as well. -/
lemma isPrefix_of_between (le : ¬ k < start) (lt : k < k') (front : start <+: k') :
    start <+: k := by
  induction start generalizing k k' with
  | nil => exact List.nil_prefix
  | cons b start ih =>
    obtain ⟨rest, rfl⟩ := front
    cases k with
    | nil => exact absurd (List.nil_lt_cons b start) le
    | cons c k =>
      rw [List.cons_append, List.cons_lt_cons_iff] at lt
      rw [List.cons_lt_cons_iff, not_or, not_and] at le
      obtain ⟨rfl, below⟩ := lt.resolve_left le.1
      exact (List.prefix_cons_inj c).mpr (ih (le.2 rfl) below (List.prefix_append ..))

/-- No key comes before its own beginning. -/
lemma not_lt_of_isPrefix (front : start <+: k) : ¬ k < start :=
  front.le

/-- In ascending order the byte strings that begin with one stand together. -/
lemma takeWhile_eq_filter {ks : List Bytes} (sorted : ks.Pairwise (· < ·))
    (le : ∀ k ∈ ks, ¬ k < start) : ks.takeWhile start.isPrefixOf = ks.filter start.isPrefixOf := by
  induction ks with
  | nil => rfl
  | cons k ks ih =>
    rw [List.pairwise_cons] at sorted
    rw [List.forall_mem_cons] at le
    by_cases front : start.isPrefixOf k = true
    · rw [List.takeWhile_cons_of_pos front, List.filter_cons_of_pos front, ih sorted.2 le.2]
    · rw [List.takeWhile_cons_of_neg front, List.filter_cons_of_neg front, eq_comm,
        List.filter_eq_nil_iff]
      intro k' mem front'
      rw [List.isPrefixOf_iff_prefix] at front front'
      exact front (isPrefix_of_between le.1 (sorted.1 k' mem) front')

/-- They come after all that are smaller. -/
lemma takeWhile_dropWhile_eq_filter {ks : List Bytes} (sorted : ks.Pairwise (· < ·)) :
    (ks.dropWhile (· < start)).takeWhile start.isPrefixOf = ks.filter start.isPrefixOf := by
  induction ks with
  | nil => rfl
  | cons k ks ih =>
    by_cases lt : k < start
    · have other : ¬ start.isPrefixOf k = true := by
        rw [List.isPrefixOf_iff_prefix]
        exact fun front => not_lt_of_isPrefix front lt
      rw [List.dropWhile_cons, if_pos (decide_eq_true lt), List.filter_cons_of_neg other]
      exact ih (List.pairwise_cons.mp sorted).2
    · rw [List.dropWhile_cons, if_neg fun h => lt (of_decide_eq_true h)]
      refine takeWhile_eq_filter sorted (List.forall_mem_cons.mpr ⟨lt, fun k' mem lt' => ?_⟩)
      exact lt (List.lt_trans ((List.pairwise_cons.mp sorted).1 k' mem) lt')

end Bytes

namespace Table

/-- The keys that are met from `start` on, up to the first that does not begin with it. -/
def scanFrom (t : Table) (start : Bytes) : List Bytes :=
  (t.entries.keys.dropWhile (· < start)).takeWhile start.isPrefixOf

/-- A table that is read from `start` on need not be read to its end. -/
theorem scanFrom_eq_keysFrom (t : Table) (start : Bytes) : t.scanFrom start = t.keysFrom start :=
  Bytes.takeWhile_dropWhile_eq_filter <|
    Std.ExtTreeMap.ordered_keys.imp fun lt => Bytes.compare_eq_lt_iff.mp lt

end Table

namespace Access

/-- A table and a directory that were empty answer every call, behind whatever calls there were, as
what was put and not removed calls for: a table for all keys, a directory for those that it takes.
It is enough for the table to read its keys from the start of a listing to the first that does not
begin with it. -/
theorem fits_run_empty (as : List Access) (a : Access) :
    let t := after Table.empty as
    let d := after Folder.empty as
    a.Fits (held as) (a.run t).1 ∧ (∀ start, t.scanFrom start = t.keysFrom start) ∧
      ((∀ b ∈ a :: as, ∀ key ∈ b.key?, key ≠ [] ∧ key.length ≤ 188) →
        a.Fits (held as) (a.run d).1 ∧ (a.run d).1 = (a.run t).1) := by
  intro t d
  have onTable : a.Fits (held as) (a.run t).1 := by
    refine fits_run_after Table.orderly ⟨trivial, trivial⟩ ?_ fun _ _ _ _ => trivial
    funext key
    exact Std.ExtTreeMap.getElem?_empty
  refine ⟨onTable, fun start => t.scanFrom_eq_keysFrom start, fun takes => ?_⟩
  have inFolder : a.Fits (held as) (a.run d).1 := by
    refine fits_run_after Folder.orderly ⟨Folder.isTidy_empty, trivial⟩ ?_
      fun b mem key about => ⟨(takes b mem key about).1, (takes b mem key about).2⟩
    funext key
    change Folder.empty.record? key = none
    rw [Folder.record?, Folder.find?_empty]
    rfl
  exact ⟨inFolder, inFolder.unique onTable⟩

/-- Two of three keys begin with a byte. They are listed after one of them was put again and the
third was removed, and then removed once more. -/
theorem fits_run_empty_keys :
    let as : List Access := [.put [0x61, 0x63] [1], .put [0x62] [2], .put [0x61] [3],
      .put [0x61, 0x63] [4], .remove [0x62], .remove [0x62]]
    let t := after Table.empty as
    let d := after Folder.empty as
    (∀ b ∈ keys [0x61] :: as, ∀ key ∈ b.key?, key ≠ [] ∧ key.length ≤ 188) ∧
      ((keys [0x61]).run t).1 = .ok (.keys [[0x61], [0x61, 0x63]]) ∧
      ((keys [0x61]).run d).1 = ((keys [0x61]).run t).1 ∧
      (keys [0x61]).Fits (held as) ((keys [0x61]).run d).1 := by
  intro as t d
  have takes : ∀ b ∈ keys [0x61] :: as, ∀ key ∈ b.key?, key ≠ [] ∧ key.length ≤ 188 := by
    decide
  obtain ⟨-, -, inFolder⟩ := fits_run_empty as (keys [0x61])
  exact ⟨takes, by decide +kernel, (inFolder takes).2, (inFolder takes).1⟩

end Access
end MqttClient
