import MqttClient.Proofs.Delivery.IdPool
import Mathlib.Data.List.Iterate

/-!
# The search for a free identifier

The search comes by every identifier once: from the one where it begins up to the last, and then
from the first one on. It ends at the first that is free. If there is none, the counter has gone
all the way round and stands where it stood.
-/

namespace MqttClient.IdPool

/-- All identifiers in the order of the search: from `next` up to the last one, then from 1 on. -/
def cycle (next : UInt16) : List UInt16 :=
  (List.range' next.toNat (65536 - next.toNat) ++ List.range' 1 (next.toNat - 1)).map UInt16.ofNat

/-- The search as the counter moves: it is behind every identifier that was passed. -/
def seek : (turns : Nat) → IdPool → Option UInt16 × IdPool
  | 0, p => (none, p)
  | turns + 1, p =>
    let id := p.next
    let p := { p with next := successor id }
    if p.contains id then seek turns p else (some id, { p with taken := p.taken.insert id })

/-- The pools that come about in any order of operations. An operation that fails leaves the pool
as it is. -/
inductive Reached : IdPool → Prop where
  | startingAt (next) :
    Reached (startingAt next)
  | allocate {p} :
    Reached p →
    Reached (p.allocate?.elim p Prod.snd)
  | reserve {p} (id) :
    Reached p →
    Reached ((p.reserve? id).getD p)
  | release {p} (id) :
    Reached p →
    Reached (p.release id)
  | clear {p} :
    Reached p →
    Reached p.clear

variable {p : IdPool} {id : UInt16}

/-- Zero is out of reach wherever the counter starts. -/
lemma isSound_startingAt (next : UInt16) : (startingAt next).IsSound := by
  refine ⟨?_, by simp [contains, startingAt]⟩
  change (if next ≤ 1 then 1 else next) ≠ 0
  split
  · decide
  · rintro rfl
    contradiction

/-- Zero stays out of reach in any order of operations. -/
lemma Reached.isSound (h : Reached p) : p.IsSound := by
  induction h with
  | startingAt next => exact isSound_startingAt next
  | @allocate p _ ih =>
    cases found : p.allocate? with
    | none => exact ih
    | some taken => exact (ih.allocate? found).2
  | @reserve p id _ ih =>
    cases found : p.reserve? id with
    | none => exact ih
    | some p' => exact ih.reserve? found
  | release id _ ih => exact ih.release id
  | clear _ ih => exact ih.clear

/-- The order of the search is that of the successors. -/
lemma cycle_eq (ne : id ≠ 0) : cycle id = List.iterate successor id 65535 := by
  have pos := toNat_pos ne
  have lt := id.toNat_lt
  apply List.ext_getElem
  · simp only [cycle, List.length_map, List.length_append, List.length_range',
      List.length_iterate]
    omega
  · intro k _ below
    rw [List.length_iterate] at below
    rw [List.getElem_iterate]
    apply UInt16.toNat_inj.mp
    rw [toNat_iterate_successor ne]
    simp only [cycle, List.getElem_map, List.getElem_append, List.length_range',
      List.getElem_range', UInt16.toNat_ofNat']
    split <;> omega

/-- The search finds the first free identifier among the successors. -/
lemma firstFree?_eq_find? (taken : Std.ExtTreeSet UInt16) (count : Nat) (id : UInt16) :
    firstFree? taken count id =
      (List.iterate successor id count).find? fun i => !taken.contains i := by
  induction count generalizing id with
  | zero => rfl
  | succ count ih =>
    rw [firstFree?, List.iterate, List.find?_cons]
    cases taken.contains id with
    | true => exact ih (successor id)
    | false => rfl

/-- After every turn without a free identifier the counter is one further. -/
lemma seek_eq (turns : Nat) (p : IdPool) :
    p.seek turns =
      match firstFree? p.taken turns p.next with
      | some id => (some id, ⟨successor id, p.taken.insert id⟩)
      | none => (none, { p with next := successor^[turns] p.next }) := by
  induction turns generalizing p with
  | zero => rfl
  | succ turns ih =>
    rw [seek, firstFree?]
    by_cases taken : p.taken.contains p.next = true
    · simp only [contains, taken, if_true, ih, Function.iterate_succ_apply]
    · simp only [contains, taken, Bool.false_eq_true, if_false]

/-- After as many turns as there are identifiers, the counter is where it was. -/
lemma iterate_successor_cycle (ne : id ≠ 0) : successor^[65535] id = id := by
  have pos := toNat_pos ne
  have lt := id.toNat_lt
  apply UInt16.toNat_inj.mp
  rw [toNat_iterate_successor ne]
  omega

/-- An identifier is handed out exactly if the search ends at it. -/
lemma allocate?_eq (p : IdPool) :
    p.allocate? = match p.seek 65535 with
      | (some id, p') => some (id, p')
      | (none, _) => none := by
  rw [seek_eq, allocate?]
  cases firstFree? p.taken 65535 p.next <;> rfl

/-- No identifier in the cycle is free exactly if all are taken. -/
lemma find?_cycle_eq_none_iff (ne : p.next ≠ 0) :
    (cycle p.next).find? (fun id => !p.contains id) = none ↔
      ∀ id, id ≠ 0 → p.contains id = true := by
  rw [← allocate?_eq_none_iff ne, allocate?, Option.map_eq_none_iff, firstFree?_eq_find?,
    cycle_eq ne]
  rfl

/-- Identifiers stay within their range. The search ends at the first identifier in its order that
is free, takes it, and has its counter behind it; it fails exactly if all identifiers are taken, and
then all is as it was. -/
theorem seek_of_reached (h : Reached p) :
    (p.next ≠ 0 ∧ ∀ id, p.contains id = true → id ≠ 0) ∧
      (p.seek 65535 =
        match (cycle p.next).find? fun id => !p.contains id with
        | some id => (some id, ⟨successor id, p.taken.insert id⟩)
        | none => (none, p)) ∧
      ((p.seek 65535).1 = none ↔ ∀ id, id ≠ 0 → p.contains id = true) ∧
      p.allocate? =
        match p.seek 65535 with
        | (some id, p') => some (id, p')
        | (none, _) => none := by
  have sound := h.isSound
  have ends : p.seek 65535 =
      match (cycle p.next).find? fun id => !p.contains id with
      | some id => (some id, ⟨successor id, p.taken.insert id⟩)
      | none => (none, p) := by
    rw [seek_eq, firstFree?_eq_find?, ← cycle_eq sound.next, iterate_successor_cycle sound.next]
    rfl
  refine ⟨⟨sound.next, fun id taken => sound.ne_zero taken⟩, ends, ?_, allocate?_eq p⟩
  rw [← find?_cycle_eq_none_iff sound.next, ends]
  cases (cycle p.next).find? fun id => !p.contains id with
  | none => exact iff_of_true rfl rfl
  | some id => exact ⟨nofun, nofun⟩

/-- The search passes the last identifier and the first one, which are taken. -/
theorem seek_of_reached_around :
    let p := ((startingAt 65535).reserve? 65535).getD (startingAt 65535)
    let p := (p.reserve? 1).getD p
    Reached p ∧ p.seek 65535 = (some 2, ⟨3, p.taken.insert 2⟩) := by
  intro p₁ p
  have reached : Reached p := .reserve 1 (.reserve 65535 (.startingAt 65535))
  obtain ⟨-, ends, -⟩ := seek_of_reached reached
  have first : ((cycle p.next).find? fun id => !p.contains id) = some 2 := by decide +kernel
  refine ⟨reached, ?_⟩
  rw [ends, first]
  rfl

end MqttClient.IdPool
