import MqttClient.Delivery.IdPool
import Mathlib.Logic.Function.Iterate
import Mathlib.Tactic.Common

/-!
# Packet identifiers

What the operations of a pool do to the identifiers that are taken. Zero is never among them. The
search for a free identifier goes round and comes by all of them.
-/

namespace MqttClient.IdPool
variable {p p' : IdPool} {id : UInt16}

/-- Whether zero stays out of reach. -/
structure IsSound (p : IdPool) : Prop where
  next : p.next ≠ 0
  free : p.contains 0 = false

/-- An identifier that is not zero is a positive number. -/
lemma toNat_pos (ne : id ≠ 0) : 0 < id.toNat :=
  Nat.pos_of_ne_zero fun zero => ne (UInt16.toNat_inj.mp zero)

/-- The search passes over zero. -/
lemma successor_ne_zero (id : UInt16) : successor id ≠ 0 := by
  unfold successor
  split
  · decide
  · intro zero
    -- only the last identifier runs over
    have last : id + 1 - 1 = 0 - 1 := congrArg (· - 1) zero
    rw [UInt16.add_sub_cancel] at last
    contradiction

/-- A search that begins at an identifier never comes by zero. -/
lemma ne_zero_of_firstFree? {taken : Std.ExtTreeSet UInt16} {count : Nat} {first : UInt16}
    (h : firstFree? taken count first = some id) (ne : first ≠ 0) : id ≠ 0 := by
  induction count generalizing first with
  | zero => cases h
  | succ count ih =>
    rw [firstFree?] at h
    split at h
    · exact ih h (successor_ne_zero first)
    · cases h
      exact ne

/-- An identifier that is found free is not taken. -/
lemma contains_of_firstFree? {taken : Std.ExtTreeSet UInt16} {count : Nat} {first : UInt16}
    (h : firstFree? taken count first = some id) : taken.contains id = false := by
  induction count generalizing first with
  | zero => cases h
  | succ count ih =>
    rw [firstFree?] at h
    split at h
    · exact ih h
    · rename_i free
      cases h
      exact Bool.eq_false_iff.mpr free

/-- Taking an identifier takes no other one. -/
lemma contains_insert {next : UInt16} (i : UInt16) :
    (IdPool.mk next (p.taken.insert id)).contains i = true ↔ i = id ∨ p.contains i = true := by
  simp only [contains, Std.ExtTreeSet.contains_insert, Bool.or_eq_true, beq_iff_eq,
    Std.LawfulEqCmp.compare_eq_iff_eq]
  exact or_congr_left eq_comm

/-- An identifier that is handed out was free, and is the only one that is taken then. -/
lemma allocate?_eq_some (h : p.allocate? = some (id, p')) :
    p.contains id = false ∧ ∀ i, p'.contains i = true ↔ i = id ∨ p.contains i = true := by
  simp only [allocate?, Option.map_eq_some_iff, Prod.mk.injEq] at h
  obtain ⟨_, free, rfl, rfl⟩ := h
  exact ⟨contains_of_firstFree? free, contains_insert⟩

/-- An identifier that is free can be reserved. -/
lemma reserve?_of_free (ne : id ≠ 0) (free : p.contains id = false) :
    ∃ p', p.reserve? id = some p' ∧ ∀ i, p'.contains i = true ↔ i = id ∨ p.contains i = true := by
  refine ⟨_, if_neg ?_, contains_insert⟩
  rw [contains] at free
  simp [ne, free]

/-- Releasing an identifier releases no other one. -/
lemma contains_release (i : UInt16) :
    (p.release id).contains i = true ↔ i ≠ id ∧ p.contains i = true := by
  simp only [contains, release, Std.ExtTreeSet.contains_erase, Bool.and_eq_true, bne_iff_ne, ne_eq,
    Std.LawfulEqCmp.compare_eq_iff_eq]
  exact and_congr_left' (not_congr eq_comm)

/-- An identifier that is released is free. -/
lemma contains_release_self (p : IdPool) (id : UInt16) : (p.release id).contains id = false := by
  rw [Bool.eq_false_iff, Ne, contains_release]
  exact fun taken => taken.1 rfl

/-- Other identifiers stay as they are. -/
lemma contains_release_of_ne {i : UInt16} (ne : i ≠ id) :
    (p.release id).contains i = p.contains i := by
  rw [Bool.eq_iff_iff, contains_release]
  exact and_iff_right ne

/-- What is free stays free. -/
lemma contains_release_of_free {i : UInt16} (free : p.contains i = false) (id : UInt16) :
    (p.release id).contains i = false := by
  rw [Bool.eq_false_iff, Ne, contains_release, free]
  exact fun taken => Bool.false_ne_true taken.2

/-- An identifier that is reserved was free, and the counter stays where it is. -/
lemma reserve?_eq_some (h : p.reserve? id = some p') :
    id ≠ 0 ∧ p.contains id = false ∧ p'.next = p.next ∧
      ∀ i, p'.contains i = true ↔ i = id ∨ p.contains i = true := by
  rw [reserve?] at h
  split at h
  · cases h
  · rename_i free
    cases h
    rw [Bool.or_eq_true, not_or, decide_eq_true_eq, Bool.not_eq_true] at free
    exact ⟨free.1, free.2, rfl, contains_insert⟩

/-- Behind a clearing all identifiers are free. -/
lemma contains_clear (i : UInt16) : p.clear.contains i = false := by
  simp [contains, clear]

/-- Zero is never taken. -/
lemma IsSound.ne_zero (h : p.IsSound) (taken : p.contains id = true) : id ≠ 0 := by
  rintro rfl
  rw [h.free] at taken
  cases taken

/-- Handing out an identifier keeps zero out of reach. -/
lemma IsSound.allocate? (h : p.IsSound) (taken : p.allocate? = some (id, p')) :
    id ≠ 0 ∧ p'.IsSound := by
  obtain ⟨-, contains⟩ := allocate?_eq_some taken
  simp only [IdPool.allocate?, Option.map_eq_some_iff, Prod.mk.injEq] at taken
  obtain ⟨_, free, rfl, rfl⟩ := taken
  have ne := ne_zero_of_firstFree? free h.next
  refine ⟨ne, successor_ne_zero _, ?_⟩
  rw [Bool.eq_false_iff, Ne, contains, h.free]
  exact not_or.mpr ⟨ne.symm, Bool.false_ne_true⟩

/-- Reserving an identifier keeps zero out of reach. -/
lemma IsSound.reserve? (h : p.IsSound) (taken : p.reserve? id = some p') : p'.IsSound := by
  obtain ⟨ne, -, next, contains⟩ := reserve?_eq_some taken
  refine ⟨next ▸ h.next, ?_⟩
  rw [Bool.eq_false_iff, Ne, contains, h.free]
  exact not_or.mpr ⟨ne.symm, Bool.false_ne_true⟩

/-- Releasing an identifier keeps zero out of reach. -/
lemma IsSound.release (h : p.IsSound) (id : UInt16) : (p.release id).IsSound :=
  ⟨h.next, contains_release_of_free h.free id⟩

/-- Releasing all identifiers keeps zero out of reach. -/
lemma IsSound.clear (h : p.IsSound) : p.clear.IsSound :=
  ⟨h.next, contains_clear 0⟩

/-- The number of the successor is one more, and begins at one again behind the last. -/
lemma toNat_successor (ne : id ≠ 0) : (successor id).toNat = id.toNat % 65535 + 1 := by
  have pos := toNat_pos ne
  have lt := id.toNat_lt
  unfold successor
  split
  · rename_i last
    rw [last]
    rfl
  · rename_i other
    have below : id.toNat ≠ 65535 := fun last => other (UInt16.toNat_inj.mp last)
    rw [UInt16.toNat_add, UInt16.toNat_one]
    omega

/-- The identifiers go round: the one `k` places on is found by counting from 1 to 65535. -/
lemma toNat_iterate_successor (ne : id ≠ 0) (k : Nat) :
    (successor^[k] id).toNat = (id.toNat - 1 + k) % 65535 + 1 := by
  have pos := toNat_pos ne
  have lt := id.toNat_lt
  induction k with
  | zero =>
    rw [Function.iterate_zero_apply, Nat.add_zero, Nat.mod_eq_of_lt (by omega)]
    omega
  | succ k ih =>
    have ne' : successor^[k] id ≠ 0 := by
      intro zero
      rw [zero] at ih
      cases ih
    rw [Function.iterate_succ_apply', toNat_successor ne', ih]
    omega

/-- Every identifier is met on the way round. -/
lemma exists_iterate_successor {id' : UInt16} (ne : id ≠ 0) (ne' : id' ≠ 0) :
    ∃ k < 65535, successor^[k] id = id' := by
  have pos := toNat_pos ne
  have pos' := toNat_pos ne'
  have lt := id.toNat_lt
  have lt' := id'.toNat_lt
  refine ⟨(id'.toNat + 65535 - id.toNat) % 65535, Nat.mod_lt _ (by decide), ?_⟩
  apply UInt16.toNat_inj.mp
  rw [toNat_iterate_successor ne]
  omega

/-- The search fails if all identifiers that it comes by are taken. -/
lemma firstFree?_eq_none_iff {taken : Std.ExtTreeSet UInt16} {count : Nat} :
    firstFree? taken count id = none ↔ ∀ k < count, taken.contains (successor^[k] id) = true := by
  induction count generalizing id with
  | zero => exact ⟨fun _ _ => nofun, fun _ => rfl⟩
  | succ count ih =>
    rw [firstFree?]
    split
    · rename_i head
      rw [ih]
      constructor
      · intro tail k lt
        cases k with
        | zero => exact head
        | succ k => exact tail k (Nat.lt_of_succ_lt_succ lt)
      · exact fun all k lt => all (k + 1) (Nat.succ_lt_succ lt)
    · rename_i free
      exact ⟨nofun, fun all => absurd (all 0 (Nat.succ_pos count)) free⟩

/-- No identifier is handed out exactly if all are taken. -/
theorem allocate?_eq_none_iff (h : p.next ≠ 0) :
    p.allocate? = none ↔ ∀ id, id ≠ 0 → p.contains id = true := by
  rw [allocate?, Option.map_eq_none_iff, firstFree?_eq_none_iff]
  constructor
  · intro all id ne
    obtain ⟨k, lt, rfl⟩ := exists_iterate_successor h ne
    exact all k lt
  · intro all k _
    apply all
    intro zero
    have number := toNat_iterate_successor h k
    rw [zero] at number
    cases number

/-- A free identifier is handed out when its turn comes. -/
lemma allocate?_of_free (free : p.contains p.next = false) :
    p.allocate? = some (p.next, ⟨successor p.next, p.taken.insert p.next⟩) := by
  rw [allocate?, firstFree?, if_neg]
  · rfl
  · exact Bool.eq_false_iff.mp free

end MqttClient.IdPool
