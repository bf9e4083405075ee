import MqttClient.Store.Folder
import Mathlib.Data.Option.Basic
import Mathlib.Tactic.Common

/-!
# File names and keys

Every key is read back from its file name, so no two keys share one. A name is about a third longer
than its key, and no dot stands in it, so that it is not taken for that of a file that is still
being written.
-/

namespace MqttClient

namespace FileName
variable {key key' name : Bytes}

/-- Every digit is told by its character. -/
lemma digit?_digit {n : Nat} (lt : n < 64) : digit? (digit n) = some n := by
  revert n
  decide

/-- No digit is a dot. -/
lemma digit_ne_dot (n : Nat) : digit n ≠ 0x2E := by
  by_cases lt : n < 64
  · revert n
    decide
  · have last : digit n = 0x5F := by
      simp only [digit]
      split_ifs <;> first | omega | rfl
    rw [last]
    decide

/-- A number that a byte has gives this byte. -/
lemma byte_of_bits {n : Nat} {a : UInt8} (same : n = a.toNat) : UInt8.ofNat n = a := by
  rw [same, UInt8.ofNat_toNat]

/-- The key of a file name is the one that the name was made of. -/
@[simp]
theorem toKey?_ofKey (key : Bytes) : toKey? (ofKey key) = some key := by
  induction key using ofKey.induct with
  | case1 => rfl
  | case2 a =>
    have ha := a.toNat_lt
    have unused : a.toNat % 4 * 16 % 16 = 0 := by omega
    rw [ofKey, toKey?, digit?_digit (by omega), digit?_digit (by omega)]
    simp only [Option.bind_eq_bind, Option.bind_some, unused, guard_true, Option.pure_def]
    rw [byte_of_bits (a := a) (by omega)]
  | case3 a b =>
    have ha := a.toNat_lt
    have hb := b.toNat_lt
    have unused : b.toNat % 16 * 4 % 4 = 0 := by omega
    rw [ofKey, toKey?, digit?_digit (by omega), digit?_digit (by omega), digit?_digit (by omega)]
    simp only [Option.bind_eq_bind, Option.bind_some, unused, guard_true, Option.pure_def]
    rw [byte_of_bits (a := a) (by omega), byte_of_bits (a := b) (by omega)]
  | case4 a b c rest ih =>
    have ha := a.toNat_lt
    have hb := b.toNat_lt
    have hc := c.toNat_lt
    rw [ofKey, toKey?, digit?_digit (by omega), digit?_digit (by omega), digit?_digit (by omega),
      digit?_digit (by omega), ih]
    simp only [Option.bind_eq_bind, Option.bind_some, Option.pure_def]
    rw [byte_of_bits (a := a) (by omega), byte_of_bits (a := b) (by omega),
      byte_of_bits (a := c) (by omega)]

/-- A character stands for six bits, which are written as that character. -/
lemma digit_of_digit? {b : UInt8} {n : Nat} (h : digit? b = some n) : n < 64 ∧ digit n = b := by
  have all : ∀ i : Fin 256, (digit? (.ofNat i)).all fun n => n < 64 ∧ digit n = .ofNat i := by
    decide +kernel
  have one := all ⟨b.toNat, b.toNat_lt⟩
  rw [UInt8.ofNat_toNat, h] at one
  exact of_decide_eq_true one

/-- A file name is the one that is made of its key. -/
theorem ofKey_of_toKey? (h : toKey? name = some key) : ofKey key = name := by
  -- the bits of each byte are those of the characters that they were taken from
  have byte {n : Nat} (lt : n < 256) : (UInt8.ofNat n).toNat = n := UInt8.toNat_ofNat_of_lt' lt
  induction name using toKey?.induct generalizing key with
  | case1 =>
    cases h
    rfl
  | case2 => cases h
  | case3 w x =>
    simp only [toKey?, Option.bind_eq_bind, Option.bind_eq_some_iff, Option.pure_def,
      Option.some.injEq, Option.guard_eq_some', exists_const] at h
    obtain ⟨w', hw, x', hx, unused, rfl⟩ := h
    obtain ⟨lw, rfl⟩ := digit_of_digit? hw
    obtain ⟨lx, rfl⟩ := digit_of_digit? hx
    rw [ofKey, byte (by omega), show (w' * 4 + x' / 16) / 4 = w' from by omega,
      show (w' * 4 + x' / 16) % 4 * 16 = x' from by omega]
  | case4 w x y =>
    simp only [toKey?, Option.bind_eq_bind, Option.bind_eq_some_iff, Option.pure_def,
      Option.some.injEq, Option.guard_eq_some', exists_const] at h
    obtain ⟨w', hw, x', hx, y', hy, unused, rfl⟩ := h
    obtain ⟨lw, rfl⟩ := digit_of_digit? hw
    obtain ⟨lx, rfl⟩ := digit_of_digit? hx
    obtain ⟨ly, rfl⟩ := digit_of_digit? hy
    rw [ofKey, byte (by omega), byte (by omega), show (w' * 4 + x' / 16) / 4 = w' from by omega,
      show (w' * 4 + x' / 16) % 4 * 16 + (x' % 16 * 16 + y' / 4) / 16 = x' from by omega,
      show (x' % 16 * 16 + y' / 4) % 16 * 4 = y' from by omega]
  | case5 w x y z rest ih =>
    simp only [toKey?, Option.bind_eq_bind, Option.bind_eq_some_iff, Option.pure_def,
      Option.some.injEq] at h
    obtain ⟨w', hw, x', hx, y', hy, z', hz, key', hrest, rfl⟩ := h
    obtain ⟨lw, rfl⟩ := digit_of_digit? hw
    obtain ⟨lx, rfl⟩ := digit_of_digit? hx
    obtain ⟨ly, rfl⟩ := digit_of_digit? hy
    obtain ⟨lz, rfl⟩ := digit_of_digit? hz
    rw [ofKey, byte (by omega), byte (by omega), byte (by omega), ih hrest,
      show (w' * 4 + x' / 16) / 4 = w' from by omega,
      show (w' * 4 + x' / 16) % 4 * 16 + (x' % 16 * 16 + y' / 4) / 16 = x' from by omega,
      show (x' % 16 * 16 + y' / 4) % 16 * 4 + (y' % 4 * 64 + z') / 64 = y' from by omega,
      show (y' % 4 * 64 + z') % 64 = z' from by omega]
/-- No two keys share a file name. -/
theorem ofKey_inj : ofKey key = ofKey key' ↔ key = key' := by
  refine ⟨fun same => ?_, congrArg ofKey⟩
  rw [← Option.some_inj, ← toKey?_ofKey, same, toKey?_ofKey]

/-- No dot stands in the file name of a key. -/
lemma dot_notMem_ofKey (key : Bytes) : 0x2E ∉ ofKey key := by
  induction key using ofKey.induct with
  | case1 => exact List.not_mem_nil
  | case4 a b c rest ih => simp [ofKey, ih, (digit_ne_dot _).symm]
  | _ => simp [ofKey, (digit_ne_dot _).symm]

/-- Six bits of a key make a character of its file name. -/
lemma length_ofKey (key : Bytes) : (ofKey key).length = (key.length * 4 + 2) / 3 := by
  induction key using ofKey.induct with
  | case4 a b c rest ih =>
    simp only [ofKey, List.length_cons, ih]
    omega
  | _ => simp [ofKey]

end FileName

end MqttClient
