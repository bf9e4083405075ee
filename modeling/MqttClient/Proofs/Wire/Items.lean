import MqttClient.Packet.Subscription
import MqttClient.Proofs.Wire.Field
import Mathlib.Tactic.Common

/-!
# Writers and sequences of items

A writer gives its bytes only if every part of it does. Items that are written one after the other
are read again to the end of the input, as each of them takes a byte at least.
-/

namespace MqttClient
variable {α β : Type}

/-- A writer has a result exactly if its first part has one and the rest has one with it. -/
lemma WireError.bind_eq_ok_iff {e : Except WireError α} {next : α → Except WireError β} {y : β} :
    (e >>= next) = .ok y ↔ ∃ x, e = .ok x ∧ next x = .ok y := by
  cases e with
  | error e => exact ⟨nofun, nofun⟩
  | ok x => exact ⟨fun h => ⟨x, rfl, h⟩, fun ⟨_, e, h⟩ => by cases e; exact h⟩

/-- A constant is its own result. -/
lemma WireError.pure_eq_ok_iff {x y : α} : (pure x : Except WireError α) = .ok y ↔ x = y := by
  change (Except.ok x : Except WireError α) = _ ↔ _
  simp

/-- Items are written exactly if each of them is, one after the other. -/
lemma encodeItems_cons_eq_ok_iff {encode : α → Except WireError Bytes} {x : α} {xs : List α}
    {bytes : Bytes} :
    encodeItems encode (x :: xs) = .ok bytes ↔
      ∃ b bs, encode x = .ok b ∧ encodeItems encode xs = .ok bs ∧ bytes = b ++ bs := by
  simp only [encodeItems, WireError.bind_eq_ok_iff, WireError.pure_eq_ok_iff]
  grind

/-- As long as there is input, an item is read and others are behind it. -/
lemma Parse.itemsWithin_succ {item : Parse α} {fuel : Nat} {input : Bytes} (ne : input ≠ []) :
    itemsWithin item (fuel + 1) input = (do
      let (x, rest) ← item input
      return x :: (← itemsWithin item fuel rest)) := by
  cases input with
  | nil => exact absurd rfl ne
  | cons b input => rfl

/-- Items that were written are read again, where `fuel` bytes are enough. -/
lemma Parse.itemsWithin_encodeItems {item : Parse α} {encode : α → Except WireError Bytes}
    {xs : List α} {bytes : Bytes} {fuel : Nat} (len : bytes.length ≤ fuel)
    (reads : ∀ x ∈ xs, ∀ b, encode x = .ok b →
      b ≠ [] ∧ ∀ rest, item (b ++ rest) = .ok (x, rest))
    (h : encodeItems encode xs = .ok bytes) : itemsWithin item fuel bytes = .ok xs := by
  induction xs generalizing bytes fuel with
  | nil =>
    cases h
    cases fuel <;> rfl
  | cons x xs ih =>
    obtain ⟨b, bs, hb, hbs, rfl⟩ := encodeItems_cons_eq_ok_iff.mp h
    obtain ⟨ne, read⟩ := reads x (by simp) b hb
    have pos : 0 < b.length := List.length_pos_iff.mpr ne
    rw [List.length_append] at len
    obtain ⟨fuel, rfl⟩ : ∃ k, fuel = k + 1 := ⟨fuel - 1, by omega⟩
    have len' : bs.length ≤ fuel := by omega
    have tail := ih len' (fun y hy => reads y (by simp [hy])) hbs
    rw [itemsWithin_succ (by simp [ne]), read bs]
    change (itemsWithin item fuel bs >>= fun ys => pure (x :: ys)) = _
    rw [tail]
    rfl

/-- Items that were written are read again to the end of the input. -/
lemma Parse.items_encodeItems {item : Parse α} {encode : α → Except WireError Bytes} {xs : List α}
    {bytes : Bytes}
    (reads : ∀ x ∈ xs, ∀ b, encode x = .ok b →
      b ≠ [] ∧ ∀ rest, item (b ++ rest) = .ok (x, rest))
    (h : encodeItems encode xs = .ok bytes) : items item bytes = .ok xs :=
  itemsWithin_encodeItems (Nat.le_refl _) reads h

end MqttClient
