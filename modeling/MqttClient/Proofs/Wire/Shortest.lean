import MqttClient.Proofs.Wire.Items
import Mathlib.Tactic.Common

/-!
# Shortest forms

Variable byte integers are the only fields that can be written in more than one way. When bytes are
read and written again, each of them shrinks to its shortest form and all else stays; so the new
bytes are the old ones exactly if every integer had its shortest form before.
-/

namespace MqttClient

/-- A variable byte integer as it stands in an input: its value and the bytes it takes there. -/
structure VarInt.Spelling where
  value : UInt32
  used : Nat
  deriving DecidableEq, Repr

/-- Whether no fewer bytes would do. -/
def VarInt.Spelling.IsShortest (i : Spelling) : Prop :=
  i.used = size i.value

/-- Reads a variable byte integer and says how it is spelled. -/
def Parse.spelling : Parse VarInt.Spelling := fun input => do
  match ← VarInt.decode input with
  | some (value, used) => return (⟨value, used⟩, input.drop used)
  | none => .error .truncated

/-- What becomes of `bytes` with the integers `ints` when they are read and written again as
`short`. -/
structure Shortens (short bytes : Bytes) (ints : List VarInt.Spelling) : Prop where
  length_le : short.length ≤ bytes.length
  eq_iff : short = bytes ↔ ∀ i ∈ ints, i.IsShortest

namespace Shortens

/-- Bytes without integers in them are the shortest. -/
lemma refl (bytes : Bytes) : Shortens bytes bytes [] :=
  ⟨Nat.le_refl _, iff_of_true rfl nofun⟩

/-- Two parts are shortened one after the other. -/
lemma append {c b c' b' : Bytes} {ints ints' : List VarInt.Spelling} (h : Shortens c b ints)
    (h' : Shortens c' b' ints') : Shortens (c ++ c') (b ++ b') (ints ++ ints') := by
  refine ⟨?_, ?_⟩
  · rw [List.length_append, List.length_append]
    exact Nat.add_le_add h.length_le h'.length_le
  · simp only [List.mem_append, or_imp, forall_and, ← h.eq_iff, ← h'.eq_iff]
    constructor
    · intro e
      have total := congrArg List.length e
      rw [List.length_append, List.length_append] at total
      have len : c.length = b.length := by
        have := h.length_le
        have := h'.length_le
        omega
      exact List.append_inj e len
    · rintro ⟨rfl, rfl⟩
      rfl

/-- Bytes in front stay as they are. -/
lemma prepend {c b : Bytes} {ints : List VarInt.Spelling} (h : Shortens c b ints) (front : Bytes) :
    Shortens (front ++ c) (front ++ b) ints :=
  (refl front).append h

/-- Bytes behind stay as they are. -/
lemma extend {c b : Bytes} {ints : List VarInt.Spelling} (h : Shortens c b ints) (back : Bytes) :
    Shortens (c ++ back) (b ++ back) ints := by
  have e := h.append (refl back)
  rwa [List.append_nil] at e

/-- An integer that is read is written again in its shortest form. -/
lemma varInt {input : Bytes} {n : UInt32} {used : Nat}
    (h : VarInt.decode input = .ok (some (n, used))) :
    ∃ c, VarInt.encode n = .ok c ∧ c.length = VarInt.size n ∧
      Shortens c (input.take used) [⟨n, used⟩] := by
  obtain ⟨c, enc, len, least, most, eq⟩ := VarInt.encode_of_decode h
  refine ⟨c, enc, len, ?_, ?_⟩
  · rw [List.length_take, len]
    omega
  · rw [eq]
    simp [VarInt.Spelling.IsShortest]

/-- Bytes that shrink behind their size let the size shrink as well. -/
lemma count {input b c : Bytes} {ints : List VarInt.Spelling} {n : UInt32} {used : Nat}
    (h : Shortens c b ints) (decoded : VarInt.decode input = .ok (some (n, used)))
    (size : b.length = n.toNat) :
    ∃ s, Field.count c.length = .ok s ∧
      Shortens (s ++ c) (input.take used ++ b) (⟨n, used⟩ :: ints) := by
  have le := h.length_le
  have lt : c.length < 4294967296 := Nat.lt_of_le_of_lt le (size ▸ n.toNat_lt)
  have max := VarInt.le_maxValue_of_decode decoded
  have shrinks : UInt32.ofNat c.length ≤ n := by
    rw [UInt32.le_iff_toNat_le, UInt32.toNat_ofNat', Nat.mod_eq_of_lt lt]
    omega
  have enc : VarInt.encode (.ofNat c.length) = .ok (VarInt.groups 3 (.ofNat c.length)) :=
    VarInt.encode_eq_ok_iff.mpr ⟨UInt32.le_trans shrinks max, rfl⟩
  obtain ⟨s, hs, len, hsize⟩ := varInt decoded
  have shorter : (VarInt.groups 3 (.ofNat c.length)).length ≤ s.length := by
    rw [(VarInt.spells_of_encode enc).2, len]
    exact VarInt.size_mono shrinks
  -- bytes that stay have the size that stood before them
  have same (e : c = b) : VarInt.groups 3 (.ofNat c.length) = s := by
    rw [e, size, UInt32.ofNat_toNat]
    exact (VarInt.encode_eq_ok_iff.mp hs).2.symm
  refine ⟨_, Field.count_eq_ok_iff.mpr ⟨lt, enc⟩, ?_, ?_⟩
  · have := hsize.length_le
    rw [List.length_append, List.length_append]
    omega
  · have first : VarInt.Spelling.IsShortest ⟨n, used⟩ ↔ s = input.take used := by
      rw [hsize.eq_iff, List.forall_mem_singleton]
    rw [List.forall_mem_cons, ← h.eq_iff, first]
    constructor
    · intro e
      have total := congrArg List.length e
      rw [List.length_append, List.length_append] at total
      have len : (VarInt.groups 3 (.ofNat c.length)).length = (input.take used).length := by
        have := hsize.length_le
        omega
      -- both sides begin with a size of the same length, so the rests agree as well
      obtain ⟨front, rfl⟩ := List.append_inj e len
      exact ⟨(same rfl).symm.trans front, rfl⟩
    · rintro ⟨front, e⟩
      rw [same e, front, e]

end Shortens

/-- A reader and a writer of one layout: what is read can be written, and is what was read with the
integers on its way in their shortest form. The integers are those that `ints` finds. -/
def Recodes {α : Type} (item : Parse α) (ints : Parse (List VarInt.Spelling))
    (encode : α → Except WireError Bytes) : Prop :=
  ∀ {input x rest}, item input = .ok (x, rest) →
    ∃ b c found, input = b ++ rest ∧ encode x = .ok c ∧ ints input = .ok (found, rest) ∧
      Shortens c b found

/-- The spelling of an integer is told together with the integer. -/
lemma Parse.spelling_of_decode {input : Bytes} {n : UInt32} {used : Nat}
    (h : VarInt.decode input = .ok (some (n, used))) :
    Parse.spelling input = .ok (⟨n, used⟩, input.drop used) := by
  rw [spelling, h]
  rfl

/-- Items are shortened if each of them is. -/
lemma Recodes.itemsWithin {α : Type} {item : Parse α} {ints : Parse (List VarInt.Spelling)}
    {encode : α → Except WireError Bytes} (h : Recodes item ints encode) {fuel : Nat}
    {input : Bytes} {xs : List α} (read : Parse.itemsWithin item fuel input = .ok xs) :
    ∃ c found, encodeItems encode xs = .ok c ∧
      Parse.itemsWithin ints fuel input = .ok found ∧ Shortens c input found.flatten := by
  induction fuel generalizing input xs with
  | zero =>
    cases input with
    | nil =>
      cases read
      exact ⟨[], [], rfl, rfl, .refl []⟩
    | cons b input => cases read
  | succ fuel ih =>
    by_cases ne : input = []
    · cases ne
      cases read
      exact ⟨[], [], rfl, rfl, .refl []⟩
    · rw [Parse.itemsWithin_succ ne] at read ⊢
      simp only [WireError.bind_eq_ok_iff, WireError.pure_eq_ok_iff, Prod.exists] at read
      obtain ⟨x, rest, hx, ys, hys, rfl⟩ := read
      obtain ⟨b, c, found, rfl, henc, hints, short⟩ := h hx
      obtain ⟨c', founds, henc', hints', short'⟩ := ih hys
      refine ⟨c ++ c', found :: founds,
        encodeItems_cons_eq_ok_iff.mpr ⟨c, c', henc, henc', rfl⟩, ?_, short.append short'⟩
      rw [hints]
      change (Parse.itemsWithin ints fuel rest >>= fun ys => pure (found :: ys)) = _
      rw [hints']
      rfl

/-- Items of which each is read off its own written form are written as they were read. -/
lemma encodeItems_of_itemsWithin {α : Type} {item : Parse α} {encode : α → Except WireError Bytes}
    (h : ∀ {input x rest}, item input = .ok (x, rest) → ∃ b, encode x = .ok b ∧ input = b ++ rest)
    {fuel : Nat} {input : Bytes} {xs : List α}
    (read : Parse.itemsWithin item fuel input = .ok xs) : encodeItems encode xs = .ok input := by
  induction fuel generalizing input xs with
  | zero =>
    cases input with
    | nil =>
      cases read
      rfl
    | cons b input => cases read
  | succ fuel ih =>
    by_cases ne : input = []
    · cases ne
      cases read
      rfl
    · rw [Parse.itemsWithin_succ ne] at read
      simp only [WireError.bind_eq_ok_iff, WireError.pure_eq_ok_iff, Prod.exists] at read
      obtain ⟨x, rest, hx, ys, hys, rfl⟩ := read
      obtain ⟨b, hb, rfl⟩ := h hx
      exact encodeItems_cons_eq_ok_iff.mpr ⟨b, rest, hb, ih hys, rfl⟩

/-- Items that are read exactly where they are written are written again as they were read. -/
lemma encodeItems_of_many {α : Type} {item : Parse α} {encode : α → Except WireError Bytes}
    (h : ∀ {input x rest}, item input = .ok (x, rest) → ∃ b, encode x = .ok b ∧ input = b ++ rest)
    {input rest : Bytes} {xs : List α} (read : Parse.many item input = .ok (xs, rest)) :
    encodeItems encode xs = .ok input ∧ rest = [] := by
  simp only [Parse.many, WireError.bind_eq_ok_iff, WireError.pure_eq_ok_iff, Prod.mk.injEq] at read
  obtain ⟨ys, hys, rfl, rfl⟩ := read
  exact ⟨encodeItems_of_itemsWithin h hys, rfl⟩

end MqttClient
