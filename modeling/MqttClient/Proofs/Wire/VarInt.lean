import MqttClient.Wire.VarInt
import Mathlib.Tactic.Common

/-!
# Variable byte integers

What a sequence of groups spells is a natural number, each group weighing 128 times as much as the
one before it. The reader takes exactly the sequences of one to four groups, whatever follows them,
and returns the number they spell; the writer returns the one sequence of the smallest size. No sum
of either leaves the range of its word.
-/

namespace MqttClient.VarInt

/-- The groups of a number: the last one has a clear high bit, all others a set one. -/
inductive Spells : Bytes → Nat → Prop where
  | last {b : UInt8} :
    b.toNat < 128 →
    Spells [b] b.toNat
  | more {b : UInt8} {groups n} :
    128 ≤ b.toNat →
    Spells groups n →
    Spells (b :: groups) (b.toNat - 128 + 128 * n)

/-- The weight that lies behind a number of groups. -/
def bound : Nat → Nat
  | 0 => 1
  | n + 1 => 128 * bound n

/-- A number is spelled by one group at least. -/
lemma Spells.length_pos {groups n} (sp : Spells groups n) : 0 < groups.length := by
  cases sp <;> simp

/-- Groups spell numbers below their bound only. -/
lemma Spells.lt_bound {groups n} (sp : Spells groups n) : n < bound groups.length := by
  induction sp with
  | last h => simpa [bound] using h
  | @more b groups n hb _ ih =>
    have := b.toNat_lt
    simp only [List.length_cons, bound]
    omega

/-- A number is spelled in one way only by groups of one length. -/
lemma Spells.ext {g₁ g₂ n} (sp₁ : Spells g₁ n) (sp₂ : Spells g₂ n)
    (len : g₁.length = g₂.length) : g₁ = g₂ := by
  induction sp₁ generalizing g₂ with
  | @last b h =>
    generalize e : b.toNat = n at sp₂
    cases sp₂ with
    | last _ => rw [UInt8.toNat_inj.mp e]
    | more _ sp => exact absurd sp.length_pos (by simp_all)
  | @more b groups n hb sp ih =>
    generalize e : b.toNat - 128 + 128 * n = k at sp₂
    cases sp₂ with
    | last _ => exact absurd sp.length_pos (by simp_all)
    | @more b' groups' n' hb' sp' =>
      have hlt := b.toNat_lt
      have hlt' := b'.toNat_lt
      have hn : n = n' := by omega
      have hbb : b = b' := UInt8.toNat_inj.mp (by omega)
      subst hn; subst hbb
      rw [ih sp' (by simpa using len)]

/-- The high bit is clear exactly below 128. -/
lemma and_high_eq_zero_iff (b : UInt8) : b &&& 0x80 = 0 ↔ b.toNat < 128 := by
  have h : ∀ n : Fin 256, (UInt8.ofNat n.val &&& 0x80 = 0 ↔ n.val < 128) := by decide +kernel
  simpa using h ⟨b.toNat, b.toNat_lt⟩

/-- The low seven bits are the remainder by 128. -/
lemma toNat_and_low (b : UInt8) : (b &&& 0x7F).toNat = b.toNat % 128 := by
  rw [UInt8.toNat_and]
  exact Nat.and_two_pow_sub_one_eq_mod b.toNat 7

/-- The low seven bits as a word are the remainder by 128. -/
lemma toUInt32_and_low (b : UInt8) : (b &&& 0x7F).toUInt32 = UInt32.ofNat (b.toNat % 128) := by
  rw [← toNat_and_low, ← UInt8.toNat_toUInt32, UInt32.ofNat_toNat]

/-- The last group is added with all of its bits. -/
lemma add_last (value weight : UInt32) {b : UInt8} (h : b.toNat < 128) :
    value + (b &&& 0x7F).toUInt32 * weight = value + weight * UInt32.ofNat b.toNat := by
  rw [toUInt32_and_low, Nat.mod_eq_of_lt h, UInt32.mul_comm]

/-- What a reader has after a group, where `n` is the number of the groups behind it. -/
lemma add_group (value weight : UInt32) {b : UInt8} (n : Nat) (h : 128 ≤ b.toNat) :
    value + (b &&& 0x7F).toUInt32 * weight + weight * 128 * UInt32.ofNat n =
      value + weight * UInt32.ofNat (b.toNat - 128 + 128 * n) := by
  have := b.toNat_lt
  rw [toUInt32_and_low, show b.toNat % 128 = b.toNat - 128 from by omega, UInt32.ofNat_add,
    UInt32.ofNat_mul]
  grind

/-- Reading takes the groups off the front of the input. -/
lemma decodeFrom_append {groups n} (sp : Spells groups n) (rest : Bytes) {room : Nat}
    (len : groups.length ≤ room) (hroom : room ≤ maxSize) (value weight : UInt32) :
    decodeFrom room value weight (groups ++ rest) =
      .ok (some (value + weight * UInt32.ofNat n, maxSize - room + groups.length)) := by
  -- the weight grows with each group, so the claim is about any value and weight so far
  induction sp generalizing room value weight with
  | @last b h =>
    obtain ⟨room, rfl⟩ : ∃ k, room = k + 1 := ⟨room - 1, by simp at len; omega⟩
    simp only [List.cons_append, List.nil_append, decodeFrom, (and_high_eq_zero_iff b).mpr h,
      if_true, add_last value weight h, List.length_singleton]
    rw [show maxSize - room = maxSize - (room + 1) + 1 from by omega]
  | @more b groups n hb _ ih =>
    obtain ⟨room, rfl⟩ : ∃ k, room = k + 1 := ⟨room - 1, by simp at len; omega⟩
    have high : ¬ b &&& 0x80 = 0 := by rw [and_high_eq_zero_iff]; omega
    simp only [List.length_cons] at len
    simp only [List.cons_append, decodeFrom, high, if_false]
    rw [ih (by omega) (by omega), add_group value weight _ hb, List.length_cons,
      show maxSize - room + groups.length = maxSize - (room + 1) + (groups.length + 1) from by
        omega]

/-- A number that was read and a size without end stay what they are, whatever follows. -/
lemma decodeFrom_append_of_ne_none {room : Nat} {value weight : UInt32} {input : Bytes}
    (h : decodeFrom room value weight input ≠ .ok none) (rest : Bytes) :
    decodeFrom room value weight (input ++ rest) = decodeFrom room value weight input := by
  induction room generalizing value weight input with
  | zero => rfl
  | succ room ih =>
    cases input with
    | nil => exact absurd rfl h
    | cons b input =>
      simp only [List.cons_append, decodeFrom] at h ⊢
      split
      · rfl
      · rename_i high
        rw [if_neg high] at h
        exact ih h

/-- What was read was spelled by groups in front of the input. -/
lemma spells_of_decodeFrom {room : Nat} {value weight : UInt32} {input : Bytes} {x : UInt32}
    {used : Nat} (hroom : room ≤ maxSize)
    (h : decodeFrom room value weight input = .ok (some (x, used))) :
    ∃ groups rest n, input = groups ++ rest ∧ Spells groups n ∧ groups.length ≤ room ∧
      used = maxSize - room + groups.length ∧ x = value + weight * UInt32.ofNat n := by
  -- on the groups that there is room for; the sum and the weight go along
  induction room generalizing value weight input with
  | zero => simp [decodeFrom] at h
  | succ room ih =>
    cases input with
    | nil => simp [decodeFrom] at h
    | cons b input =>
      simp only [decodeFrom] at h
      split at h
      · rename_i low
        have hb := (and_high_eq_zero_iff b).mp low
        simp only [Except.ok.injEq, Option.some.injEq, Prod.mk.injEq] at h
        obtain ⟨rfl, rfl⟩ := h
        refine ⟨[b], input, b.toNat, rfl, .last hb, by simp, ?_, add_last value weight hb⟩
        simp only [List.length_singleton]
        omega
      · rename_i high
        have hb : 128 ≤ b.toNat := by
          rw [and_high_eq_zero_iff] at high
          omega
        obtain ⟨groups, rest, n, rfl, sp, len, rfl, rfl⟩ := ih (by omega) h
        refine ⟨b :: groups, rest, _, rfl, .more hb sp, by simpa using len, ?_,
          add_group value weight n hb⟩
        simp only [List.length_cons]
        omega

/-- Four groups spell numbers up to the largest one only. -/
lemma Spells.le_maxValue {groups n} (sp : Spells groups n) (len : groups.length ≤ maxSize) :
    n ≤ maxValue.toNat := by
  have pos := sp.length_pos
  have lt := sp.lt_bound
  have hmax : maxValue.toNat = 268435455 := rfl
  have hlen : groups.length = 1 ∨ groups.length = 2 ∨ groups.length = 3 ∨ groups.length = 4 := by
    simp only [maxSize] at len
    omega
  -- four groups are what the bound is made for; fewer stay far below it
  rcases hlen with e | e | e | e <;> simp only [e, bound] at lt <;> omega

/-- The number in front of the input, where at most four groups spell it. -/
theorem decode_append {groups n} (sp : Spells groups n) (len : groups.length ≤ maxSize)
    (rest : Bytes) :
    decode (groups ++ rest) = .ok (some (UInt32.ofNat n, groups.length)) := by
  have h := decodeFrom_append sp rest len (Nat.le_refl maxSize) 0 1
  simpa [decode] using h

/-- A number that was read is spelled by the bytes it takes. -/
theorem spells_of_decode {input : Bytes} {x : UInt32} {used : Nat}
    (h : decode input = .ok (some (x, used))) :
    ∃ groups rest, input = groups ++ rest ∧ Spells groups x.toNat ∧ groups.length = used ∧
      used ≤ maxSize := by
  obtain ⟨groups, rest, n, rfl, sp, len, rfl, rfl⟩ := spells_of_decodeFrom (Nat.le_refl _) h
  have hmax : maxValue.toNat = 268435455 := rfl
  have le := sp.le_maxValue len
  refine ⟨groups, rest, rfl, ?_, by simp, by simpa using len⟩
  have small : n < UInt32.size := Nat.lt_of_le_of_lt le (by rw [hmax]; decide)
  rwa [UInt32.one_mul, UInt32.zero_add, UInt32.toNat_ofNat_of_lt' small]

/-- A number that is read is the largest one at most. -/
lemma le_maxValue_of_decode {input : Bytes} {x : UInt32} {used : Nat}
    (h : decode input = .ok (some (x, used))) : x ≤ maxValue := by
  obtain ⟨groups, rest, rfl, sp, rfl, len⟩ := spells_of_decode h
  exact UInt32.le_iff_toNat_le.mpr (sp.le_maxValue len)

/-- A byte behind which a group follows is 128 more than its group. -/
lemma toNat_or_high (x : UInt32) :
    ((x % 128).toUInt8 ||| 0x80).toNat = x.toNat % 128 + 128 := by
  have h : ∀ n : Fin 128, (UInt8.ofNat n.val ||| 0x80).toNat = n.val + 128 := by decide +kernel
  have low : (x % 128).toUInt8 = UInt8.ofNat (x.toNat % 128) := by
    apply UInt8.toNat_inj.mp
    rw [UInt32.toNat_toUInt8, UInt32.toNat_mod, UInt8.toNat_ofNat']
    rfl
  rw [low]
  exact h ⟨x.toNat % 128, Nat.mod_lt _ (by decide)⟩

/-- The groups that are left say the quotient by 128. -/
lemma toNat_div_128 (x : UInt32) : (x / 128).toNat = x.toNat / 128 := by
  rw [UInt32.toNat_div]
  rfl

/-- The writer spells the number that it is given. -/
lemma spells_groups {more : Nat} {x : UInt32} (hx : x.toNat < bound (more + 1)) :
    Spells (groups more x) x.toNat := by
  have last {y : UInt32} (hy : y.toNat < 128) : Spells [y.toUInt8] y.toNat := by
    have e : y.toUInt8.toNat = y.toNat := by
      rw [UInt32.toNat_toUInt8]
      omega
    exact e ▸ Spells.last (by omega)
  induction more generalizing x with
  | zero => exact last (by simpa [bound] using hx)
  | succ more ih =>
    rw [groups]
    split
    · rename_i small
      exact last (UInt32.lt_iff_toNat_lt.mp small)
    -- the groups behind the first one spell the number without its seven low bits
    · have sp := ih (x := x / 128) (by rw [toNat_div_128]; simp only [bound] at hx ⊢; omega)
      have head := toNat_or_high x
      have more := Spells.more (b := (x % 128).toUInt8 ||| 0x80) (by omega) sp
      rw [toNat_div_128] at more
      rwa [show ((x % 128).toUInt8 ||| 0x80).toNat - 128 + 128 * (x.toNat / 128) = x.toNat from by
        omega] at more

/-- The size of a number steps up behind one, two and three groups. -/
lemma size_eq (x : UInt32) :
    size x = if x.toNat ≤ 127 then 1 else if x.toNat ≤ 16383 then 2
      else if x.toNat ≤ 2097151 then 3 else 4 := by
  simp only [size, UInt32.le_iff_toNat_le]
  rfl

/-- A number is written in as many groups as its size says. -/
lemma length_groups {x : UInt32} (hx : x ≤ maxValue) : (groups 3 x).length = size x := by
  have hmax : maxValue.toNat = 268435455 := rfl
  have h128 : (128 : UInt32).toNat = 128 := rfl
  rw [UInt32.le_iff_toNat_le] at hx
  rw [size_eq]
  simp only [groups, UInt32.lt_iff_toNat_lt, UInt32.toNat_div, h128]
  split_ifs <;> simp <;> omega

/-- No groups that spell a number are fewer than its size says. -/
lemma Spells.size_le {groups} {x : UInt32} (sp : Spells groups x.toNat) :
    size x ≤ groups.length := by
  have pos := sp.length_pos
  have lt := sp.lt_bound
  rw [size_eq]
  rcases len : groups.length with _ | _ | _ | _ | n
  · omega
  all_goals
    simp only [len, bound] at lt
    split_ifs <;> omega

/-- Exactly the numbers up to the largest one are written, as their groups. -/
lemma encode_eq_ok_iff {x : UInt32} {bytes : Bytes} :
    encode x = .ok bytes ↔ x ≤ maxValue ∧ bytes = groups 3 x := by
  unfold encode
  split
  · rename_i h
    simp [UInt32.not_le.mpr h]
  · rename_i h
    simp [UInt32.not_lt.mp h, eq_comm]

/-- What is written of a number spells it, in as many groups as its size says. -/
lemma spells_of_encode {x : UInt32} {bytes : Bytes} (h : encode x = .ok bytes) :
    Spells bytes x.toNat ∧ bytes.length = size x := by
  obtain ⟨hx, rfl⟩ := encode_eq_ok_iff.mp h
  refine ⟨spells_groups ?_, length_groups hx⟩
  have hmax : maxValue.toNat = 268435455 := rfl
  rw [UInt32.le_iff_toNat_le] at hx
  simp only [bound]
  omega

/-- No number takes more than four groups. -/
lemma size_le_maxSize (x : UInt32) : size x ≤ maxSize := by
  simp only [size, maxSize]
  split_ifs <;> omega

/-- A larger number does not take fewer groups. -/
lemma size_mono {x y : UInt32} (h : x ≤ y) : size x ≤ size y := by
  rw [UInt32.le_iff_toNat_le] at h
  rw [size_eq, size_eq]
  split_ifs <;> omega

/-- Reading undoes writing. -/
theorem decode_encode {x : UInt32} {bytes : Bytes} (h : encode x = .ok bytes) (rest : Bytes) :
    decode (bytes ++ rest) = .ok (some (x, bytes.length)) := by
  obtain ⟨sp, len⟩ := spells_of_encode h
  have := decode_append sp (len ▸ size_le_maxSize x) rest
  rwa [UInt32.ofNat_toNat] at this

/-- What was read is written again in no more bytes, and in the same ones if it had its size. -/
theorem encode_of_decode {input : Bytes} {x : UInt32} {used : Nat}
    (h : decode input = .ok (some (x, used))) :
    ∃ bytes, encode x = .ok bytes ∧ bytes.length = size x ∧ size x ≤ used ∧
      used ≤ input.length ∧ (bytes = input.take used ↔ used = size x) := by
  obtain ⟨groups', rest, rfl, sp, rfl, _⟩ := spells_of_decode h
  have hx := le_maxValue_of_decode h
  have enc := encode_eq_ok_iff.mpr ⟨hx, rfl⟩
  obtain ⟨sp', len⟩ := spells_of_encode enc
  refine ⟨groups 3 x, enc, len, sp.size_le, by simp, ?_⟩
  rw [List.take_left]
  constructor
  · rintro rfl
    exact len
  · intro e
    exact sp'.ext sp (by rw [len, e])

end MqttClient.VarInt
