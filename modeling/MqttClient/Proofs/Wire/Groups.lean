import MqttClient.Proofs.Wire.Exact
import MqttClient.Proofs.Wire.VarInt
import Mathlib.Data.Nat.Digits.Defs

/-!
# What the groups say

A variable byte integer ends at the first byte whose high bit is clear. If that is one of the first
four bytes, the bytes up to it are the number in base 128; if all of the first four go on, there is
no number; and before that the end is missing. Nothing on the way runs over, neither in reading nor
in writing.
-/

namespace MqttClient.VarInt

/-- Whether no group follows. -/
def isLast (b : UInt8) : Bool :=
  b &&& 0x80 = 0

/-- The number whose digits in base 128 are the low bits of the bytes, least significant first. -/
def total (bytes : Bytes) : Nat :=
  Nat.ofDigits 128 (bytes.map fun b => b.toNat % 128)

/-- No group follows a byte below 128. -/
lemma isLast_iff {b : UInt8} : isLast b = true ↔ b.toNat < 128 := by
  rw [isLast, decide_eq_true_eq, and_high_eq_zero_iff]

/-- A group follows a byte whose high bit is set. -/
lemma isLast_eq_false_iff {b : UInt8} : isLast b = false ↔ ¬ b &&& 0x80 = 0 :=
  decide_eq_false_iff_not

/-- A group follows a byte from 128 on. -/
lemma isLast_of_high {b : UInt8} (high : 128 ≤ b.toNat) : isLast b = false := by
  rw [isLast_eq_false_iff, and_high_eq_zero_iff]
  exact Nat.not_lt.mpr high

/-- A byte that a group follows is 128 at least. -/
lemma high_of_isLast {b : UInt8} (goes : isLast b = false) : 128 ≤ b.toNat := by
  rw [isLast_eq_false_iff, and_high_eq_zero_iff] at goes
  exact Nat.le_of_not_lt goes

/-- The first group weighs one, and those behind it 128 times as much. -/
lemma total_cons (b : UInt8) (bytes : Bytes) :
    total (b :: bytes) = b.toNat % 128 + 128 * total bytes :=
  Nat.ofDigits_cons

/-- Another group weighs 128 times as much as the one before it. -/
lemma total_concat (bytes : Bytes) (b : UInt8) :
    total (bytes ++ [b]) = total bytes + b.toNat % 128 * 128 ^ bytes.length := by
  rw [total, List.map_append, Nat.ofDigits_append, List.length_map, List.map_singleton,
    Nat.ofDigits_singleton, Nat.mul_comm]
  rfl

/-- The groups that spell a number have it as their total. -/
lemma Spells.total_eq {groups n} (sp : Spells groups n) : total groups = n := by
  induction sp with
  | @last b low =>
    rw [total_cons, Nat.mod_eq_of_lt low]
    rfl
  | @more b groups n high _ ih =>
    have := b.toNat_lt
    rw [total_cons, ih]
    omega

/-- The groups that spell a number end at the first byte that no group follows. -/
lemma Spells.findIdx?_isLast {groups n} (sp : Spells groups n) (rest : Bytes) :
    (groups ++ rest).findIdx? isLast = some (groups.length - 1) := by
  induction sp with
  | last low =>
    rw [List.cons_append, List.findIdx?_cons, isLast_iff.mpr low]
    rfl
  | more high sp ih =>
    have pos := sp.length_pos
    rw [List.cons_append, List.findIdx?_cons, isLast_of_high high, ih, List.length_cons]
    simp only [Bool.false_eq_true, if_false, Option.map_some, Option.some.injEq]
    omega

/-- The bytes up to the first one that no group follows spell their total. -/
lemma spells_of_findIdx? {bytes : Bytes} {i : Nat} (h : bytes.findIdx? isLast = some i) :
    Spells (bytes.take (i + 1)) (total (bytes.take (i + 1))) := by
  induction bytes generalizing i with
  | nil => cases h
  | cons b bytes ih =>
    rw [List.findIdx?_cons] at h
    cases last : isLast b with
    | true =>
      rw [last] at h
      cases h
      have low := isLast_iff.mp last
      rw [List.take_succ_cons, List.take_zero, total_cons, Nat.mod_eq_of_lt low]
      exact .last low
    | false =>
      rw [last] at h
      simp only [Bool.false_eq_true, if_false, Option.map_eq_some_iff] at h
      obtain ⟨j, found, rfl⟩ := h
      have high := high_of_isLast last
      have := b.toNat_lt
      rw [List.take_succ_cons, total_cons, show b.toNat % 128 = b.toNat - 128 from by omega]
      exact .more high (ih found)

/-- Groups that go on and a last one spell their total. -/
lemma spells_concat {groups : Bytes} {b : UInt8} (goes : ∀ c ∈ groups, isLast c = false)
    (last : isLast b = true) : Spells (groups ++ [b]) (total (groups ++ [b])) := by
  have found : (groups ++ [b]).findIdx? isLast = some groups.length := by
    rw [List.findIdx?_append, List.findIdx?_eq_none_iff.mpr goes, List.findIdx?_singleton, last]
    simp
  have sp := spells_of_findIdx? found
  rwa [List.take_of_length_le (by simp)] at sp

/-- A number is read exactly off the bytes up to the first one that no group follows. -/
lemma decode_eq_some_iff {bytes : Bytes} {x : UInt32} {k : Nat} :
    decode bytes = .ok (some (x, k)) ↔
      0 < k ∧ k ≤ maxSize ∧ bytes.findIdx? isLast = some (k - 1) ∧
        x.toNat = total (bytes.take k) := by
  constructor
  · intro h
    obtain ⟨groups, rest, rfl, sp, rfl, le⟩ := spells_of_decode h
    refine ⟨sp.length_pos, le, sp.findIdx?_isLast rest, ?_⟩
    rw [List.take_left, sp.total_eq]
  · rintro ⟨pos, le, first, eq⟩
    have sp := spells_of_findIdx? first
    rw [Nat.sub_add_cancel pos, ← eq] at sp
    have inside : k - 1 < bytes.length := (List.findIdx?_eq_some_iff_getElem.mp first).1
    have len : (bytes.take k).length = k := by
      rw [List.length_take]
      omega
    have read := decode_append sp (by rwa [len]) (bytes.drop k)
    rwa [List.take_append_drop, UInt32.ofNat_toNat, len] at read

/-- The end of a number is missing while fewer groups than there is room for all go on. -/
lemma decodeFrom_eq_none_iff {room : Nat} {value weight : UInt32} {input : Bytes} :
    decodeFrom room value weight input = .ok none ↔
      input.length < room ∧ ∀ b ∈ input, isLast b = false := by
  induction room generalizing value weight input with
  | zero =>
    rw [decodeFrom]
    simp
  | succ room ih =>
    cases input with
    | nil => simp [decodeFrom]
    | cons b input =>
      rw [decodeFrom, List.length_cons, Nat.succ_lt_succ_iff, List.forall_mem_cons,
        isLast_eq_false_iff]
      split
      · rename_i low
        simp [low]
      · rename_i high
        rw [ih, and_iff_right high]

/-- There is no number if all groups that there is room for go on. -/
lemma decodeFrom_eq_error_iff {room : Nat} {value weight : UInt32} {input : Bytes} {e : WireError} :
    decodeFrom room value weight input = .error e ↔
      e = .malformedVarInt ∧ room ≤ input.length ∧ ∀ b ∈ input.take room, isLast b = false := by
  induction room generalizing value weight input with
  | zero =>
    rw [decodeFrom, Except.error.injEq, eq_comm]
    simp
  | succ room ih =>
    cases input with
    | nil => simp [decodeFrom]
    | cons b input =>
      rw [decodeFrom, List.length_cons, Nat.succ_le_succ_iff, List.take_succ_cons,
        List.forall_mem_cons, isLast_eq_false_iff]
      split
      · rename_i low
        simp [low]
      · rename_i high
        rw [ih, and_iff_right high]

/-- What a reader has behind `count` groups: their sum, and the weight of the next one. -/
structure Sums (count : Nat) (value weight : UInt32) : Prop where
  weight : weight.toNat = 128 ^ count
  value : value.toNat < 128 ^ count

/-- The sum with another group, unless it runs over. -/
def addGroup? (value weight : UInt32) (b : UInt8) : Option UInt32 := do
  Exact.sum? value (← Exact.product? (b &&& 0x7F).toUInt32 weight)

section
variable {count : Nat} {value weight : UInt32}

/-- Before the first group the sum is zero and the weight is one. -/
lemma sums_zero : Sums 0 0 1 :=
  ⟨rfl, Nat.zero_lt_one⟩

namespace Sums

/-- Four groups are far below the end of the words. -/
lemma pow_le (lt : count < maxSize) : 128 ^ (count + 1) ≤ 268435456 :=
  Nat.pow_le_pow_right (by decide : 0 < 128) lt

/-- The sum with another group is below the next weight. -/
lemma sum_lt (h : Sums count value weight) (b : UInt8) :
    value.toNat + (b &&& 0x7F).toUInt32.toNat * weight.toNat < 128 ^ (count + 1) := by
  have low : (b &&& 0x7F).toUInt32.toNat ≤ 127 := by
    rw [UInt8.toNat_toUInt32, toNat_and_low]
    omega
  have most := Nat.mul_le_mul_right (128 ^ count) low
  have below := h.value
  rw [h.weight, Nat.pow_succ]
  omega

/-- Another group is added without running over. -/
lemma addGroup? (h : Sums count value weight) (lt : count < maxSize) (b : UInt8) :
    addGroup? value weight b = some (value + (b &&& 0x7F).toUInt32 * weight) := by
  have below := h.sum_lt b
  have le := pow_le lt
  have fits : (b &&& 0x7F).toUInt32.toNat * weight.toNat < 4294967296 := by omega
  rw [VarInt.addGroup?, Exact.product?, if_pos fits]
  refine if_pos ?_
  rw [Exact.toNat_mul fits]
  omega

/-- The sum with another group is the exact one. -/
lemma toNat_add (h : Sums count value weight) (lt : count < maxSize) (b : UInt8) :
    (value + (b &&& 0x7F).toUInt32 * weight).toNat =
      value.toNat + b.toNat % 128 * 128 ^ count := by
  have below := h.sum_lt b
  have le := pow_le lt
  have fits : (b &&& 0x7F).toUInt32.toNat * weight.toNat < 4294967296 := by omega
  rw [Exact.toNat_add, Exact.toNat_mul fits, UInt8.toNat_toUInt32, toNat_and_low, h.weight]
  rw [Exact.toNat_mul fits]
  omega

/-- The next weight fits a word. -/
lemma weight_lt (h : Sums count value weight) (lt : count < maxSize) :
    weight.toNat * (128 : UInt32).toNat < 4294967296 := by
  have le := pow_le lt
  change weight.toNat * 128 < _
  rw [h.weight, ← Nat.pow_succ]
  omega

/-- The next weight does not run over. -/
lemma product? (h : Sums count value weight) (lt : count < maxSize) :
    Exact.product? weight 128 = some (weight * 128) :=
  if_pos (h.weight_lt lt)

/-- Behind another group the sum and the weight are again what they have to be. -/
lemma next (h : Sums count value weight) (lt : count < maxSize) (b : UInt8) :
    Sums (count + 1) (value + (b &&& 0x7F).toUInt32 * weight) (weight * 128) := by
  constructor
  · rw [Exact.toNat_mul (h.weight_lt lt), h.weight]
    rfl
  · have below := h.sum_lt b
    rwa [h.toNat_add lt, ← toNat_and_low, ← UInt8.toNat_toUInt32, ← h.weight]

end Sums
end

/-- Reading with exact arithmetic only. -/
def decodeFrom? : (room : Nat) → (value weight : UInt32) → Bytes →
    Option (Except WireError (Option (UInt32 × Nat)))
  | 0, _, _, _ => some (.error .malformedVarInt)
  | _ + 1, _, _, [] => some (.ok none)
  | room + 1, value, weight, b :: rest => do
    let value ← addGroup? value weight b
    if b &&& 0x80 = 0 then some (.ok (some (value, maxSize - room)))
    else decodeFrom? room value (← Exact.product? weight 128) rest

/-- Reading with exact arithmetic only, from the first group on. -/
def decode? (bytes : Bytes) : Option (Except WireError (Option (UInt32 × Nat))) :=
  decodeFrom? maxSize 0 1 bytes

/-- The groups of `value` with exact arithmetic only, where there is room for so many. -/
def groups? : (room : Nat) → (value : UInt32) → Option Bytes
  | 0, _ => none
  | room + 1, value => do
    let b ← Exact.byte? (value % 128)
    if value / 128 = 0 then some [b]
    else return (b ||| 0x80) :: (← groups? room (value / 128))

/-- Writing with exact arithmetic only. -/
def encode? (value : UInt32) : Option (Except WireError Bytes) :=
  if maxValue < value then some (.error .tooLarge) else (groups? maxSize value).map .ok

/-- Reading does not run over. -/
lemma decodeFrom?_eq {room : Nat} {value weight : UInt32} (le : room ≤ maxSize)
    (h : Sums (maxSize - room) value weight) (input : Bytes) :
    decodeFrom? room value weight input = some (decodeFrom room value weight input) := by
  induction room generalizing value weight input with
  | zero => rfl
  | succ room ih =>
    cases input with
    | nil => rfl
    | cons b input =>
      have lt : maxSize - (room + 1) < maxSize := by
        rw [maxSize] at le ⊢
        omega
      have step := h.next lt b
      rw [show maxSize - (room + 1) + 1 = maxSize - room from by omega] at step
      simp only [decodeFrom?, decodeFrom, h.addGroup? lt, h.product? lt, Option.bind_eq_bind,
        Option.bind_some, ih (Nat.le_of_succ_le le) step]
      split <;> rfl

/-- The low seven bits of a word are a byte. -/
lemma byte?_mod (value : UInt32) : Exact.byte? (value % 128) = some (value % 128).toUInt8 := by
  refine if_pos ?_
  rw [UInt32.toNat_mod]
  exact Nat.lt_trans (Nat.mod_lt _ (by decide)) (by decide)

/-- No groups are left to write exactly if the word is below 128. -/
lemma div_eq_zero_iff {x : UInt32} : x / 128 = 0 ↔ x < 128 := by
  rw [← UInt32.toNat_inj, toNat_div_128, UInt32.lt_iff_toNat_lt]
  exact Nat.div_eq_zero_iff_lt (by decide)

/-- A word below 128 is its low seven bits. -/
lemma mod_eq_of_lt {x : UInt32} (lt : x < 128) : x % 128 = x := by
  apply UInt32.toNat_inj.mp
  rw [UInt32.toNat_mod]
  exact Nat.mod_eq_of_lt (UInt32.lt_iff_toNat_lt.mp lt)

/-- Writing does not run over, and there is room for all groups. -/
lemma groups?_eq {more : Nat} {value : UInt32} (h : value.toNat < bound (more + 1)) :
    groups? (more + 1) value = some (groups more value) := by
  induction more generalizing value with
  | zero =>
    have lt : value < 128 := UInt32.lt_iff_toNat_lt.mpr h
    rw [groups?, byte?_mod, mod_eq_of_lt lt]
    simp only [div_eq_zero_iff, lt, Option.bind_eq_bind, Option.bind_some, if_true]
    rfl
  | succ more ih =>
    rw [groups?, byte?_mod, groups]
    by_cases lt : value < 128
    · simp only [div_eq_zero_iff, mod_eq_of_lt lt, lt, Option.bind_eq_bind, Option.bind_some,
        if_true]
    · have fewer : (value / 128).toNat < bound (more + 1) := by
        rw [toNat_div_128]
        simp only [bound] at h ⊢
        omega
      simp only [div_eq_zero_iff, lt, if_false, ih fewer, Option.bind_eq_bind, Option.bind_some]
      rfl

/-- Up to the largest number the shortest form is written, and it is read again whatever follows it;
beyond it nothing is written. From any bytes a number is read exactly if one of the first four has
a clear high bit, and it is then the one that the bytes up to the first such one say. If the first
four all have a set high bit there is none, and fewer ones that all have it wait for their end.
Nothing on the way runs over, neither in writing nor in reading. -/
theorem encode_decode_exact :
    (∀ (x : UInt32) (suffix : Bytes),
      if x ≤ maxValue then
        ∃ bytes, encode x = .ok bytes ∧ bytes.length = size x ∧
          decode (bytes ++ suffix) = .ok (some (x, size x))
      else encode x = .error .tooLarge) ∧
    (∀ bytes : Bytes,
      (∀ x k, decode bytes = .ok (some (x, k)) ↔
        0 < k ∧ k ≤ maxSize ∧ bytes.findIdx? isLast = some (k - 1) ∧
          x.toNat = total (bytes.take k)) ∧
      (∀ x k, decode bytes = .ok (some (x, k)) → x ≤ maxValue ∧ size x ≤ k) ∧
      (decode bytes = .error .malformedVarInt ↔
        maxSize ≤ bytes.length ∧ ∀ b ∈ bytes.take maxSize, isLast b = false) ∧
      (decode bytes = .ok none ↔ bytes.length < maxSize ∧ ∀ b ∈ bytes, isLast b = false)) ∧
    (∀ x, encode? x = some (encode x)) ∧
    ∀ bytes, decode? bytes = some (decode bytes) := by
  refine ⟨fun x suffix => ?_, fun bytes => ⟨fun x k => decode_eq_some_iff, fun x k read => ?_, ?_,
    decodeFrom_eq_none_iff⟩, fun x => ?_, decodeFrom?_eq (Nat.le_refl _) sums_zero⟩
  · split
    · rename_i le
      have written := encode_eq_ok_iff.mpr ⟨le, rfl⟩
      have len := (spells_of_encode written).2
      have read := decode_encode written suffix
      rw [len] at read
      exact ⟨groups 3 x, written, len, read⟩
    · rename_i gt
      exact if_pos (UInt32.not_le.mp gt)
  · obtain ⟨-, -, -, least, -⟩ := encode_of_decode read
    exact ⟨le_maxValue_of_decode read, least⟩
  · rw [decode, decodeFrom_eq_error_iff]
    exact and_iff_right rfl
  · rw [encode?, encode]
    split
    · rfl
    · rename_i le
      -- there is room for four groups, and a number up to the largest one takes no more
      have max : maxValue.toNat = 268435455 := rfl
      have lt : x.toNat < bound 4 := by
        rw [UInt32.lt_iff_toNat_lt] at le
        simp only [bound]
        omega
      rw [show maxSize = 3 + 1 from rfl, groups?_eq lt]
      rfl

/-- Zero in three bytes, where one would do. -/
theorem encode_decode_exact_overlong :
    let bytes : Bytes := [0x80, 0x80, 0x00, 0x07]
    decode bytes = .ok (some (0, 3)) ∧ (0 : UInt32) ≤ maxValue ∧ size 0 ≤ 3 := by
  intro bytes
  obtain ⟨-, all, -⟩ := encode_decode_exact
  obtain ⟨reads, bounds, -⟩ := all bytes
  have read := (reads 0 3).mpr ⟨by decide, by decide, by decide, by decide⟩
  exact ⟨read, bounds 0 3 read⟩

end MqttClient.VarInt
