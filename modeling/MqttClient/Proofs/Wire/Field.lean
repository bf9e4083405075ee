import MqttClient.Proofs.Wire.VarInt
import MqttClient.Wire.Field
import Mathlib.Algebra.Group.Nat.Defs
import Mathlib.Data.List.Induction
import Mathlib.Tactic.Common

/-!
# Fields

Each field is read off the front of exactly those inputs that begin with its written form, so what
was read could have been written in the same bytes. Variable byte integers are the exception, as
they may be read in more bytes than they are written in. Sequences of readers are taken apart by the
lemmas on `>>=`, forwards for what is written and backwards for what was read.
-/

namespace MqttClient

namespace Bytes

/-- The bytes of a number say the number as far as their width goes. -/
lemma toNat_bigEndian (width n : Nat) : toNat (bigEndian width n) = n % 256 ^ width := by
  induction width generalizing n with
  | zero => simp [bigEndian, toNat, Nat.mod_one]
  | succ width ih =>
    have low : (UInt8.ofNat n).toNat = n % 256 := UInt8.toNat_ofNat'
    rw [bigEndian, toNat_append_singleton, ih, low, Nat.pow_succ, Nat.mul_comm (256 ^ width),
      Nat.mod_mul]
    omega

/-- Bytes are those of the number that they say. -/
lemma bigEndian_toNat (bytes : Bytes) : bigEndian bytes.length (toNat bytes) = bytes := by
  induction bytes using List.reverseRecOn with
  | nil => rfl
  | append_singleton bytes b ih =>
    have hb := b.toNat_lt
    rw [List.length_append, List.length_singleton, bigEndian, toNat_append_singleton,
      show (toNat bytes * 256 + b.toNat) / 256 = toNat bytes from by omega, ih]
    congr 2
    apply UInt8.toNat_inj.mp
    rw [UInt8.toNat_ofNat']
    omega

/-- The digits of a number below the bound of their width determine it. -/
lemma bigEndian_inj {width m n : Nat} (hm : m < 256 ^ width) (hn : n < 256 ^ width)
    (e : bigEndian width m = bigEndian width n) : m = n := by
  have h := congrArg toNat e
  rwa [toNat_bigEndian, toNat_bigEndian, Nat.mod_eq_of_lt hm, Nat.mod_eq_of_lt hn] at h

/-- The text that bytes are has these bytes. -/
lemma ofText_of_toText? {bytes : Bytes} {s : String} (h : toText? bytes = some s) :
    ofText s = bytes := by
  unfold toText? String.fromUTF8? at h
  split at h
  · cases h
    simp [ofText, String.fromUTF8]
  · cases h

end Bytes

namespace Field

/-- A word of 16 bits takes two bytes. -/
@[simp]
lemma length_word16 (n : UInt16) : (word16 n).length = 2 :=
  Bytes.length_bigEndian 2 n.toNat

/-- A word of 32 bits takes four bytes. -/
@[simp]
lemma length_word32 (n : UInt32) : (word32 n).length = 4 :=
  Bytes.length_bigEndian 4 n.toNat

/-- The bytes of a word of 16 bits say its number. -/
lemma toNat_word16 (n : UInt16) : Bytes.toNat (word16 n) = n.toNat := by
  rw [word16, Bytes.toNat_bigEndian]
  exact Nat.mod_eq_of_lt n.toNat_lt

/-- The bytes of a word of 32 bits say its number. -/
lemma toNat_word32 (n : UInt32) : Bytes.toNat (word32 n) = n.toNat := by
  rw [word32, Bytes.toNat_bigEndian]
  exact Nat.mod_eq_of_lt n.toNat_lt

/-- Two bytes are the word of 16 bits that they say. -/
lemma word16_toNat {bytes : Bytes} (len : bytes.length = 2) :
    word16 (UInt16.ofNat bytes.toNat) = bytes := by
  have e := Bytes.bigEndian_toNat bytes
  have lt := Bytes.toNat_bigEndian 2 bytes.toNat
  rw [len] at e
  rw [e] at lt
  rw [word16, UInt16.toNat_ofNat', Nat.mod_eq_of_lt (by omega), e]

/-- Four bytes are the word of 32 bits that they say. -/
lemma word32_toNat {bytes : Bytes} (len : bytes.length = 4) :
    word32 (UInt32.ofNat bytes.toNat) = bytes := by
  have e := Bytes.bigEndian_toNat bytes
  have lt := Bytes.toNat_bigEndian 4 bytes.toNat
  rw [len] at e
  rw [e] at lt
  rw [word32, UInt32.toNat_ofNat', Nat.mod_eq_of_lt (by omega), e]

/-- Binary data is written behind its length, if that fits 16 bits. -/
lemma binary_eq_ok_iff {data bytes : Bytes} :
    binary data = .ok bytes ↔
      data.length < 65536 ∧ bytes = word16 (UInt16.ofNat data.length) ++ data := by
  unfold binary
  split
  · simp_all [eq_comm]
  · exact ⟨nofun, fun h => absurd h.1 ‹_›⟩

/-- A text has the length of its encoding in front. -/
lemma text_ne_nil {s : String} {bytes : Bytes} (h : text s = .ok bytes) : bytes ≠ [] := by
  obtain ⟨_, rfl⟩ := binary_eq_ok_iff.mp h
  intro e
  have len := congrArg List.length e
  simp at len

/-- A count is written as a variable byte integer, if it fits a word. -/
lemma count_eq_ok_iff {n : Nat} {bytes : Bytes} :
    count n = .ok bytes ↔ n < 4294967296 ∧ VarInt.encode (UInt32.ofNat n) = .ok bytes := by
  unfold count
  split
  · simp_all
  · exact ⟨nofun, fun h => absurd h.1 ‹_›⟩

/-- A count that four groups hold can be written. -/
lemma exists_count_iff {n : Nat} :
    (∃ bytes, count n = .ok bytes) ↔ n ≤ VarInt.maxValue.toNat := by
  have bound : VarInt.maxValue.toNat = 268435455 := rfl
  simp only [count_eq_ok_iff, VarInt.encode_eq_ok_iff, exists_and_left, exists_eq, and_true]
  rw [UInt32.le_iff_toNat_le]
  constructor
  · rintro ⟨lt, le⟩
    rwa [UInt32.toNat_ofNat', Nat.mod_eq_of_lt lt] at le
  · intro le
    have lt : n < 4294967296 := by omega
    refine ⟨lt, ?_⟩
    rwa [UInt32.toNat_ofNat', Nat.mod_eq_of_lt lt]

end Field

namespace Parse
variable {α β : Type}

/-- A sequence of readers reads if the first one reads and the others read what it leaves. -/
lemma bind_eq_ok_iff {item : Parse α} {next : α → Parse β} {input rest : Bytes} {y : β} :
    (item >>= next) input = .ok (y, rest) ↔
      ∃ x mid, item input = .ok (x, mid) ∧ next x mid = .ok (y, rest) := by
  change (item input >>= fun p => next p.1 p.2) = _ ↔ _
  rcases item input with e | ⟨x, mid⟩
  · exact ⟨nofun, nofun⟩
  · exact ⟨fun h => ⟨x, mid, rfl, h⟩, fun ⟨_, _, e, h⟩ => by cases e; exact h⟩

/-- A reader goes on behind what its first part took. -/
lemma bind_apply {item : Parse α} {input mid : Bytes} {x : α} (h : item input = .ok (x, mid))
    (next : α → Parse β) : (item >>= next) input = next x mid := by
  change (item input >>= fun p => next p.1 p.2) = _
  rw [h]
  rfl

/-- A reader fails with its first part. -/
lemma bind_of_error {item : Parse α} {input : Bytes} {e : WireError} (h : item input = .error e)
    (next : α → Parse β) : (item >>= next) input = .error e := by
  change (item input >>= fun p => next p.1 p.2) = _
  rw [h]
  rfl

/-- A constant takes nothing. -/
lemma pure_eq_ok_iff {x y : α} {input rest : Bytes} :
    (pure x : Parse α) input = .ok (y, rest) ↔ x = y ∧ input = rest := by
  change (Except.ok (x, input) : Except WireError _) = _ ↔ _
  simp

/-- A reader whose value is changed takes what it took. -/
lemma map_eq_ok_iff {item : Parse α} {f : α → β} {input rest : Bytes} {y : β} :
    (item >>= fun x => pure (f x)) input = .ok (y, rest) ↔
      ∃ x, item input = .ok (x, rest) ∧ f x = y := by
  simp only [bind_eq_ok_iff, pure_eq_ok_iff]
  constructor
  · rintro ⟨x, _, read, made, rfl⟩
    exact ⟨x, read, made⟩
  · rintro ⟨x, read, made⟩
    exact ⟨x, rest, read, made, rfl⟩

/-- A check takes nothing. -/
lemma lift_eq_ok_iff {e : Except WireError α} {x : α} {input rest : Bytes} :
    (liftM e : Parse α) input = .ok (x, rest) ↔ e = .ok x ∧ input = rest := by
  cases e with
  | error e => exact ⟨nofun, nofun⟩
  | ok y =>
    change (Except.ok (y, input) : Except WireError _) = _ ↔ _
    simp

/-- A byte is read exactly if it is the first one. -/
lemma byte_eq_ok_iff {input rest : Bytes} {b : UInt8} :
    byte input = .ok (b, rest) ↔ input = b :: rest := by
  cases input with
  | nil => exact ⟨nofun, nofun⟩
  | cons a input =>
    change (Except.ok (a, input) : Except WireError _) = _ ↔ _
    simp

/-- Bytes are taken exactly if they come first and are as many as are asked for. -/
lemma take_eq_ok_iff {n : Nat} {input field rest : Bytes} :
    take n input = .ok (field, rest) ↔ input = field ++ rest ∧ field.length = n := by
  simp only [take]
  constructor
  · intro h
    split at h
    · rename_i len
      simp only [Except.ok.injEq, Prod.mk.injEq] at h
      obtain ⟨rfl, rfl⟩ := h
      exact ⟨(List.take_append_drop n input).symm, len⟩
    · cases h
  · rintro ⟨rfl, rfl⟩
    simp

/-- A word of 16 bits is read exactly where it is written. -/
lemma word16_eq_ok_iff {input rest : Bytes} {n : UInt16} :
    word16 input = .ok (n, rest) ↔ input = Field.word16 n ++ rest := by
  unfold word16
  simp only [bind_eq_ok_iff, take_eq_ok_iff, pure_eq_ok_iff]
  constructor
  · rintro ⟨field, _, ⟨rfl, len⟩, rfl, rfl⟩
    rw [Field.word16_toNat len]
  · rintro rfl
    exact ⟨_, _, ⟨rfl, Field.length_word16 n⟩, by rw [Field.toNat_word16, UInt16.ofNat_toNat], rfl⟩

/-- A word of 32 bits is read exactly where it is written. -/
lemma word32_eq_ok_iff {input rest : Bytes} {n : UInt32} :
    word32 input = .ok (n, rest) ↔ input = Field.word32 n ++ rest := by
  unfold word32
  simp only [bind_eq_ok_iff, take_eq_ok_iff, pure_eq_ok_iff]
  constructor
  · rintro ⟨field, _, ⟨rfl, len⟩, rfl, rfl⟩
    rw [Field.word32_toNat len]
  · rintro rfl
    exact ⟨_, _, ⟨rfl, Field.length_word32 n⟩, by rw [Field.toNat_word32, UInt32.ofNat_toNat], rfl⟩

/-- Binary data is read exactly where it is written. -/
lemma binary_eq_ok_iff {input rest data : Bytes} :
    binary input = .ok (data, rest) ↔
      ∃ bytes, Field.binary data = .ok bytes ∧ input = bytes ++ rest := by
  unfold binary
  simp only [bind_eq_ok_iff, word16_eq_ok_iff, take_eq_ok_iff, Field.binary_eq_ok_iff]
  constructor
  · rintro ⟨n, _, rfl, rfl, len⟩
    have lt := n.toNat_lt
    refine ⟨_, ⟨by omega, rfl⟩, ?_⟩
    rw [len, UInt16.ofNat_toNat, List.append_assoc]
  · rintro ⟨_, ⟨lt, rfl⟩, rfl⟩
    refine ⟨_, _, List.append_assoc _ _ _, rfl, ?_⟩
    rw [UInt16.toNat_ofNat', Nat.mod_eq_of_lt lt]

/-- A text is read exactly where it is written. -/
lemma text_eq_ok_iff {input rest : Bytes} {s : String} :
    text input = .ok (s, rest) ↔ ∃ bytes, Field.text s = .ok bytes ∧ input = bytes ++ rest := by
  unfold text Field.text
  simp only [bind_eq_ok_iff]
  constructor
  · rintro ⟨data, mid, h, h'⟩
    cases hs : data.toText? with
    | none =>
      simp only [hs] at h'
      exact nomatch h'
    | some s' =>
      simp only [hs] at h'
      obtain ⟨rfl, rfl⟩ := pure_eq_ok_iff.mp h'
      rw [Bytes.ofText_of_toText? hs]
      exact binary_eq_ok_iff.mp h
  · intro h
    refine ⟨_, _, binary_eq_ok_iff.mpr h, ?_⟩
    simp only [Bytes.toText?_ofText]
    rfl

/-- A variable byte integer is read exactly if one is decoded, and its bytes are taken. -/
lemma varInt_eq_ok_iff {input rest : Bytes} {n : UInt32} :
    varInt input = .ok (n, rest) ↔
      ∃ used, VarInt.decode input = .ok (some (n, used)) ∧ rest = input.drop used := by
  unfold varInt
  rcases VarInt.decode input with e | ⟨_ | ⟨m, used⟩⟩
  · exact ⟨nofun, nofun⟩
  · exact ⟨nofun, nofun⟩
  · change (Except.ok (m, input.drop used) : Except WireError _) = _ ↔ _
    constructor
    · intro h
      cases h
      exact ⟨used, rfl, rfl⟩
    · rintro ⟨_, h, rfl⟩
      cases h
      rfl

/-- The remainder is the whole input, and nothing is left. -/
lemma remainder_eq_ok_iff {input rest x : Bytes} :
    remainder input = .ok (x, rest) ↔ x = input ∧ rest = [] := by
  change (Except.ok (input, []) : Except WireError _) = _ ↔ _
  simp only [Except.ok.injEq, Prod.mk.injEq]
  exact ⟨fun ⟨h, h'⟩ => ⟨h.symm, h'.symm⟩, fun ⟨h, h'⟩ => ⟨h.symm, h'.symm⟩⟩

/-- The input is finished exactly if nothing is left. -/
lemma finish_eq_ok_iff {input rest : Bytes} {u : Unit} :
    finish input = .ok (u, rest) ↔ input = [] ∧ rest = [] := by
  cases input with
  | nil => exact ⟨fun h => by cases h; exact ⟨rfl, rfl⟩, fun ⟨_, h⟩ => by rw [h]; rfl⟩
  | cons b input => exact ⟨nofun, nofun⟩

/-- A requirement is met exactly if it is true, and takes nothing. -/
lemma require_eq_ok_iff {condition : Bool} {fault : WireError} {input rest : Bytes} {u : Unit} :
    require condition fault input = .ok (u, rest) ↔ condition = true ∧ input = rest := by
  unfold require
  cases condition with
  | true => simp
  | false => exact ⟨nofun, nofun⟩

/-- Whether the input is at its end is told of the input, and takes nothing. -/
lemma atEnd_eq_ok_iff {input rest : Bytes} {b : Bool} :
    atEnd input = .ok (b, rest) ↔ b = input.isEmpty ∧ input = rest := by
  change (Except.ok (input.isEmpty, input) : Except WireError _) = _ ↔ _
  simp only [Except.ok.injEq, Prod.mk.injEq]
  exact ⟨fun ⟨h, h'⟩ => ⟨h.symm, h'⟩, fun ⟨h, h'⟩ => ⟨h.symm, h'⟩⟩

/-- A variable byte integer that was written is read again. -/
lemma varInt_encode {n : UInt32} {bytes : Bytes} (h : VarInt.encode n = .ok bytes) (rest : Bytes) :
    varInt (bytes ++ rest) = .ok (n, rest) := by
  refine varInt_eq_ok_iff.mpr ⟨_, VarInt.decode_encode h rest, ?_⟩
  rw [List.drop_left]

/-- A count that was written is read again, with the same number. -/
lemma varInt_count {n : Nat} {bytes : Bytes} (h : Field.count n = .ok bytes) (rest : Bytes) :
    ∃ m, varInt (bytes ++ rest) = .ok (m, rest) ∧ m.toNat = n := by
  obtain ⟨lt, enc⟩ := Field.count_eq_ok_iff.mp h
  refine ⟨_, varInt_encode enc rest, ?_⟩
  rw [UInt32.toNat_ofNat', Nat.mod_eq_of_lt lt]

end Parse

end MqttClient
