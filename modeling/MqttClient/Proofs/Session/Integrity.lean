import MqttClient.Proofs.Packet.Delimiting
import MqttClient.Proofs.Session.Record
import Mathlib.Tactic.Common

/-!
# Damaged records

A record that lost bytes at its end or got some there is refused for its packet alone, which tells
where it ends, so no checksum has to be trusted for that. A changed byte always shows in the
checksum, in records of any length: each step of the checksum is injective in the remainder and in
the byte, so remainders that once differ do so to the end.
-/

namespace MqttClient

namespace Checksum

/-- A shift halves the remainder. -/
lemma toNat_shiftRight_one (c : UInt32) : (c >>> 1).toNat = c.toNat / 2 := by
  rw [UInt32.toNat_shiftRight]
  exact Nat.shiftRight_eq_div_pow c.toNat 1

/-- The lowest bit is set exactly in odd remainders. -/
lemma and_one_eq_one_iff (c : UInt32) : c &&& 1 = 1 ↔ c.toNat % 2 = 1 := by
  rw [← UInt32.toNat_inj, UInt32.toNat_and]
  exact Nat.and_one_is_mod c.toNat ▸ Iff.rfl

/-- Whether the polynomial was added shows in the highest bit. -/
lemma xor_polynomial_ne (c c' : UInt32) : (c >>> 1) ^^^ polynomial ≠ c' >>> 1 := by
  intro same
  have high : (c >>> 1) ^^^ (c' >>> 1) = polynomial := by
    rw [← same, ← UInt32.xor_assoc, UInt32.xor_self, UInt32.zero_xor]
  have small : ((c >>> 1) ^^^ (c' >>> 1)).toNat < 2 ^ 31 := by
    rw [UInt32.toNat_xor]
    have := c.toNat_lt
    have := c'.toNat_lt
    exact Nat.xor_lt_two_pow (by rw [toNat_shiftRight_one]; omega)
      (by rw [toNat_shiftRight_one]; omega)
  rw [high] at small
  exact absurd small (by decide)

/-- A remainder is told by its lowest bit and the others. -/
lemma eq_of_shiftRight_one {c c' : UInt32} (low : c &&& 1 = 1 ↔ c' &&& 1 = 1)
    (high : c >>> 1 = c' >>> 1) : c = c' := by
  have halves := congrArg UInt32.toNat high
  rw [toNat_shiftRight_one, toNat_shiftRight_one] at halves
  rw [and_one_eq_one_iff, and_one_eq_one_iff] at low
  exact UInt32.toNat_inj.mp (by omega)

/-- Different remainders are different behind a step. -/
lemma shift_injective : Function.Injective shift := by
  intro c c' same
  unfold shift at same
  split at same <;> rename_i odd <;> split at same <;> rename_i odd'
  · exact eq_of_shiftRight_one (iff_of_true odd odd') (UInt32.xor_left_inj _ |>.mp same)
  · exact absurd same (xor_polynomial_ne c c')
  · exact absurd same.symm (xor_polynomial_ne c' c)
  · exact eq_of_shiftRight_one (iff_of_false odd odd') same

/-- Different remainders are different behind any number of steps. -/
lemma repeat_shift_injective (n : Nat) : Function.Injective (Nat.repeat shift n) := by
  induction n with
  | zero => exact Function.injective_id
  | succ n ih => exact shift_injective.comp ih

/-- Different remainders are different behind the same byte. -/
lemma absorb_injective_left (b : UInt8) : Function.Injective (absorb · b) := fun _ _ same =>
  UInt32.xor_left_inj _ |>.mp (repeat_shift_injective 8 same)

/-- A remainder is different behind different bytes. -/
lemma absorb_injective_right (c : UInt32) : Function.Injective (absorb c) := fun _ _ same =>
  UInt8.toUInt32_inj.mp (UInt32.xor_right_inj _ |>.mp (repeat_shift_injective 8 same))

/-- Different remainders are different behind the same bytes. -/
lemma foldl_absorb_injective (bytes : Bytes) :
    Function.Injective fun c => bytes.foldl absorb c := by
  induction bytes with
  | nil => exact Function.injective_id
  | cons b bytes ih => exact ih.comp (absorb_injective_left b)

/-- A change of a single byte always shows. -/
lemma crc32_ne_of_ne {a b : UInt8} (h : a ≠ b) (front rest : Bytes) :
    crc32 (front ++ a :: rest) ≠ crc32 (front ++ b :: rest) := by
  intro same
  have ends := UInt32.xor_left_inj _ |>.mp same
  rw [List.foldl_append, List.foldl_append, List.foldl_cons, List.foldl_cons] at ends
  exact h (absorb_injective_right _ (foldl_absorb_injective _ ends))

/-- The checksum of bytes is another one if one of them is changed. -/
lemma crc32_set_ne {bytes : Bytes} {i : Nat} {b : UInt8} (lt : i < bytes.length)
    (h : bytes[i]? ≠ some b) : crc32 (bytes.set i b) ≠ crc32 bytes := by
  have parts : bytes.take i ++ bytes[i] :: bytes.drop (i + 1) = bytes := by
    rw [← List.drop_eq_getElem_cons lt, List.take_append_drop]
  have ne : b ≠ bytes[i] := fun same => h (by rw [List.getElem?_eq_getElem lt, same])
  rw [List.set_eq_take_append_cons_drop, if_pos lt]
  nth_rewrite 3 [← parts]
  exact crc32_ne_of_ne ne _ _

end Checksum

namespace Record

variable {mark content bytes : Bytes} {v : Version}

/-- A record takes twelve bytes at least. -/
lemma decode?_of_length_lt (h : bytes.length < 12) : decode? bytes v = none := by
  refine if_pos ?_
  rw [List.length_drop]
  omega

/-- The checksum has to be that of what is behind it. -/
lemma decode?_append_of_ne (len : mark.length = 4)
    (h : mark ≠ Bytes.bigEndian 4 (Checksum.crc32 content).toNat) :
    decode? (mark ++ content) v = none := by
  unfold decode?
  simp only [List.drop_left' len, List.take_left' len]
  rw [if_pos h]
  exact ite_self _

/-- The packet has to take all the bytes behind the sequence number. -/
lemma decode?_append_of_not_whole (len : mark.length = 4)
    (h : ∀ p, Packet.decodeFirst (content.drop 8) v ≠ .ok (some (p, (content.drop 8).length))) :
    decode? (mark ++ content) v = none := by
  unfold decode?
  simp only [List.drop_left' len, List.take_left' len]
  split
  · rfl
  split
  · rfl
  split
  · rename_i p used read
    refine if_neg fun whole => h p ?_
    rw [read, whole]
  · rfl

section Framed

variable {place : Bytes} {p : Packet}

/-- The packet shows that bytes are missing. -/
lemma decode?_append_take (read : Packet.decodeFirst bytes v = .ok (some (p, bytes.length)))
    (len : mark.length = 4) (width : place.length = 8) {k : Nat} (lt : k < 8 + bytes.length) :
    decode? (mark ++ (place ++ bytes).take k) v = none := by
  by_cases short : k < 8
  · apply decode?_of_length_lt
    rw [List.length_append, List.length_take]
    omega
  · refine decode?_append_of_not_whole len fun q whole => ?_
    rw [List.take_append, List.take_of_length_le (by omega), List.drop_left' width,
      Packet.decodeFirst_take_eq_none read (by omega)] at whole
    cases whole

/-- The packet shows that bytes are too many. -/
lemma decode?_append_append (read : Packet.decodeFirst bytes v = .ok (some (p, bytes.length)))
    (len : mark.length = 4) (width : place.length = 8) {more : Bytes} (ne : more ≠ []) :
    decode? (mark ++ (place ++ bytes ++ more)) v = none := by
  refine decode?_append_of_not_whole len fun q whole => ?_
  have alone := Packet.decodeFirst_append_of_ne_none (by rw [read]; nofun) more
  rw [List.append_assoc, List.drop_left' width, alone, read, List.length_append] at whole
  have := List.length_pos_iff.mpr ne
  simp only [Except.ok.injEq, Option.some.injEq, Prod.mk.injEq] at whole
  omega

end Framed

/-- The checksum shows that a byte is another one. -/
lemma decode?_set {seq : UInt64} {i : Nat} {b : UInt8} (lt : i < (encode seq bytes).length)
    (ne : (encode seq bytes)[i]? ≠ some b) : decode? ((encode seq bytes).set i b) v = none := by
  unfold encode at lt ne ⊢
  simp only at lt ne ⊢
  generalize Bytes.bigEndian 8 seq.toNat ++ bytes = content at lt ne ⊢
  have len := Bytes.length_bigEndian 4 (Checksum.crc32 content).toNat
  rw [List.length_append, len] at lt
  -- either the checksum changes or what it is of, and then it had to change too
  by_cases inMark : i < 4
  · rw [List.set_append_left _ _ (by rwa [len])]
    refine decode?_append_of_ne (by rw [List.length_set, len]) fun same => ne ?_
    rw [List.getElem?_append_left (by rwa [len]), ← same, List.getElem?_set_self (by rwa [len])]
  · rw [List.set_append_right _ _ (by omega), len]
    rw [List.getElem?_append_right (by omega), len] at ne
    refine decode?_append_of_ne len fun same => ?_
    have small (c : UInt32) : c.toNat < 256 ^ 4 := c.toNat_lt
    have changed := Bytes.bigEndian_inj (small _) (small _) same
    exact Checksum.crc32_set_ne (by omega) ne (UInt32.toNat_inj.mp changed).symm

/-- A record keeps what it is made of, or is refused. It is so for the bytes of any packet that is
read again as itself. Bytes that are missing at the end, or are too many there, are noticed whatever
stands in place of the checksum; a single byte that is another one is noticed wherever it is. -/
theorem decode?_eq_none_of_damaged {p : Packet}
    (read : Packet.decodeFirst bytes v = .ok (some (p, bytes.length))) (seq : UInt64) :
    decode? (encode seq bytes) v = some ⟨seq, p⟩ ∧
      (∀ k < (encode seq bytes).length, decode? ((encode seq bytes).take k) v = none) ∧
      (∀ more ≠ [], decode? (encode seq bytes ++ more) v = none) ∧
      (∀ mark : Bytes, mark.length = 4 →
        (∀ k < ((encode seq bytes).drop 4).length,
          decode? (mark ++ ((encode seq bytes).drop 4).take k) v = none) ∧
        ∀ more ≠ [], decode? (mark ++ ((encode seq bytes).drop 4 ++ more)) v = none) ∧
      ∀ i < (encode seq bytes).length, ∀ b, (encode seq bytes)[i]? ≠ some b →
        decode? ((encode seq bytes).set i b) v = none := by
  have len (n : Nat) := Bytes.length_bigEndian 4 n
  have width := Bytes.length_bigEndian 8 seq.toNat
  have content : (encode seq bytes).drop 4 = Bytes.bigEndian 8 seq.toNat ++ bytes :=
    List.drop_left' (len _)
  have size : (encode seq bytes).length = 4 + (8 + bytes.length) := by
    simp only [encode, List.length_append, len, width]
  refine ⟨?_, fun k lt => ?_, fun more ne => ?_,
    fun mark four => ⟨fun k lt => ?_, fun more ne => ?_⟩, fun i lt b ne => decode?_set lt ne⟩
  · rw [decode?_encode_eq, read]
    exact if_pos rfl
  · -- what is left of the checksum is too short, or the packet behind it is torn
    by_cases short : k < 4
    · apply decode?_of_length_lt
      rw [List.length_take]
      omega
    · have torn : (encode seq bytes).take k =
          (encode seq bytes).take 4 ++ ((encode seq bytes).drop 4).take (k - 4) := by
        rw [← List.take_add, show 4 + (k - 4) = k from by omega]
      rw [torn, content]
      exact decode?_append_take read (by rw [List.length_take]; omega) width (by omega)
  · rw [encode, List.append_assoc]
    exact decode?_append_append read (len _) width ne
  · rw [content] at lt ⊢
    rw [List.length_append, width] at lt
    exact decode?_append_take read four width lt
  · rw [content]
    exact decode?_append_append read four width ne

/-- A message whose record loses its last byte, gets another one behind it, or has there another
one. -/
theorem decode?_eq_none_of_damaged_message :
    let p : Packet := .publish {
      qos := .atLeastOnce, topic := "a", packetId := 1, payload := [0x78] }
    let bytes : Bytes := [0x32, 6, 0, 1, 0x61, 0, 1, 0x78]
    p.encode .v311 = .ok bytes ∧ Packet.decodeFirst bytes .v311 = .ok (some (p, 8)) ∧
      decode? (encode 7 bytes) .v311 = some ⟨7, p⟩ ∧
      decode? ((encode 7 bytes).take 19) .v311 = none ∧
      (∀ b, decode? (encode 7 bytes ++ [b]) .v311 = none) ∧
      ∀ b ≠ 0x78, decode? ((encode 7 bytes).set 19 b) .v311 = none := by
  intro p bytes
  have read : Packet.decodeFirst bytes .v311 = .ok (some (p, 8)) := by decide
  have size : (encode 7 bytes).length = 20 := rfl
  have last : (encode 7 bytes)[19]? = some 0x78 := rfl
  obtain ⟨whole, torn, extended, -, changed⟩ := decode?_eq_none_of_damaged read 7
  refine ⟨by decide, read, whole, torn 19 (by omega), fun b => extended [b] nofun, fun b ne => ?_⟩
  refine changed 19 (by omega) b fun same => ne ?_
  rw [last] at same
  exact (Option.some.inj same).symm

end Record
end MqttClient
