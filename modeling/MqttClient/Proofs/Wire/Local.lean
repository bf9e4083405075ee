import MqttClient.Proofs.Wire.Groups
import MqttClient.Proofs.Wire.Items
import Mathlib.Tactic.Common

/-!
# Readers that look at what they take

A reader of fields has its value from the bytes that it takes: bytes behind them do not change it,
and if the input ends before the last of them the input is truncated. All readers that are made of
such ones are of this kind.
-/

namespace MqttClient.Parse
variable {α β : Type}

/-- Whether a value is read off the bytes that are taken, and off no fewer. -/
structure IsLocal (item : Parse α) : Prop where
  length_le : ∀ {input x rest}, item input = .ok (x, rest) → rest.length ≤ input.length
  extend : ∀ {input x rest}, item input = .ok (x, rest) →
    ∀ more, item (input ++ more) = .ok (x, rest ++ more)
  within : ∀ {part more x rest}, item (part ++ more) = .ok (x, rest) →
    more.length ≤ rest.length → ∃ left, item part = .ok (x, left)
  beyond : ∀ {part more x rest}, item (part ++ more) = .ok (x, rest) →
    rest.length < more.length → item part = .error .truncated

/-- A constant looks at nothing. -/
lemma isLocal_pure (x : α) : (pure x : Parse α).IsLocal where
  length_le h := by
    obtain ⟨-, rfl⟩ := pure_eq_ok_iff.mp h
    exact Nat.le_refl _
  extend h more := by
    obtain ⟨rfl, rfl⟩ := pure_eq_ok_iff.mp h
    rfl
  within h _ := by
    obtain ⟨rfl, -⟩ := pure_eq_ok_iff.mp h
    exact ⟨_, rfl⟩
  beyond h less := by
    obtain ⟨-, rfl⟩ := pure_eq_ok_iff.mp h
    rw [List.length_append] at less
    omega

/-- A fault takes nothing, as it has no value. -/
lemma isLocal_throw (e : WireError) : (throw e : Parse α).IsLocal :=
  ⟨nofun, nofun, nofun, nofun⟩

/-- Two readers, one after the other, look at what both of them take. -/
lemma IsLocal.bind {item : Parse α} {next : α → Parse β} (first : item.IsLocal)
    (then' : ∀ x, (next x).IsLocal) : (item >>= next).IsLocal where
  length_le h := by
    obtain ⟨x, mid, read, read'⟩ := bind_eq_ok_iff.mp h
    exact Nat.le_trans ((then' x).length_le read') (first.length_le read)
  extend h more := by
    obtain ⟨x, mid, read, read'⟩ := bind_eq_ok_iff.mp h
    exact bind_eq_ok_iff.mpr ⟨x, mid ++ more, first.extend read more, (then' x).extend read' more⟩
  within {part more y rest} h le := by
    obtain ⟨x, mid, read, read'⟩ := bind_eq_ok_iff.mp h
    obtain ⟨left, readPart⟩ :=
      first.within read (Nat.le_trans le ((then' x).length_le read'))
    cases (first.extend readPart more).symm.trans read
    obtain ⟨left', readPart'⟩ := (then' x).within read' le
    exact ⟨left', bind_eq_ok_iff.mpr ⟨x, left, readPart, readPart'⟩⟩
  beyond {part more y rest} h less := by
    obtain ⟨x, mid, read, read'⟩ := bind_eq_ok_iff.mp h
    -- the input ends in the first part or in what is read after it
    rcases Nat.lt_or_ge mid.length more.length with lt | ge
    · exact bind_of_error (first.beyond read lt) next
    · obtain ⟨left, readPart⟩ := first.within read ge
      cases (first.extend readPart more).symm.trans read
      rw [bind_apply readPart]
      exact (then' x).beyond read' less

/-- Taking bytes looks at these bytes only. -/
lemma isLocal_take (n : Nat) : (take n).IsLocal where
  length_le h := by
    obtain ⟨rfl, -⟩ := take_eq_ok_iff.mp h
    rw [List.length_append]
    exact Nat.le_add_left ..
  extend h more := by
    obtain ⟨rfl, len⟩ := take_eq_ok_iff.mp h
    exact take_eq_ok_iff.mpr ⟨List.append_assoc .., len⟩
  within {part more field rest} h le := by
    obtain ⟨eq, len⟩ := take_eq_ok_iff.mp h
    have total := congrArg List.length eq
    rw [List.length_append, List.length_append] at total
    have front : field = part.take n := by
      have cut := congrArg (List.take n) eq
      rw [List.take_append_of_le_length (by omega), ← len, List.take_left] at cut
      rw [← cut, len]
    exact ⟨part.drop n, take_eq_ok_iff.mpr ⟨front ▸ (List.take_append_drop n part).symm, len⟩⟩
  beyond {part more field rest} h less := by
    obtain ⟨eq, len⟩ := take_eq_ok_iff.mp h
    have total := congrArg List.length eq
    rw [List.length_append, List.length_append] at total
    rw [take]
    refine if_neg ?_
    rw [List.length_take]
    omega

/-- Reading a byte looks at this byte only. -/
lemma isLocal_byte : byte.IsLocal where
  length_le h := by
    rw [byte_eq_ok_iff.mp h]
    exact Nat.le_succ _
  extend h more := by
    rw [byte_eq_ok_iff.mp h]
    rfl
  within {part more b rest} h le := by
    have eq := byte_eq_ok_iff.mp h
    cases part with
    | nil =>
      rw [List.nil_append] at eq
      rw [eq, List.length_cons] at le
      exact absurd le (Nat.not_succ_le_self _)
    | cons b' part =>
      obtain ⟨rfl, -⟩ := List.cons.inj eq
      exact ⟨part, rfl⟩
  beyond {part more b rest} h less := by
    have eq := byte_eq_ok_iff.mp h
    cases part with
    | nil => rfl
    | cons b' part =>
      rw [List.cons_append] at eq
      obtain ⟨-, rfl⟩ := List.cons.inj eq
      rw [List.length_append] at less
      omega

/-- A number that bytes alone do not tell takes more than these. -/
lemma length_lt_of_decode {part more : Bytes} {n : UInt32} {used : Nat}
    (waits : VarInt.decode part = .ok none)
    (read : VarInt.decode (part ++ more) = .ok (some (n, used))) : part.length < used := by
  obtain ⟨pos, -, found, -⟩ := VarInt.decode_eq_some_iff.mp read
  have goes := (VarInt.decodeFrom_eq_none_iff.mp waits).2
  obtain ⟨_, last, -⟩ := List.findIdx?_eq_some_iff_getElem.mp found
  by_contra ge
  have inside : used - 1 < part.length := by omega
  rw [List.getElem_append_left inside, goes _ (List.getElem_mem inside)] at last
  cases last

/-- A number takes no more bytes than there are. -/
lemma used_le_of_decode {input : Bytes} {n : UInt32} {used : Nat}
    (read : VarInt.decode input = .ok (some (n, used))) : used ≤ input.length := by
  obtain ⟨-, -, -, -, le, -⟩ := VarInt.encode_of_decode read
  exact le

/-- A number that bytes alone tell is there whatever follows. -/
lemma decode_append_of_ne_none {part : Bytes} (more : Bytes)
    (told : VarInt.decode part ≠ .ok none) :
    VarInt.decode (part ++ more) = VarInt.decode part :=
  VarInt.decodeFrom_append_of_ne_none told more

/-- Reading a variable byte integer looks at its groups only. -/
lemma isLocal_varInt : varInt.IsLocal where
  length_le h := by
    obtain ⟨used, -, rfl⟩ := varInt_eq_ok_iff.mp h
    rw [List.length_drop]
    exact Nat.sub_le ..
  extend h more := by
    obtain ⟨used, read, rfl⟩ := varInt_eq_ok_iff.mp h
    refine varInt_eq_ok_iff.mpr ⟨used, ?_, ?_⟩
    · rw [decode_append_of_ne_none more (by rw [read]; nofun), read]
    · exact (List.drop_append_of_le_length (used_le_of_decode read)).symm
  within {part more n rest} h le := by
    obtain ⟨used, read, rfl⟩ := varInt_eq_ok_iff.mp h
    by_cases waits : VarInt.decode part = .ok none
    · have lt := length_lt_of_decode waits read
      have most := used_le_of_decode read
      rw [List.length_append] at most
      rw [List.length_drop, List.length_append] at le
      omega
    · rw [decode_append_of_ne_none more waits] at read
      exact ⟨part.drop used, varInt_eq_ok_iff.mpr ⟨used, read, rfl⟩⟩
  beyond {part more n rest} h less := by
    obtain ⟨used, read, rfl⟩ := varInt_eq_ok_iff.mp h
    by_cases waits : VarInt.decode part = .ok none
    · rw [varInt, waits]
      rfl
    · rw [decode_append_of_ne_none more waits] at read
      have most := used_le_of_decode read
      rw [List.length_drop, List.length_append] at less
      omega

/-- Reading a word of 16 bits looks at its two bytes only. -/
lemma isLocal_word16 : word16.IsLocal :=
  (isLocal_take 2).bind fun _ => isLocal_pure _

/-- Reading a word of 32 bits looks at its four bytes only. -/
lemma isLocal_word32 : word32.IsLocal :=
  (isLocal_take 4).bind fun _ => isLocal_pure _

/-- Reading binary data looks at its length and its bytes only. -/
lemma isLocal_binary : binary.IsLocal :=
  isLocal_word16.bind fun n => isLocal_take n.toNat

/-- Reading a text looks at its length and its bytes only. -/
lemma isLocal_text : text.IsLocal := by
  refine isLocal_binary.bind fun data => ?_
  split
  · exact isLocal_pure _
  · exact isLocal_throw _

/-- Items whose first one has a fault have this fault. -/
lemma itemsWithin_of_error {item : Parse α} {tail : Bytes} {e : WireError} (ne : tail ≠ [])
    (cut : item tail = .error e) (fuel : Nat) : itemsWithin item (fuel + 1) tail = .error e := by
  rw [itemsWithin_succ ne, cut]
  rfl

/-- Items behind which another one has a fault have this fault as a whole. -/
lemma IsLocal.itemsWithin_append {item : Parse α} (h : item.IsLocal) {front tail : Bytes}
    {xs : List α} {e : WireError} {fuel : Nat} (read : itemsWithin item fuel front = .ok xs)
    (ne : tail ≠ []) (cut : item tail = .error e) (more : Nat) :
    itemsWithin item (fuel + (more + 1)) (front ++ tail) = .error e := by
  induction fuel generalizing front xs with
  | zero =>
    cases front with
    | nil =>
      rw [Nat.zero_add]
      exact itemsWithin_of_error ne cut more
    | cons b front => cases read
  | succ fuel ih =>
    by_cases none : front = []
    · rw [none]
      exact itemsWithin_of_error ne cut _
    · rw [itemsWithin_succ none] at read
      simp only [WireError.bind_eq_ok_iff, WireError.pure_eq_ok_iff, Prod.exists] at read
      obtain ⟨x, rest, first, ys, others, -⟩ := read
      rw [Nat.add_right_comm, itemsWithin_succ (List.append_ne_nil_of_left_ne_nil none tail),
        h.extend first tail]
      change (itemsWithin item (fuel + (more + 1)) (rest ++ tail) >>= fun ys => pure (x :: ys)) = _
      rw [ih others]
      rfl

end MqttClient.Parse
