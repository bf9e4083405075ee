import MqttClient.Proofs.Stream.Splitting
import MqttClient.Proofs.Wire.Groups
import Mathlib.Tactic.Common

/-!
# What an assembler holds

In every state that an assembler comes to, what it holds is told by the bytes of the packet that has
begun, and by none before them. The sizes that it counts with stay far below the end of their words,
so the loop over a piece can be repeated with exact arithmetic: it comes to the same end, and takes
a byte at least at each of its turns. A packet that arrives has a body of its own bytes only.
-/

namespace MqttClient

/-- A packet as it stands in a stream: first byte, size and body. -/
structure Frame where
  header : UInt8
  field : Bytes
  body : Bytes
  spells : VarInt.Spells field body.length

namespace Frame

/-- The bytes of a packet in the stream. -/
def bytes (f : Frame) : Bytes :=
  f.header :: (f.field ++ f.body)

/-- What arrives with a packet. -/
def arrival (version : Version) (f : Frame) : Arrival :=
  .ofBody f.header f.body version

end Frame

namespace Assembler

/-- Whether the sizes and the body that are held fit the stage. -/
def Sound (a : Assembler) : Prop :=
  match a.stage with
  | .idle | .failed _ => a.body = #[]
  | .sizing _ value weight count =>
    count ≤ 3 ∧ weight.toNat = 128 ^ count ∧ value.toNat < 128 ^ count ∧ a.body = #[]
  | .filling _ size =>
    1 ≤ size ∧ size ≤ min a.maxSize.toNat VarInt.maxValue.toNat ∧ a.body.size < size

/-- Whether what is held comes from the bytes `begun` of a packet that has begun. Nothing is held of
what is lost. -/
def Holds (a : Assembler) (begun : Bytes) : Prop :=
  match a.stage with
  | .idle => begun = []
  | .sizing header value _ count =>
    ∃ groups, begun = header :: groups ∧ groups.length = count ∧
      (∀ b ∈ groups, VarInt.isLast b = false) ∧ VarInt.total groups = value.toNat
  | .filling header size =>
    ∃ field, begun = header :: (field ++ a.body.toList) ∧ VarInt.Spells field size
  | .failed _ => True

/-- A turn of the loop over a piece, with exact arithmetic only. -/
def turn? : Assembler → UInt8 → Bytes → Option (Assembler × Option Arrival × Bytes)
  | ⟨version, maxSize, .idle, body⟩, b, rest =>
    some (⟨version, maxSize, .sizing b 0 1 0, body⟩, none, rest)
  | ⟨version, maxSize, .sizing header value weight count, body⟩, b, rest => do
    let value ← VarInt.addGroup? value weight b
    let count := count + 1
    if b &&& 0x80 ≠ 0 then
      if count = VarInt.maxSize then
        some (⟨version, maxSize, .failed .malformedLength, #[]⟩, none, rest)
      else
        let weight ← Exact.product? weight 128
        some (⟨version, maxSize, .sizing header value weight count, body⟩, none, rest)
    else if maxSize < value then
      some (⟨version, maxSize, .failed (.tooLarge value), #[]⟩, none, rest)
    else if value = 0 then
      some (⟨version, maxSize, .idle, body⟩, some (.ofBody header body.toList version), rest)
    else some (⟨version, maxSize, .filling header value.toNat, #[]⟩, none, rest)
  | ⟨version, maxSize, .filling header size, body⟩, b, rest => do
    let wanted ← Exact.difference? size body.size
    let taken := min wanted (b :: rest).length
    let body := body ++ (b :: rest).take taken
    let left := (b :: rest).drop taken
    if body.size = size then
      some (⟨version, maxSize, .idle, #[]⟩, some (.ofBody header body.toList version), left)
    else some (⟨version, maxSize, .filling header size, body⟩, none, left)
  | ⟨version, maxSize, .failed e, body⟩, _, _ =>
    some (⟨version, maxSize, .failed e, body⟩, none, [])

/-- Whether the loop over a piece comes to an end with the given arrivals, where every turn has
exact arithmetic and takes a byte at least. -/
inductive Completes : Assembler → Bytes → Assembler → List Arrival → Prop where
  | done {a} :
    Completes a [] a []
  | turn {a b rest a' arrival left a'' arrivals} :
    a.turn? b rest = some (a', arrival, left) →
    left.length < (b :: rest).length →
    Completes a' left a'' arrivals →
    Completes a (b :: rest) a'' (arrival.toList ++ arrivals)

/-- The states that an assembler comes to, with the bytes it was given since it was new or reset. -/
inductive Reached : Assembler → Bytes → Prop where
  | new (version) :
    Reached { version } []
  | limited (version maxSize) :
    Reached (limited version maxSize) []
  | feed {a heard} (piece) :
    Reached a heard →
    Reached (a.feed piece).1 (heard ++ piece)
  | feedWith {a heard} (piece) :
    Reached a heard →
    Reached (a.feedWith piece).1 (heard ++ piece)
  | reset {a heard} :
    Reached a heard →
    Reached a.reset []
  | setVersion {a heard} (version) :
    Reached a heard →
    Reached { a with version } heard

variable {a a' : Assembler} {begun piece : Bytes} {arrivals : List Arrival}

/-- The part of a body that stands in a piece, and what is behind it. -/
lemma take_drop_min {wanted : Nat} (pos : 0 < wanted) (b : UInt8) (rest : Bytes) :
    (b :: rest).take (min wanted (b :: rest).length) = b :: rest.take (wanted - 1) ∧
      (b :: rest).drop (min wanted (b :: rest).length) = rest.drop (wanted - 1) := by
  obtain ⟨more, rfl⟩ : ∃ more, wanted = more + 1 := ⟨wanted - 1, by omega⟩
  rw [← List.take_eq_take_min, List.length_cons, Nat.add_min_add_right, List.drop_succ_cons]
  refine ⟨rfl, ?_⟩
  rcases Nat.le_total more rest.length with le | ge
  · rw [Nat.min_eq_left le]
    rfl
  · rw [Nat.min_eq_right ge, List.drop_length]
    exact (List.drop_of_length_le ge).symm

/-- In a sound state a turn has exact arithmetic only. -/
lemma turn?_eq (h : a.Sound) (b : UInt8) (rest : Bytes) :
    a.turn? b rest = some (a.advance b rest) := by
  obtain ⟨version, maxSize, stage, body⟩ := a
  cases stage with
  | idle => rfl
  | sizing header value weight count =>
    obtain ⟨le, hweight, hvalue, -⟩ := h
    have sums : VarInt.Sums count value weight := ⟨hweight, hvalue⟩
    have lt : count < VarInt.maxSize := Nat.lt_succ_of_le le
    simp only [turn?, advance, sums.addGroup? lt, sums.product? lt, Option.bind_eq_bind,
      Option.bind_some]
    split_ifs <;> rfl
  | filling header size =>
    obtain ⟨-, -, lt⟩ := h
    obtain ⟨taken, left⟩ := take_drop_min (Nat.sub_pos_of_lt lt) b rest
    simp only [turn?, advance, Exact.difference?, if_pos (Nat.le_of_lt lt), Option.bind_eq_bind,
      Option.bind_some, taken, left]
    split_ifs <;> rfl
  | failed e => rfl

/-- A turn does not change the version. -/
lemma version_advance (a : Assembler) (b : UInt8) (rest : Bytes) :
    (a.advance b rest).1.version = a.version := by
  obtain ⟨version, maxSize, stage, body⟩ := a
  cases stage <;> simp only [advance] <;> split_ifs <;> rfl

/-- A turn leads from a sound state to a sound one. -/
lemma sound_advance (h : a.Sound) (b : UInt8) (rest : Bytes) : (a.advance b rest).1.Sound := by
  obtain ⟨version, maxSize, stage, body⟩ := a
  cases stage with
  | idle => exact ⟨Nat.zero_le 3, rfl, Nat.zero_lt_one, h⟩
  | sizing header value weight count =>
    obtain ⟨le, hweight, hvalue, rfl⟩ := h
    have lt : count < VarInt.maxSize := Nat.lt_succ_of_le le
    have sums := VarInt.Sums.next ⟨hweight, hvalue⟩ lt b
    simp only [advance]
    split_ifs with more last large zero
    · rfl
    · -- the fifth group is never waited for
      refine ⟨?_, sums.weight, sums.value, rfl⟩
      rw [VarInt.maxSize] at lt last
      omega
    · rfl
    · rfl
    · -- a size within the limit that is not zero
      have pos := Nat.pos_of_ne_zero fun none => zero (UInt32.toNat_inj.mp none)
      have within := UInt32.le_iff_toNat_le.mp (UInt32.not_lt.mp large)
      have below := Nat.lt_of_lt_of_le sums.value (VarInt.Sums.pow_le lt)
      exact ⟨pos, Nat.le_min.mpr ⟨within, Nat.le_of_lt_succ below⟩, pos⟩
  | filling header size =>
    obtain ⟨pos, le, lt⟩ := h
    simp only [advance]
    split_ifs with full
    · rfl
    · refine ⟨pos, le, Nat.lt_of_le_of_ne ?_ full⟩
      change (body ++ (b :: rest.take (size - body.size - 1))).size ≤ size
      have lt : body.size < size := lt
      rw [size_append, List.length_cons, List.length_take]
      omega
  | failed e => exact h

/-- Every turn turns the bytes that have begun and the ones it takes into packets that arrive and
bytes that have begun. -/
lemma holds_advance (h : a.Sound) (held : a.Holds begun) (b : UInt8) (rest : Bytes) :
    ∃ (frames : List Frame) (begun' : Bytes),
      begun ++ b :: rest = frames.flatMap Frame.bytes ++ (begun' ++ (a.advance b rest).2.2) ∧
      (a.advance b rest).2.1.toList = frames.map (Frame.arrival a.version) ∧
      (a.advance b rest).1.Holds begun' := by
  obtain ⟨version, maxSize, stage, body⟩ := a
  cases stage with
  | idle =>
    obtain rfl : begun = [] := held
    exact ⟨[], [b], rfl, rfl, [], rfl, rfl, nofun, rfl⟩
  | sizing header value weight count =>
    obtain ⟨le, hweight, hvalue, rfl⟩ := h
    obtain ⟨groups, rfl, rfl, goes, sum⟩ := held
    have lt : groups.length < VarInt.maxSize := Nat.lt_succ_of_le le
    have sums : VarInt.Sums groups.length value weight := ⟨hweight, hvalue⟩
    -- the groups up to this one
    have sum' := VarInt.total_concat groups b
    rw [sum, ← sums.toNat_add lt] at sum'
    have taken : header :: groups ++ b :: rest = header :: (groups ++ [b]) ++ rest := by simp
    rw [taken]
    simp only [advance]
    split_ifs with more last large zero
    · exact ⟨[], header :: (groups ++ [b]), rfl, rfl, trivial⟩
    · refine ⟨[], header :: (groups ++ [b]), rfl, rfl, groups ++ [b], rfl, List.length_append, ?_,
        sum'⟩
      rw [List.forall_mem_append, List.forall_mem_singleton]
      exact ⟨goes, VarInt.isLast_eq_false_iff.mpr more⟩
    · exact ⟨[], header :: (groups ++ [b]), rfl, rfl, trivial⟩
    all_goals
      have spells := VarInt.spells_concat goes (decide_eq_true (not_not.mp more))
      rw [sum'] at spells
    · rw [zero] at spells
      refine ⟨[⟨header, groups ++ [b], [], spells⟩], [], ?_, rfl, rfl⟩
      rw [List.flatMap_singleton, Frame.bytes, List.append_nil]
      rfl
    · refine ⟨[], header :: (groups ++ [b]), rfl, rfl, groups ++ [b], ?_, spells⟩
      exact congrArg (header :: ·) (List.append_nil _).symm
  | filling header size =>
    obtain ⟨pos, -, lt⟩ := h
    obtain ⟨field, rfl, spells⟩ := held
    let part := b :: rest.take (size - body.size - 1)
    let left := rest.drop (size - body.size - 1)
    have cut : b :: rest = part ++ left := congrArg (b :: ·) (List.take_append_drop ..).symm
    have grown : header :: (field ++ body.toList) ++ (part ++ left) =
        header :: (field ++ (body ++ part).toList) ++ left := by
      rw [Array.toList_appendList]
      simp
    rw [cut, grown]
    simp only [advance]
    split_ifs with full
    · have len : (body ++ part).toList.length = size := full
      refine ⟨[⟨header, field, (body ++ part).toList, len ▸ spells⟩], [], ?_, rfl, rfl⟩
      rw [List.flatMap_singleton]
      rfl
    · exact ⟨[], _, rfl, rfl, field, rfl, spells⟩
  | failed e => exact ⟨[], _, (List.append_nil _).symm, rfl, trivial⟩

/-- From a sound state the loop over a piece comes to its end. -/
lemma completes_take (h : a.Sound) (piece : Bytes) :
    Completes a piece (a.take piece).1 (a.take piece).2 := by
  induction a, piece using turns_induction with
  | nil a =>
    rw [take_nil]
    exact .done
  | cons a b rest ih =>
    have shorter := Nat.lt_succ_of_le (length_advance_le a b rest)
    rw [take_cons]
    exact .turn (turn?_eq h b rest) shorter (ih (sound_advance h b rest))

/-- The whole loop leads from a sound state to a sound one. -/
lemma Completes.sound (c : Completes a piece a' arrivals) (h : a.Sound) : a'.Sound := by
  induction c with
  | done => exact h
  | @turn a b rest _ _ _ _ _ turned _ _ ih =>
    have taken := Option.some.inj ((turn?_eq h b rest).symm.trans turned)
    have sound := sound_advance h b rest
    rw [taken] at sound
    exact ih sound

/-- The bytes that have begun and those of a piece are packets that arrive and bytes that have
begun. -/
lemma Completes.holds (c : Completes a piece a' arrivals) (h : a.Sound) (held : a.Holds begun) :
    ∃ (frames : List Frame) (begun' : Bytes),
      begun ++ piece = frames.flatMap Frame.bytes ++ begun' ∧
      arrivals = frames.map (Frame.arrival a.version) ∧ a'.Holds begun' := by
  induction c generalizing begun with
  | done => exact ⟨[], begun, List.append_nil _, rfl, held⟩
  | @turn a b rest _ _ _ _ _ turned _ _ ih =>
    have taken := Option.some.inj ((turn?_eq h b rest).symm.trans turned)
    have sound := sound_advance h b rest
    have same := version_advance a b rest
    obtain ⟨frames, begun₁, cut, arrival, held₁⟩ := holds_advance h held b rest
    rw [taken] at sound same cut arrival held₁
    obtain ⟨frames', begun₂, cut', arrivals, held₂⟩ := ih sound held₁
    rw [same] at arrivals
    refine ⟨frames ++ frames', begun₂, ?_, ?_, held₂⟩
    · rw [cut, cut', List.flatMap_append, List.append_assoc]
    · rw [arrival, arrivals, List.map_append]

/-- Feeding leaves what taking leaves. -/
lemma feed_fst (a : Assembler) (piece : Bytes) : (a.feed piece).1 = (a.take piece).1 := by
  rw [feed, feedWith_eq]
  cases (a.take piece).1.ending <;> rfl

/-- Every state that an assembler comes to is sound. -/
lemma Reached.sound {heard : Bytes} (h : Reached a heard) : a.Sound := by
  induction h with
  | new version => rfl
  | limited version maxSize => rfl
  | feed piece _ ih =>
    rw [feed_fst]
    exact (completes_take ih piece).sound ih
  | feedWith piece _ ih =>
    rw [feedWith_eq]
    exact (completes_take ih piece).sound ih
  | reset _ _ => rfl
  | setVersion version _ ih => exact ih

/-- What is held comes from the last bytes that the assembler was given. -/
lemma Reached.holds {heard : Bytes} (h : Reached a heard) :
    ∃ begun, begun <:+ heard ∧ a.Holds begun := by
  have taken {a : Assembler} {heard : Bytes} (h : Reached a heard)
      (ih : ∃ begun, begun <:+ heard ∧ a.Holds begun) (piece : Bytes) :
      ∃ begun, begun <:+ heard ++ piece ∧ (a.take piece).1.Holds begun := by
    obtain ⟨begun, ⟨before, rfl⟩, held⟩ := ih
    obtain ⟨frames, begun', cut, -, held'⟩ := (completes_take h.sound piece).holds h.sound held
    refine ⟨begun', ⟨before ++ frames.flatMap Frame.bytes, ?_⟩, held'⟩
    rw [List.append_assoc, List.append_assoc, cut]
  induction h with
  | new version => exact ⟨[], List.suffix_refl [], rfl⟩
  | limited version maxSize => exact ⟨[], List.suffix_refl [], rfl⟩
  | feed piece h ih =>
    rw [feed_fst]
    exact taken h ih piece
  | feedWith piece h ih =>
    rw [feedWith_eq]
    exact taken h ih piece
  | reset _ _ => exact ⟨[], List.suffix_refl [], rfl⟩
  | setVersion version _ ih => exact ih

/-- In every state that an assembler comes to, what it holds fits the stage, and the loop over any
piece comes to its end with exact arithmetic, each turn taking a byte at least. What is held comes
from the last bytes that were given, those of a packet that has begun; with the bytes of a piece
they are the packets that arrive, each with its own body, and again bytes of a packet that has
begun. -/
theorem sound_of_reached {heard : Bytes} (h : Reached a heard) :
    a.Sound ∧
      (∀ piece, Completes a piece (a.feedWith piece).1 (a.feedWith piece).2.1) ∧
      ∃ begun, begun <:+ heard ∧ a.Holds begun ∧
        ∀ piece, ∃ (frames : List Frame) (begun' : Bytes),
          begun ++ piece = frames.flatMap Frame.bytes ++ begun' ∧
          (a.feedWith piece).2.1 = frames.map (Frame.arrival a.version) ∧
          (a.feedWith piece).1.Holds begun' := by
  have completes (piece : Bytes) :
      Completes a piece (a.feedWith piece).1 (a.feedWith piece).2.1 := by
    rw [feedWith_eq]
    exact completes_take h.sound piece
  obtain ⟨begun, last, held⟩ := h.holds
  exact ⟨h.sound, completes, begun, last, held, fun piece => (completes piece).holds h.sound held⟩

/-- A packet and the beginning of one of 130 bytes. -/
theorem sound_of_reached_filling :
    let a := ((limited .v5 300).feed [0xC0, 0x00, 0x30, 0x82, 0x01, 0xAA]).1
    a.stage = .filling 0x30 130 ∧ a.Sound ∧
      Completes a [0xBB] (a.feedWith [0xBB]).1 (a.feedWith [0xBB]).2.1 := by
  intro a
  have reached : Reached a _ := .feed [0xC0, 0x00, 0x30, 0x82, 0x01, 0xAA] (.limited .v5 300)
  obtain ⟨sound, completes, -⟩ := sound_of_reached reached
  exact ⟨by decide +kernel, sound, completes [0xBB]⟩

end Assembler
end MqttClient
