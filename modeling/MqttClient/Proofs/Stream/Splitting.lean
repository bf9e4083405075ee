import MqttClient.Proofs.Wire.VarInt
import MqttClient.Stream.Assembler
import Mathlib.Tactic.Common

/-!
# Splitting a stream

A byte stream that is there as a whole splits into packets at the sizes that it spells. An assembler
that gets the stream in pieces tells the same arrivals, holds the beginning of a packet exactly if
the stream ends inside of one, and fails exactly if splitting cannot go on, wherever the stream was
cut. For what it holds is all that splitting the rest of the stream has to know of the beginning.
-/

namespace MqttClient.Assembler

/-- Where the splitting of a stream ends. -/
inductive Ending where
  /-- Behind a packet. -/
  | between
  /-- Inside of a packet. -/
  | inside
  /-- At a packet whose end cannot be found. -/
  | lost (e : FramingError)
  deriving DecidableEq, Repr

namespace Ending

/-- Why splitting cannot go on, if it cannot. -/
def failure? : Ending → Option FramingError
  | between | inside => none
  | lost e => some e

/-- What is returned for a stream with the ending. -/
def result : Ending → Except FramingError Unit
  | between | inside => .ok ()
  | lost e => .error e

end Ending

/-- The arrivals of a whole stream, where bodies have at most the size `limit`, and its ending. -/
def split (version : Version) (limit : UInt32) : Bytes → List Arrival × Ending
  | [] => ([], .between)
  | header :: rest =>
    match VarInt.decode rest with
    | .error _ => ([], .lost .malformedLength)
    | .ok none => ([], .inside)
    | .ok (some (size, used)) =>
      let behind := rest.drop used
      if limit < size then ([], .lost (.tooLarge size))
      else if behind.length < size.toNat then ([], .inside)
      else
        match split version limit (behind.drop size.toNat) with
        | (arrivals, ending) =>
          (.ofBody header (behind.take size.toNat) version :: arrivals, ending)
termination_by stream => stream.length

/-- Splitting from the middle of a body on. -/
def splitBody (version : Version) (limit : UInt32) (header : UInt8) (body : Bytes) (missing : Nat)
    (rest : Bytes) : List Arrival × Ending :=
  if rest.length < missing then ([], .inside)
  else
    match split version limit (rest.drop missing) with
    | (arrivals, ending) => (.ofBody header (body ++ rest.take missing) version :: arrivals, ending)

/-- Splitting from the stage of an assembler on. -/
def resume (a : Assembler) (rest : Bytes) : List Arrival × Ending :=
  match a.stage with
  | .idle => split a.version a.maxSize rest
  | .sizing header value weight count =>
    match VarInt.decodeFrom (VarInt.maxSize - count) value weight rest with
    | .error _ => ([], .lost .malformedLength)
    | .ok none => ([], .inside)
    | .ok (some (size, used)) =>
      if a.maxSize < size then ([], .lost (.tooLarge size))
      else splitBody a.version a.maxSize header [] size.toNat (rest.drop (used - count))
  | .filling header size =>
    splitBody a.version a.maxSize header a.body.toList (size - a.body.size) rest
  | .failed e => ([], .lost e)

/-- Whether the stage and the body that are held fit together. -/
def Consistent (a : Assembler) : Prop :=
  match a.stage with
  | .idle => a.body = #[]
  | .sizing _ _ _ count => count < VarInt.maxSize ∧ a.body = #[]
  | .filling _ size => a.body.size < size
  | .failed _ => True

variable {version : Version} {limit : UInt32} {header : UInt8} {a : Assembler}

/-- A packet begins with the size of its body. -/
lemma split_cons (header : UInt8) (rest : Bytes) :
    split version limit (header :: rest) =
      resume ⟨version, limit, .sizing header 0 1 0, #[]⟩ rest := by
  rw [split]
  rfl

/-- A part of a body may be taken first. -/
lemma splitBody_append {body part more : Bytes} {missing : Nat} (le : part.length ≤ missing) :
    splitBody version limit header body missing (part ++ more) =
      splitBody version limit header (body ++ part) (missing - part.length) more := by
  have fewer : (part ++ more).length < missing ↔ more.length < missing - part.length := by
    rw [List.length_append]
    omega
  unfold splitBody
  simp only [fewer]
  rw [List.drop_append, List.drop_of_length_le le, List.nil_append, List.take_append,
    List.take_of_length_le le, List.append_assoc]

/-- A body that is complete arrives. -/
lemma splitBody_zero (body rest : Bytes) :
    splitBody version limit header body 0 rest =
      (.ofBody header body version :: (split version limit rest).1,
        (split version limit rest).2) := by
  unfold splitBody
  rw [if_neg (Nat.not_lt_zero _), List.drop_zero, List.take_zero, List.append_nil]

/-- The place behind a size lies behind what was read of it. -/
lemma lt_used_of_decodeFrom {room : Nat} {value weight size : UInt32} {rest : Bytes} {used : Nat}
    (le : room ≤ VarInt.maxSize)
    (h : VarInt.decodeFrom room value weight rest = .ok (some (size, used))) :
    VarInt.maxSize - room < used := by
  obtain ⟨groups, _, _, -, sp, -, rfl, -⟩ := VarInt.spells_of_decodeFrom le h
  exact Nat.lt_add_of_pos_right sp.length_pos

section
variable {value weight : UInt32} {count : Nat} {body : Array UInt8} {b : UInt8}

/-- The last byte of a size. -/
lemma resume_sizing_low (lt : count < VarInt.maxSize) (low : b &&& 0x80 = 0) (rest : Bytes) :
    resume ⟨version, limit, .sizing header value weight count, body⟩ (b :: rest) =
      if limit < value + (b &&& 0x7F).toUInt32 * weight then
        ([], .lost (.tooLarge (value + (b &&& 0x7F).toUInt32 * weight)))
      else
        splitBody version limit header [] (value + (b &&& 0x7F).toUInt32 * weight).toNat rest := by
  obtain ⟨room, left⟩ : ∃ room, VarInt.maxSize - count = room + 1 :=
    ⟨VarInt.maxSize - count - 1, by omega⟩
  have one : VarInt.maxSize - room - count = 1 := by omega
  simp only [resume, left, VarInt.decodeFrom, low, if_true, one, List.drop_succ_cons,
    List.drop_zero]

/-- A byte of a size behind which another one follows. -/
lemma resume_sizing_high (lt : count < VarInt.maxSize) (high : b &&& 0x80 ≠ 0) (rest : Bytes) :
    resume ⟨version, limit, .sizing header value weight count, body⟩ (b :: rest) =
      if count + 1 = VarInt.maxSize then ([], .lost .malformedLength)
      else resume ⟨version, limit, .sizing header (value + (b &&& 0x7F).toUInt32 * weight)
        (weight * 128) (count + 1), body⟩ rest := by
  obtain ⟨room, left⟩ : ∃ room, VarInt.maxSize - count = room + 1 :=
    ⟨VarInt.maxSize - count - 1, by omega⟩
  have next : VarInt.maxSize - (count + 1) = room := by omega
  simp only [resume, left, next, VarInt.decodeFrom, high, if_false]
  by_cases last : count + 1 = VarInt.maxSize
  · obtain rfl : room = 0 := by omega
    rw [if_pos last]
    rfl
  · rw [if_neg last]
    cases read : VarInt.decodeFrom room (value + (b &&& 0x7F).toUInt32 * weight) (weight * 128)
      rest with
    | error e => rfl
    | ok found =>
      cases found with
      | none => rfl
      | some found =>
        have behind := lt_used_of_decodeFrom (by omega) read
        have used : found.2 - count = found.2 - (count + 1) + 1 := by omega
        simp only [used, List.drop_succ_cons]

end

/-- A part that is appended adds its length. -/
lemma size_append (body : Array UInt8) (part : Bytes) :
    (body ++ part).size = body.size + part.length := by
  rw [← Array.length_toList, Array.toList_appendList, List.length_append, Array.length_toList]

/-- What is held after a piece was begun, and what arrived with it, is what splitting has to
know. -/
lemma resume_advance (h : a.Consistent) (b : UInt8) (rest : Bytes) :
    (a.advance b rest).1.Consistent ∧ ∀ more,
      a.resume (b :: rest ++ more) =
        ((a.advance b rest).2.1.toList ++
            ((a.advance b rest).1.resume ((a.advance b rest).2.2 ++ more)).1,
          ((a.advance b rest).1.resume ((a.advance b rest).2.2 ++ more)).2) := by
  obtain ⟨version, limit, stage, body⟩ := a
  cases stage with
  | idle =>
    obtain rfl : body = #[] := h
    exact ⟨⟨by decide, rfl⟩, fun more => split_cons b (rest ++ more)⟩
  | sizing header value weight count =>
    obtain ⟨lt, rfl⟩ : count < VarInt.maxSize ∧ body = #[] := h
    simp only [advance, List.cons_append]
    by_cases low : b &&& 0x80 = 0
    · simp only [resume_sizing_low lt low, low, ne_eq, not_true, if_false]
      split
      · exact ⟨trivial, fun more => rfl⟩
      split
      · rename_i zero
        refine ⟨rfl, fun more => ?_⟩
        rw [zero]
        exact splitBody_zero [] (rest ++ more)
      · rename_i nonzero
        refine ⟨?_, fun more => rfl⟩
        exact Nat.pos_of_ne_zero fun zero => nonzero (UInt32.toNat_inj.mp zero)
    · simp only [resume_sizing_high lt low, low, ne_eq, not_false_eq_true, if_true]
      split
      · exact ⟨trivial, fun more => rfl⟩
      · exact ⟨⟨by omega, rfl⟩, fun more => rfl⟩
  | filling header size =>
    have lt : body.size < size := h
    -- the part of the body that the piece begins with, and what is behind it
    let part := b :: rest.take (size - body.size - 1)
    let left := rest.drop (size - body.size - 1)
    have le : part.length ≤ size - body.size := by
      simp only [part, List.length_cons, List.length_take]
      omega
    have cut : part ++ left = b :: rest :=
      congrArg (b :: ·) (List.take_append_drop ..)
    have whole (more : Bytes) :
        resume ⟨version, limit, .filling header size, body⟩ (b :: rest ++ more) =
          splitBody version limit header (body ++ part).toList (size - (body ++ part).size)
            (left ++ more) := by
      rw [← cut, List.append_assoc, size_append, Array.toList_appendList, ← Nat.sub_sub]
      exact splitBody_append le
    simp only [whole, advance]
    split
    · rename_i full
      refine ⟨rfl, fun more => ?_⟩
      rw [show (body ++ part).size = size from full, Nat.sub_self, splitBody_zero]
      rfl
    · rename_i short
      have ne : (body ++ part).size ≠ size := short
      refine ⟨?_, fun more => rfl⟩
      change (body ++ part).size < size
      rw [size_append] at ne ⊢
      omega
  | failed e => exact ⟨trivial, fun more => rfl⟩

/-- Induction along the turns of the loop over a piece. Each takes one byte at least. -/
lemma turns_induction {motive : Assembler → Bytes → Prop} (nil : ∀ a, motive a [])
    (cons : ∀ a b rest, motive (a.advance b rest).1 (a.advance b rest).2.2 → motive a (b :: rest))
    (a : Assembler) (piece : Bytes) : motive a piece := by
  induction piece using (measure List.length).wf.induction generalizing a with
  | _ piece ih =>
    cases piece with
    | nil => exact nil a
    | cons b rest =>
      have shorter := Nat.lt_succ_of_le (length_advance_le a b rest)
      exact cons a b rest (ih _ shorter _)

/-- The loop goes on behind a turn with what the turn left. -/
lemma takeOnto_cons (a : Assembler) (arrivals : List Arrival) (b : UInt8) (rest : Bytes) :
    a.takeOnto arrivals (b :: rest) =
      (a.advance b rest).1.takeOnto ((a.advance b rest).2.1.toList ++ arrivals)
        (a.advance b rest).2.2 := by
  rw [takeOnto]

/-- What arrived before is passed on. -/
lemma takeOnto_append (a : Assembler) (arrivals : List Arrival) (piece : Bytes) :
    a.takeOnto arrivals piece =
      ((a.takeOnto [] piece).1, (a.takeOnto [] piece).2 ++ arrivals) := by
  induction a, piece using turns_induction generalizing arrivals with
  | nil a =>
    rw [takeOnto, takeOnto]
    rfl
  | cons a b rest ih =>
    rw [takeOnto_cons, takeOnto_cons, ih, List.append_nil, ih (a.advance b rest).2.1.toList,
      List.append_assoc]

/-- Nothing arrives with an empty piece. -/
lemma take_nil (a : Assembler) : a.take [] = (a, []) := by
  rw [take, takeOnto]
  rfl

/-- A piece is taken in turns. -/
lemma take_cons (a : Assembler) (b : UInt8) (rest : Bytes) :
    a.take (b :: rest) =
      (((a.advance b rest).1.take (a.advance b rest).2.2).1,
        (a.advance b rest).2.1.toList ++ ((a.advance b rest).1.take (a.advance b rest).2.2).2) := by
  simp only [take, takeOnto_cons, List.append_nil]
  rw [takeOnto_append, List.reverse_append]
  cases (a.advance b rest).2.1 <;> rfl

/-- A piece is split off the front of a stream. -/
lemma resume_take (h : a.Consistent) (piece : Bytes) :
    (a.take piece).1.Consistent ∧ ∀ more,
      a.resume (piece ++ more) =
        ((a.take piece).2 ++ ((a.take piece).1.resume more).1,
          ((a.take piece).1.resume more).2) := by
  induction a, piece using turns_induction with
  | nil a =>
    rw [take_nil]
    exact ⟨h, fun more => rfl⟩
  | cons a b rest ih =>
    obtain ⟨consistent, first⟩ := resume_advance h b rest
    obtain ⟨consistent', later⟩ := ih consistent
    rw [take_cons]
    refine ⟨consistent', fun more => ?_⟩
    rw [first, later, List.append_assoc]

/-- The ending of the stream so far. -/
def ending (a : Assembler) : Ending :=
  match a.stage with
  | .idle => .between
  | .sizing .. | .filling .. => .inside
  | .failed e => .lost e

/-- An assembler has failed exactly if its stream cannot be split on. -/
lemma failure?_ending (a : Assembler) : a.ending.failure? = a.failure? := by
  obtain ⟨version, limit, stage, body⟩ := a
  cases stage <;> rfl

/-- An assembler holds the beginning of a packet exactly if the stream ends inside of one. -/
lemma isMidPacket_iff (a : Assembler) : a.isMidPacket = true ↔ a.ending = .inside := by
  obtain ⟨version, limit, stage, body⟩ := a
  cases stage <;> simp [isMidPacket, ending]

/-- Without more input splitting ends where the assembler is. -/
lemma resume_nil (h : a.Consistent) : a.resume [] = ([], a.ending) := by
  obtain ⟨version, limit, stage, body⟩ := a
  cases stage with
  | idle => rw [resume, split]; rfl
  | sizing header value weight count =>
    have lt : count < VarInt.maxSize := h.1
    obtain ⟨room, left⟩ : ∃ room, VarInt.maxSize - count = room + 1 :=
      ⟨VarInt.maxSize - count - 1, by omega⟩
    simp only [resume, left, VarInt.decodeFrom]
    rfl
  | filling header size => exact if_pos (Nat.sub_pos_of_lt h)
  | failed e => rfl

/-- Feeding takes the piece and tells the failure, if there is one. -/
lemma feedWith_eq (a : Assembler) (piece : Bytes) :
    a.feedWith piece = ((a.take piece).1, (a.take piece).2, (a.take piece).1.ending.result) := by
  rw [feedWith]
  generalize a.take piece = taken
  obtain ⟨⟨version, limit, stage, body⟩, arrivals⟩ := taken
  cases stage <;> rfl

/-- Takes one piece after the other, and tells of each what is told of it. -/
def feedAll (a : Assembler) :
    List Bytes → Assembler × List (List Arrival × Except FramingError Unit)
  | [] => (a, [])
  | piece :: pieces =>
    let (a, arrivals, result) := a.feedWith piece
    let (a, outcomes) := a.feedAll pieces
    (a, (arrivals, result) :: outcomes)

/-- Pieces are split off the front of a stream. -/
lemma resume_feedAll (h : a.Consistent) (pieces : List Bytes) :
    (a.feedAll pieces).1.Consistent ∧ ∀ more,
      a.resume (pieces.flatten ++ more) =
        (((a.feedAll pieces).2.map Prod.fst).flatten ++ ((a.feedAll pieces).1.resume more).1,
          ((a.feedAll pieces).1.resume more).2) := by
  induction pieces generalizing a with
  | nil => exact ⟨h, fun more => rfl⟩
  | cons piece pieces ih =>
    obtain ⟨consistent, first⟩ := resume_take h piece
    obtain ⟨consistent', later⟩ := ih consistent
    rw [feedAll, feedWith_eq]
    refine ⟨consistent', fun more => ?_⟩
    rw [List.flatten_cons, List.append_assoc, first, later]
    simp only [List.map_cons, List.flatten_cons, List.append_assoc]

/-- A failed assembler takes nothing. -/
lemma feedWith_of_failure? {e : FramingError} (failed : a.failure? = some e) (piece : Bytes) :
    a.feedWith piece = (a, [], .error e) := by
  obtain ⟨version, limit, stage, body⟩ := a
  cases stage with
  | failed e' =>
    cases failed
    have stays : takeOnto ⟨version, limit, .failed e, body⟩ [] piece =
        (⟨version, limit, .failed e, body⟩, []) := by
      cases piece with
      | nil => rw [takeOnto]
      | cons b rest => rw [takeOnto]; exact takeOnto.eq_1 ..
    rw [feedWith, take, stays]
    rfl
  | _ => cases failed

/-- A new assembler, or one that was reset, does with a stream in pieces what splitting does with
the whole of it: it tells the same arrivals, it fails with the same error, and it holds the
beginning of a packet exactly if the stream ends inside of one. What is returned for a piece says
whether the stream up to the end of the piece can be split. Once an assembler has failed, nothing
arrives any more, and the error is returned for every piece. -/
theorem feedAll_eq_split {version : Version} {maxSize : UInt32} {a : Assembler}
    (start : a = limited version maxSize ∨ ∃ used : Assembler, a = used.reset ∧
      used.version = version ∧ used.maxSize = min maxSize VarInt.maxValue)
    (pieces : List Bytes) :
    let whole := split version (min maxSize VarInt.maxValue)
    let after := (a.feedAll pieces).1
    ((a.feedAll pieces).2.map Prod.fst).flatten = (whole pieces.flatten).1 ∧
      after.failure? = (whole pieces.flatten).2.failure? ∧
      (after.isMidPacket = true ↔ (whole pieces.flatten).2 = .inside) ∧
      (∀ piece, (after.feedWith piece).2.2 = (whole (pieces.flatten ++ piece)).2.result) ∧
      ∀ e, after.failure? = some e → ∀ piece, after.feedWith piece = (after, [], .error e) := by
  intro whole after
  -- at the beginning there is nothing to know of the stream before
  have begun : a.Consistent ∧ ∀ stream, a.resume stream = whole stream := by
    obtain rfl | ⟨used, rfl, rfl, limit⟩ := start
    · exact ⟨rfl, fun stream => rfl⟩
    · refine ⟨rfl, fun stream => ?_⟩
      change split used.version used.maxSize stream = _
      rw [limit]
  obtain ⟨consistent, split⟩ := begun
  obtain ⟨consistent', later⟩ := resume_feedAll consistent pieces
  have all := later []
  rw [List.append_nil, split, resume_nil consistent', List.append_nil] at all
  refine ⟨?_, ?_, ?_, fun piece => ?_, fun e failed piece => feedWith_of_failure? failed piece⟩
  · rw [all]
  · rw [all, failure?_ending]
  · rw [all, isMidPacket_iff]
  · obtain ⟨consistent'', last⟩ := resume_take consistent' piece
    have all' := later piece
    have last' := last []
    rw [List.append_nil, resume_nil consistent'', List.append_nil] at last'
    rw [split, last'] at all'
    rw [feedWith_eq, all']

/-- A packet that is cut in its first bytes, one of a type that does not exist, and one whose size
exceeds the limit. -/
theorem feedAll_too_large :
    let pieces : List Bytes := [[0xC0], [], [0x00, 0x00, 0x02, 0xAA], [0xBB, 0x30, 0x11]]
    let after := ((limited .v5 16).feedAll pieces).1
    (((limited .v5 16).feedAll pieces).2.map Prod.fst).flatten =
        [.packet .pingreq, .skipped 0x00 (.unknownPacketType 0)] ∧
      after.failure? = some (.tooLarge 17) ∧
      ∀ piece, after.feedWith piece = (after, [], .error (.tooLarge 17)) := by
  intro pieces after
  have whole : split .v5 (min 16 VarInt.maxValue) pieces.flatten =
      ([.packet .pingreq, .skipped 0x00 (.unknownPacketType 0)], .lost (.tooLarge 17)) := by
    decide +kernel
  obtain ⟨arrivals, failed, -, -, stays⟩ :=
    feedAll_eq_split (a := limited .v5 16) (.inl rfl) pieces
  rw [whole] at arrivals failed
  exact ⟨arrivals, failed, stays _ failed⟩

end MqttClient.Assembler
