import MqttClient.Packet.Connect
import MqttClient.Proofs.Wire.Items
import Mathlib.Tactic.Common

/-!
# How much is written

Which contents a writer takes, and how many bytes it gives for them, is put together from its
parts. A part that is a block of its own has to stay within the range of sizes, but as it is no
longer than the whole, only the size of the whole counts in the end.
-/

namespace MqttClient
variable {α : Type} {written : Except WireError Bytes} {next : Bytes → Except WireError Bytes}
  {fits fits' : Prop} {size size' : Nat}

/-- Whether a writer gives its bytes only on a condition, and then a known number of them. If these
are not more than four groups count, the condition is enough. -/
structure Measured (written : Except WireError Bytes) (fits : Prop) (size : Nat) : Prop where
  sound : ∀ {bytes}, written = .ok bytes → fits ∧ bytes.length = size
  complete : fits → size ≤ VarInt.maxValue.toNat → ∃ bytes, written = .ok bytes

namespace Measured

/-- A constant is always written. -/
lemma pure {bytes : Bytes} (length : bytes.length = size) :
    Measured (Pure.pure bytes) True size := by
  refine ⟨fun h => ?_, fun _ _ => ⟨bytes, rfl⟩⟩
  cases h
  exact ⟨trivial, length⟩

/-- Behind a fault nothing is written, whatever size is told of it. -/
lemma error (e : WireError) (size : Nat) : Measured (.error e) False size :=
  ⟨nofun, False.elim⟩

/-- The condition and the size may be told in other words. -/
lemma congr (h : Measured written fits size) (same : fits ↔ fits') (total : size = size') :
    Measured written fits' size' := by
  subst total
  exact ⟨fun done => ⟨same.mp (h.sound done).1, (h.sound done).2⟩,
    fun met le => h.complete (same.mpr met) le⟩

/-- A part is written, and goes into a whole that is no shorter. -/
lemma bind (first : Measured written fits size)
    (rest : ∀ bytes : Bytes, bytes.length = size → Measured (next bytes) fits' size')
    (le : size ≤ size') : Measured (written >>= next) (fits ∧ fits') size' := by
  constructor
  · intro bytes done
    obtain ⟨part, done, done'⟩ := WireError.bind_eq_ok_iff.mp done
    obtain ⟨met, length⟩ := first.sound done
    obtain ⟨met', length'⟩ := (rest part length).sound done'
    exact ⟨⟨met, met'⟩, length'⟩
  · rintro ⟨met, met'⟩ within
    obtain ⟨part, done⟩ := first.complete met (Nat.le_trans le within)
    obtain ⟨bytes, done'⟩ := (rest part (first.sound done).2).complete met' within
    exact ⟨bytes, WireError.bind_eq_ok_iff.mpr ⟨part, done, done'⟩⟩

/-- Something is checked before anything is written. -/
lemma check {x : α} {checked : Except WireError α} {next : α → Except WireError Bytes}
    (passes : ∀ {y}, checked = .ok y ↔ fits ∧ x = y) (rest : Measured (next x) fits' size') :
    Measured (checked >>= next) (fits ∧ fits') size' := by
  constructor
  · intro bytes done
    obtain ⟨y, done, done'⟩ := WireError.bind_eq_ok_iff.mp done
    obtain ⟨met, rfl⟩ := passes.mp done
    obtain ⟨met', length⟩ := rest.sound done'
    exact ⟨⟨met, met'⟩, length⟩
  · rintro ⟨met, met'⟩ within
    obtain ⟨bytes, done⟩ := rest.complete met' within
    exact ⟨bytes, WireError.bind_eq_ok_iff.mpr ⟨x, passes.mpr ⟨met, rfl⟩, done⟩⟩

end Measured

/-- Binary data is written behind its length, which has to fit 16 bits. -/
lemma Field.measured_binary (data : Bytes) :
    Measured (binary data) (data.length ≤ 65535) (2 + data.length) := by
  constructor
  · intro bytes done
    obtain ⟨lt, rfl⟩ := binary_eq_ok_iff.mp done
    exact ⟨Nat.le_of_lt_succ lt, by rw [List.length_append, length_word16]⟩
  · intro le _
    exact ⟨_, binary_eq_ok_iff.mpr ⟨Nat.lt_succ_of_le le, rfl⟩⟩

/-- A text is written like the binary data of its bytes. -/
lemma Field.measured_text (s : String) :
    Measured (text s) ((Bytes.ofText s).length ≤ 65535) (2 + (Bytes.ofText s).length) :=
  measured_binary (Bytes.ofText s)

/-- A variable byte integer is written up to the largest one, in its shortest form. -/
lemma VarInt.measured_encode (x : UInt32) :
    Measured (encode x) (x.toNat ≤ maxValue.toNat) (VarInt.size x) := by
  constructor
  · intro bytes done
    exact ⟨UInt32.le_iff_toNat_le.mp (encode_eq_ok_iff.mp done).1, (spells_of_encode done).2⟩
  · intro le _
    exact ⟨_, encode_eq_ok_iff.mpr ⟨UInt32.le_iff_toNat_le.mpr le, rfl⟩⟩

/-- A block behind its size. -/
lemma Field.measured_count {block : Bytes} (length : block.length = size) :
    Measured (do return (← count block.length) ++ block) True
      (VarInt.size (.ofNat size) + size) := by
  subst length
  constructor
  · intro bytes done
    obtain ⟨front, counted, done⟩ := WireError.bind_eq_ok_iff.mp done
    cases done
    have length := (VarInt.spells_of_encode (count_eq_ok_iff.mp counted).2).2
    exact ⟨trivial, by rw [List.length_append, length]⟩
  · intro _ le
    obtain ⟨front, counted⟩ := exists_count_iff.mpr (Nat.le_trans (Nat.le_add_left ..) le)
    exact ⟨_, WireError.bind_eq_ok_iff.mpr ⟨front, counted, rfl⟩⟩

/-- The size of items that are written one after the other. -/
def itemsSize (size : α → Nat) : List α → Nat
  | [] => 0
  | x :: xs => size x + itemsSize size xs

/-- Items are written if each of them is, and their sizes add up. -/
lemma measured_encodeItems {encode : α → Except WireError Bytes} {fits : α → Prop} {size : α → Nat}
    (each : ∀ x, Measured (encode x) (fits x) (size x)) (xs : List α) :
    Measured (encodeItems encode xs) (∀ x ∈ xs, fits x) (itemsSize size xs) := by
  induction xs with
  | nil => exact (Measured.pure rfl).congr (iff_of_true trivial (List.forall_mem_nil _)) rfl
  | cons x xs ih =>
    refine ((each x).bind (fun b length => ih.bind (fun b' length' => .pure ?_) ?_) ?_).congr ?_ rfl
    · rw [List.length_append, length, length', itemsSize]
    · exact Nat.le_add_left ..
    · exact Nat.le_add_right ..
    · rw [and_true, List.forall_mem_cons]

/-- A field that may be left out. -/
lemma Connect.measured_encodeOption {encode : α → Except WireError Bytes} {fits : α → Prop}
    {size : α → Nat} (each : ∀ x, Measured (encode x) (fits x) (size x)) (x? : Option α) :
    Measured (encodeOption encode x?) (∀ x ∈ x?, fits x) (x?.elim 0 size) := by
  cases x? with
  | none => exact (Measured.pure rfl).congr (iff_of_true trivial nofun) rfl
  | some x => exact (each x).congr (by simp) rfl

end MqttClient
