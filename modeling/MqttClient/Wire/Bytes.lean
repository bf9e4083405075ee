/-!
# Byte strings

Byte strings are lists, so that the laws of the wire format are laws of lists. Integers of a fixed
width are written most significant byte first, and text travels as its UTF-8 encoding.
-/

namespace MqttClient

abbrev Bytes := List UInt8

namespace Bytes

/-- The `width` low bytes of `n`, most significant first. -/
def bigEndian : (width n : Nat) → Bytes
  | 0, _ => []
  | width + 1, n => bigEndian width (n / 256) ++ [UInt8.ofNat n]

/-- The number whose bytes are given, most significant first. -/
def toNat (bytes : Bytes) : Nat :=
  bytes.foldl (fun n b => n * 256 + b.toNat) 0

/-- The UTF-8 encoding of a text. -/
def ofText (text : String) : Bytes :=
  text.toByteArray.data.toList

/-- The text that the bytes encode, if they are UTF-8. -/
def toText? (bytes : Bytes) : Option String :=
  String.fromUTF8? ⟨bytes.toArray⟩

def hexDigits (b : UInt8) : String :=
  String.ofList [Nat.digitChar (b.toNat / 16), Nat.digitChar (b.toNat % 16)]

/-- A number takes as many bytes as its width. -/
theorem length_bigEndian (width n : Nat) : (bigEndian width n).length = width := by
  induction width generalizing n with
  | zero => rfl
  | succ width ih => simp [bigEndian, ih]

/-- Another byte at the end weighs one, and those before it 256 times as much. -/
theorem toNat_append_singleton (bytes : Bytes) (b : UInt8) :
    toNat (bytes ++ [b]) = toNat bytes * 256 + b.toNat := by
  simp [toNat]

/-- The bytes of a text are a text again. -/
theorem toText?_ofText (text : String) : toText? (ofText text) = some text := by
  simp [toText?, ofText, String.fromUTF8?, text.isValidUTF8, String.fromUTF8]

end Bytes
end MqttClient
