import MqttClient.Wire.Error

/-!
# Variable byte integers

A number below `2 ^ 28` is written as one to four groups of seven bits, least significant first.
The high bit of a byte says that another group follows. The shortest form is written; longer forms
of at most four bytes are read as well.
-/

namespace MqttClient.VarInt

/-- The largest number that four groups hold. -/
def maxValue : UInt32 := 268435455

/-- The most bytes a variable byte integer takes. -/
def maxSize : Nat := 4

/-- The groups of `value`, where at most `more` groups may follow the first. -/
def groups : (more : Nat) → (value : UInt32) → Bytes
  | 0, value => [value.toUInt8]
  | more + 1, value =>
    if value < 128 then [value.toUInt8]
    else ((value % 128).toUInt8 ||| 0x80) :: groups more (value / 128)

/-- The shortest form of `value`. -/
def encode (value : UInt32) : Except WireError Bytes :=
  if maxValue < value then .error .tooLarge else .ok (groups 3 value)

/-- The size of the shortest form of `value`. -/
def size (value : UInt32) : Nat :=
  if value ≤ 127 then 1 else if value ≤ 16383 then 2 else if value ≤ 2097151 then 3 else 4

/-- Reads at most `room` further groups. The groups before them add up to `value`, and the next one
weighs `weight`. -/
def decodeFrom : (room : Nat) → (value weight : UInt32) → Bytes →
    Except WireError (Option (UInt32 × Nat))
  | 0, _, _, _ => .error .malformedVarInt
  | _ + 1, _, _, [] => .ok none
  | room + 1, value, weight, b :: rest =>
    let value := value + (b &&& 0x7F).toUInt32 * weight
    if b &&& 0x80 = 0 then .ok (some (value, maxSize - room))
    else decodeFrom room value (weight * 128) rest

/-- The number in front of `bytes` and the bytes it takes, or `none` while its end is missing. -/
def decode (bytes : Bytes) : Except WireError (Option (UInt32 × Nat)) :=
  decodeFrom maxSize 0 1 bytes

end MqttClient.VarInt
