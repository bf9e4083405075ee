import MqttClient.Wire.Bytes

/-!
# File names of records

The key of a record becomes a file name in the URL-safe alphabet of base 64: six bits to a
character, no padding, and unused bits of the last character zero. Names of any other form belong to
no key.
-/

namespace MqttClient.FileName

/-- The character that stands for six bits. -/
def digit (n : Nat) : UInt8 :=
  if n < 26 then UInt8.ofNat (n + 65)
  else if n < 52 then UInt8.ofNat (n + 71)
  else if n < 62 then UInt8.ofNat (n - 4)
  else if n = 62 then 0x2D
  else 0x5F

/-- The six bits that a character stands for, if it is one of the alphabet. -/
def digit? (b : UInt8) : Option Nat :=
  if 0x41 ≤ b ∧ b ≤ 0x5A then some (b.toNat - 65)
  else if 0x61 ≤ b ∧ b ≤ 0x7A then some (b.toNat - 71)
  else if 0x30 ≤ b ∧ b ≤ 0x39 then some (b.toNat + 4)
  else if b = 0x2D then some 62
  else if b = 0x5F then some 63
  else none

/-- The file name of a key: three bytes are four characters. -/
def ofKey : (key : Bytes) → Bytes
  | [] => []
  | [a] => [digit (a.toNat / 4), digit (a.toNat % 4 * 16)]
  | [a, b] =>
    [digit (a.toNat / 4), digit (a.toNat % 4 * 16 + b.toNat / 16), digit (b.toNat % 16 * 4)]
  | a :: b :: c :: rest =>
    digit (a.toNat / 4) :: digit (a.toNat % 4 * 16 + b.toNat / 16) ::
      digit (b.toNat % 16 * 4 + c.toNat / 64) :: digit (c.toNat % 64) :: ofKey rest

/-- The key of a file name, if it is the name of one. -/
def toKey? : (name : Bytes) → Option Bytes
  | [] => some []
  | [_] => none
  | [w, x] => do
    let w ← digit? w
    let x ← digit? x
    guard (x % 16 = 0)
    return [UInt8.ofNat (w * 4 + x / 16)]
  | [w, x, y] => do
    let w ← digit? w
    let x ← digit? x
    let y ← digit? y
    guard (y % 4 = 0)
    return [UInt8.ofNat (w * 4 + x / 16), UInt8.ofNat (x % 16 * 16 + y / 4)]
  | w :: x :: y :: z :: rest => do
    let w ← digit? w
    let x ← digit? x
    let y ← digit? y
    let z ← digit? z
    let key ← toKey? rest
    return UInt8.ofNat (w * 4 + x / 16) :: UInt8.ofNat (x % 16 * 16 + y / 4) ::
      UInt8.ofNat (y % 4 * 64 + z) :: key

end MqttClient.FileName
