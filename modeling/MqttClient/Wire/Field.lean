import MqttClient.Wire.VarInt

/-!
# Fields

The data types that packets are made of: integers of fixed width, variable byte integers, and texts
and binary data behind a length of two bytes. Writers return the bytes of a field; readers take a
field off the front of their input and leave the rest.
-/

namespace MqttClient

namespace Field

/-- A word of 16 bits in two bytes, high byte first. -/
def word16 (n : UInt16) : Bytes :=
  Bytes.bigEndian 2 n.toNat

/-- A word of 32 bits in four bytes, high byte first. -/
def word32 (n : UInt32) : Bytes :=
  Bytes.bigEndian 4 n.toNat

/-- Binary data behind its length. -/
def binary (data : Bytes) : Except WireError Bytes :=
  if data.length < 65536 then .ok (word16 (UInt16.ofNat data.length) ++ data)
  else .error .tooLarge

/-- A text behind the length of its UTF-8 encoding. -/
def text (s : String) : Except WireError Bytes :=
  binary (Bytes.ofText s)

/-- A byte count as a variable byte integer. -/
def count (n : Nat) : Except WireError Bytes :=
  if n < 4294967296 then VarInt.encode (UInt32.ofNat n) else .error .tooLarge

end Field

/-- A reader takes a value off the front of the input. -/
abbrev Parse := StateT Bytes (Except WireError)

namespace Parse

/-- The next byte. -/
def byte : Parse UInt8 := fun
  | [] => .error .truncated
  | b :: rest => .ok (b, rest)

/-- The next `n` bytes. -/
def take (n : Nat) : Parse Bytes := fun input =>
  let field := input.take n
  if field.length = n then .ok (field, input.drop n) else .error .truncated

/-- A word of 16 bits, high byte first. -/
def word16 : Parse UInt16 :=
  return UInt16.ofNat (← take 2).toNat

/-- A word of 32 bits, high byte first. -/
def word32 : Parse UInt32 :=
  return UInt32.ofNat (← take 4).toNat

/-- A variable byte integer, all of which must be there. -/
def varInt : Parse UInt32 := fun input => do
  match ← VarInt.decode input with
  | some (value, used) => return (value, input.drop used)
  | none => .error .truncated

/-- Binary data behind its length. -/
def binary : Parse Bytes := do
  let n ← word16
  take n.toNat

/-- A text behind the length of its UTF-8 encoding. -/
def text : Parse String := do
  match (← binary).toText? with
  | some s => return s
  | none => throw .invalidUtf8

/-- All that is left of the input. -/
def remainder : Parse Bytes := fun input => .ok (input, [])

/-- Nothing may be left. -/
def finish : Parse Unit := fun
  | [] => .ok ((), [])
  | _ :: _ => .error .lengthMismatch

/-- Goes on only if a condition holds. -/
def require (condition : Bool) (fault : WireError) : Parse Unit := fun input =>
  if condition then .ok ((), input) else .error fault

/-- Whether nothing is left. -/
def atEnd : Parse Bool := fun input => .ok (input.isEmpty, input)

/-- Reads items until the input is used up. Every item takes a byte at least, so `fuel` items are
enough for `fuel` bytes. -/
def itemsWithin (item : Parse α) : (fuel : Nat) → Bytes → Except WireError (List α)
  | _, [] => .ok []
  | 0, _ :: _ => .error .truncated
  | fuel + 1, input => do
    let (x, rest) ← item input
    return x :: (← itemsWithin item fuel rest)

/-- The items that make up the whole of `input`. -/
def items (item : Parse α) (input : Bytes) : Except WireError (List α) :=
  itemsWithin item input.length input

/-- The items that make up the rest of the input. -/
def many (item : Parse α) : Parse (List α) := fun input =>
  return (← items item input, [])

/-- The value that makes up the whole of `input`. -/
def whole (value : Parse α) (input : Bytes) : Except WireError α := do
  let (x, rest) ← value input
  if rest.isEmpty then return x else .error .lengthMismatch

end Parse
end MqttClient
