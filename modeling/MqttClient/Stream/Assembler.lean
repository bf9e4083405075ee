import MqttClient.Packet.Basic

/-!
# Packets from a byte stream

The assembler takes the bytes of a connection in whatever pieces they come, and hands out each
packet at its last byte. First byte and size are taken byte by byte, and of a body all that a piece
has of it. A packet that cannot be read is reported and passed over. A size that is malformed or
beyond the limit leaves no boundary to go on from: the assembler fails, and stays failed until it is
reset.
-/

namespace MqttClient

/-- Why a stream has lost its packet boundaries. -/
inductive FramingError where
  /-- The size of a packet goes on after four bytes. -/
  | malformedLength
  /-- The size of a packet exceeds the limit. -/
  | tooLarge (size : UInt32)
  deriving DecidableEq, Repr

def FramingError.message : FramingError → String
  | malformedLength => "malformed remaining length"
  | tooLarge size => s!"remaining length {size} exceeds maximum"

/-- What a delimited packet turns out to be. -/
inductive Arrival where
  /-- A packet that was read. -/
  | packet (p : Packet)
  /-- A packet that was passed over, and why. -/
  | skipped (header : UInt8) (fault : WireError)
  deriving DecidableEq, Repr

/-- The arrival of a packet with the given first byte and body. -/
def Arrival.ofBody (header : UInt8) (body : Bytes) (v : Version) : Arrival :=
  match Packet.decode ⟨header⟩ body v with
  | .ok p => packet p
  | .error fault => skipped header fault

namespace Assembler

/-- How far the present packet has come. -/
inductive Stage where
  /-- A packet begins with the next byte. -/
  | idle
  /-- The size is being read: `count` groups add up to `value`, the next one weighs `weight`. -/
  | sizing (header : UInt8) (value weight : UInt32) (count : Nat)
  /-- The body is being read, until it has its size. -/
  | filling (header : UInt8) (size : Nat)
  /-- The boundaries are lost. -/
  | failed (e : FramingError)
  deriving DecidableEq, Repr

end Assembler

/-- The receiving end of a connection. -/
structure Assembler where
  version : Version := .v311
  /-- The largest size of a body. -/
  maxSize : UInt32 := VarInt.maxValue
  stage : Assembler.Stage := .idle
  /-- What is there of the present body. -/
  body : Array UInt8 := #[]
  deriving DecidableEq, Repr

namespace Assembler

/-- An assembler with a limit on the size of bodies. -/
def limited (version : Version) (maxSize : UInt32) : Assembler :=
  { version, maxSize := min maxSize VarInt.maxValue }

/-- Whether the beginning of a packet is held. -/
def isMidPacket (a : Assembler) : Bool :=
  match a.stage with
  | .sizing .. | .filling .. => true
  | .idle | .failed _ => false

/-- The framing error on which the assembler stopped. -/
def failure? (a : Assembler) : Option FramingError :=
  match a.stage with
  | .failed e => some e
  | _ => none

/-- Begins a new stream. -/
def reset (a : Assembler) : Assembler :=
  { a with stage := .idle, body := #[] }

/-- Goes on with the first byte of a piece, and with what belongs to the same body behind it. What
arrived is told, and what is left of the piece. -/
def advance (a : Assembler) (b : UInt8) (rest : Bytes) : Assembler × Option Arrival × Bytes :=
  match a with
  | ⟨version, maxSize, .idle, body⟩ => (⟨version, maxSize, .sizing b 0 1 0, body⟩, none, rest)
  | ⟨version, maxSize, .sizing header value weight count, body⟩ =>
    let value := value + (b &&& 0x7F).toUInt32 * weight
    let count := count + 1
    if b &&& 0x80 ≠ 0 then
      if count = VarInt.maxSize then (⟨version, maxSize, .failed .malformedLength, #[]⟩, none, rest)
      else (⟨version, maxSize, .sizing header value (weight * 128) count, body⟩, none, rest)
    else if maxSize < value then (⟨version, maxSize, .failed (.tooLarge value), #[]⟩, none, rest)
    else if value = 0 then
      (⟨version, maxSize, .idle, body⟩, some (.ofBody header body.toList version), rest)
    else (⟨version, maxSize, .filling header value.toNat, #[]⟩, none, rest)
  | ⟨version, maxSize, .filling header size, body⟩ =>
    -- the body lacks `b` at least
    let more := size - body.size - 1
    let body := body ++ b :: rest.take more
    if body.size = size then
      (⟨version, maxSize, .idle, #[]⟩, some (.ofBody header body.toList version), rest.drop more)
    else (⟨version, maxSize, .filling header size, body⟩, none, rest.drop more)
  | ⟨version, maxSize, .failed e, body⟩ => (⟨version, maxSize, .failed e, body⟩, none, [])

/-- What a turn leaves is no longer than what followed the first byte. -/
theorem length_advance_le (a : Assembler) (b : UInt8) (rest : Bytes) :
    (a.advance b rest).2.2.length ≤ rest.length := by
  obtain ⟨version, maxSize, stage, body⟩ := a
  cases stage with
  | idle => exact Nat.le_refl _
  | sizing header value weight count =>
    simp only [advance]
    repeat' split
    all_goals exact Nat.le_refl _
  | filling header size =>
    simp only [advance]
    split <;> simp
  | failed e => exact Nat.zero_le _

/-- Takes a piece, and puts what arrives with it in front of what arrived before. -/
def takeOnto (a : Assembler) (arrivals : List Arrival) : Bytes → Assembler × List Arrival
  | [] => (a, arrivals)
  | b :: rest =>
    match h : a.advance b rest with
    | (a', arrival, left) =>
      have : left.length ≤ rest.length := by simpa [h] using length_advance_le a b rest
      takeOnto a' (arrival.toList ++ arrivals) left
termination_by piece => piece.length

/-- Takes a piece, and tells what arrived with it in order. -/
def take (a : Assembler) (piece : Bytes) : Assembler × List Arrival :=
  let (a, arrivals) := a.takeOnto [] piece
  (a, arrivals.reverse)

/-- Takes a piece, and tells what arrived with it, and the error if the assembler has failed. -/
def feedWith (a : Assembler) (piece : Bytes) :
    Assembler × List Arrival × Except FramingError Unit :=
  let (a, arrivals) := a.take piece
  match a.failure? with
  | some e => (a, arrivals, .error e)
  | none => (a, arrivals, .ok ())

/-- Takes a piece. A failed assembler has nothing to tell but its error. -/
def feed (a : Assembler) (piece : Bytes) : Assembler × Except FramingError (List Arrival) :=
  match a.feedWith piece with
  | (a, _, .error e) => (a, .error e)
  | (a, arrivals, .ok ()) => (a, .ok arrivals)

end Assembler
end MqttClient
