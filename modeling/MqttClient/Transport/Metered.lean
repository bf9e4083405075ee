import MqttClient.Transport.Basic

/-!
# Metered transports

Transports in memory whose portions and failures are set beforehand: a sink that keeps what it
takes, and a source that gives out a queue of bytes.
-/

namespace MqttClient

/-- A sink of limited portions and limited capacity. -/
structure MeteredSink where
  /-- The most bytes that one write takes. -/
  portion : Option Nat := none
  /-- The most bytes that are taken in all. -/
  capacity : Option Nat := none
  /-- Whether a full sink takes nothing instead of failing. -/
  stalls : Bool := false
  /-- The number of flushes after which a flush fails. -/
  flushLimit : Option Nat := none
  /-- What was taken. -/
  taken : Array UInt8 := #[]
  /-- The number of flushes that succeeded. -/
  flushes : Nat := 0
  deriving DecidableEq, Repr

namespace MeteredSink

/-- The front of `bytes` that a limit lets through. -/
def portionOf (limit : Option Nat) (bytes : Bytes) : Bytes :=
  match limit with
  | some n => bytes.take n
  | none => bytes

/-- Whether the capacity is used up. -/
def isFull (s : MeteredSink) : Bool :=
  match s.capacity with
  | some n => n ≤ s.taken.size
  | none => false

/-- Takes what the portion and the capacity allow. -/
def write (bytes : Bytes) (s : MeteredSink) : WriteAnswer × MeteredSink :=
  if s.isFull then (if s.stalls then .taken 0 else .failed, s)
  else
    let room := s.capacity.map (· - s.taken.size)
    let piece := portionOf room (portionOf s.portion bytes)
    (.taken piece.length, { s with taken := s.taken ++ piece })

/-- Counts a flush, unless it is the one that fails. -/
def flush (s : MeteredSink) : Bool × MeteredSink :=
  if s.flushLimit = some s.flushes then (false, s) else (true, { s with flushes := s.flushes + 1 })

instance : ByteSink MeteredSink := ⟨write, flush⟩

end MeteredSink

/-- A source that gives out the bytes of a queue. -/
structure MeteredSource where
  /-- What was not read yet. -/
  queue : Bytes := []
  /-- The most bytes that one read gives out. -/
  portion : Option Nat := none
  /-- Whether reads fail. -/
  fails : Bool := false
  deriving DecidableEq, Repr

namespace MeteredSource

/-- Gives out what the reader and the portion allow. -/
def read (most : Nat) (s : MeteredSource) : Option Bytes × MeteredSource :=
  if s.fails then (none, s)
  else
    let n := match s.portion with
      | some portion => min most portion
      | none => most
    (some (s.queue.take n), { s with queue := s.queue.drop n })

instance : ByteSource MeteredSource := ⟨read⟩

end MeteredSource
end MqttClient
