import MqttClient.Wire.Bytes

/-!
# Transports

A transport takes and gives bytes in portions of its own choice and may fail at any time. What is
written goes out portion by portion, each beginning where the last one ended.
-/

namespace MqttClient

/-- Why a connection is of no more use. -/
inductive NetworkError where
  | writeError
  | readError
  | connectionClosed
  deriving DecidableEq, Repr

def NetworkError.message : NetworkError → String
  | writeError => "write failed"
  | readError => "read failed"
  | connectionClosed => "connection closed"

/-- The answer of a transport to a write. -/
inductive WriteAnswer where
  /-- The write failed. -/
  | failed
  /-- That many bytes were taken. -/
  | taken (n : Nat)
  deriving DecidableEq, Repr

/-- Transports that bytes can be written to. -/
class ByteSink (τ : Type) where
  /-- Offers bytes, of which the transport takes some. -/
  write : Bytes → τ → WriteAnswer × τ
  /-- Pushes out what was taken, and tells whether this succeeded. -/
  flush : τ → Bool × τ

/-- Transports that bytes can be read from. -/
class ByteSource (τ : Type) where
  /-- At most so many bytes, none at the end of the connection, or nothing on failure. -/
  read : Nat → τ → Option Bytes × τ

section
variable {τ : Type} [ByteSink τ]

/-- Writes all of `bytes`, however small the portions. A write of nothing means that the peer is
gone. -/
def writeAll (bytes : Bytes) (t : τ) : Except NetworkError Unit × τ :=
  match bytes with
  | [] => (.ok (), t)
  | b :: rest =>
    match ByteSink.write (b :: rest) t with
    | (.failed, t) => (.error .writeError, t)
    | (.taken 0, t) => (.error .connectionClosed, t)
    | (.taken (n + 1), t) => writeAll (rest.drop n) t
termination_by bytes.length
decreasing_by simp only [List.length_drop, List.length_cons]; omega

/-- The state of a transfer between two writes. -/
inductive Transfer where
  /-- These bytes are still to be written. -/
  | pending (bytes : Bytes)
  /-- The transfer has ended. -/
  | ended (result : Except NetworkError Unit)

/-- Makes at most one write, so that a transfer can wait between two of them. -/
def Transfer.poll (transfer : Transfer) (t : τ) : Transfer × τ :=
  match transfer with
  | .ended result => (.ended result, t)
  | .pending [] => (.ended (.ok ()), t)
  | .pending (b :: rest) =>
    match ByteSink.write (b :: rest) t with
    | (.failed, t) => (.ended (.error .writeError), t)
    | (.taken 0, t) => (.ended (.error .connectionClosed), t)
    | (.taken (n + 1), t) => (.pending (rest.drop n), t)

def Transfer.drive : (times : Nat) → Transfer → τ → Transfer × τ
  | 0, transfer, t => (transfer, t)
  | times + 1, transfer, t =>
    let (transfer, t) := transfer.poll t
    drive times transfer t

/-- Writes all of `bytes` in single steps. Every step takes a byte or ends the transfer, and one
more finds that nothing is left. -/
def writeAllStepwise (bytes : Bytes) (t : τ) : Except NetworkError Unit × τ :=
  match (Transfer.pending bytes).drive (bytes.length + 1) t with
  | (.ended result, t) => (result, t)
  | (.pending _, t) => (.error .writeError, t)

end
end MqttClient
