import MqttClient.Transport.Basic
import MqttClient.Stream.Assembler

/-!
# Reading from a connection

One read from the transport, fed to the assembler.
-/

namespace MqttClient

/-- Why nothing was read. -/
inductive IntakeError where
  /-- The transport failed or closed. -/
  | network (e : NetworkError)
  /-- The stream has lost its packet boundaries. -/
  | framing (e : FramingError)
  deriving DecidableEq, Repr

def IntakeError.message : IntakeError → String
  | network e => "network: " ++ e.message
  | framing e => "framing: " ++ e.message

namespace Assembler

/-- The most bytes that are asked for at once. -/
def readSize : Nat := 512

/-- Reads once and feeds what came. A read of nothing means that the peer is gone. -/
def intake {τ : Type} [ByteSource τ] (a : Assembler) (t : τ) :
    Except IntakeError (List Arrival) × Assembler × τ :=
  match ByteSource.read readSize t with
  | (none, t) => (.error (.network .readError), a, t)
  | (some [], t) => (.error (.network .connectionClosed), a, t)
  | (some (b :: bytes), t) =>
    match a.feed (b :: bytes) with
    | (a, .ok arrivals) => (.ok arrivals, a, t)
    | (a, .error e) => (.error (.framing e), a, t)

end Assembler
end MqttClient
