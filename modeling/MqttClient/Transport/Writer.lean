import MqttClient.Transport.Basic
import MqttClient.Packet.Basic

/-!
# Writing packets out

The writer sends packets in order, each flushed before the next one begins. A packet that has no
encoding is passed over; the first failure of the transport ends the writer.
-/

namespace MqttClient

/-- Writes and flushes packets one by one. Those without an encoding are passed over. -/
def writePackets {τ : Type} [ByteSink τ] (v : Version) :
    List Packet → τ → Except NetworkError Unit × τ
  | [], t => (.ok (), t)
  | p :: ps, t =>
    match p.encode v with
    | .error _ => writePackets v ps t
    | .ok bytes =>
      match writeAll bytes t with
      | (.error e, t) => (.error e, t)
      | (.ok (), t) =>
        match ByteSink.flush t with
        | (false, t) => (.error .writeError, t)
        | (true, t) => writePackets v ps t

end MqttClient
