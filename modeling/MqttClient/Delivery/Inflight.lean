import MqttClient.Instant
import MqttClient.Packet.Basic

/-!
# Packets in flight

A packet is in flight from the moment it is sent until its acknowledgment comes. Each stage of a
handshake waits for one kind of acknowledgment only.
-/

namespace MqttClient

/-- The acknowledgments that carry a handshake on. -/
inductive AckKind where
  /-- Ends a handshake of quality of service 1. -/
  | puback
  /-- Asks for the release of a message of quality of service 2. -/
  | pubrec
  /-- Ends a handshake of quality of service 2. -/
  | pubcomp
  deriving DecidableEq, Repr

namespace AckKind

/-- The acknowledgment that a packet is, and the identifier that it acknowledges. -/
def ofPacket? : Packet → Option (AckKind × UInt16)
  | .puback a => some (puback, a.packetId)
  | .pubrec a => some (pubrec, a.packetId)
  | .pubcomp a => some (pubcomp, a.packetId)
  | _ => none

def name : AckKind → String
  | puback => "PUBACK"
  | pubrec => "PUBREC"
  | pubcomp => "PUBCOMP"

end AckKind

/-- A packet in flight. -/
structure Inflight where
  packet : Packet
  /-- When the packet was last sent. -/
  lastSent : Instant
  deriving DecidableEq, Repr

namespace Inflight

/-- The identifier of the packet, or zero if it has none. -/
def packetId (e : Inflight) : UInt16 :=
  e.packet.packetId?.getD 0

/-- Whether the packet was last sent `interval` milliseconds ago or earlier. -/
def isDue (e : Inflight) (now : Instant) (interval : UInt64) : Bool :=
  interval ≤ now.since e.lastSent

/-- Whether the packet waits for an acknowledgment of the given kind. -/
def awaits (e : Inflight) (kind : AckKind) : Bool :=
  match e.packet, kind with
  | .publish p, .puback => p.qos = .atLeastOnce
  | .publish p, .pubrec => p.qos = .exactlyOnce
  | .pubrel _, .pubcomp => true
  | _, _ => false

/-- The packet as it is sent once more. -/
def again (e : Inflight) (now : Instant) : Inflight :=
  match e.packet with
  | .publish p => ⟨.publish { p with dup := true }, now⟩
  | packet => ⟨packet, now⟩

end Inflight

namespace Publish

/-- The acknowledgment that is owed for an incoming message. -/
def reply? (p : Publish) : Option Packet :=
  match p.qos with
  | .atMostOnce => none
  | .atLeastOnce => some (.puback { packetId := p.packetId })
  | .exactlyOnce => some (.pubrec { packetId := p.packetId })

end Publish

/-- The completion that is owed for the release of an incoming message. -/
def Packet.completion (id : UInt16) : Packet :=
  .pubcomp { packetId := id }

end MqttClient
