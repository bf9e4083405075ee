import MqttClient.Packet.Connect
import MqttClient.Packet.Subscription

/-!
# Control packets

The sum of all packets, their bodies, and whole packets: the first byte, the size of the body, and
the body.
-/

namespace MqttClient

/-- A control packet. -/
inductive Packet where
  | connect (c : Connect)
  | connack (c : Connack)
  | publish (p : Publish)
  | puback (a : Ack)
  | pubrec (a : Ack)
  | pubrel (a : Ack)
  | pubcomp (a : Ack)
  | subscribe (s : Subscribe)
  | suback (s : Suback)
  | unsubscribe (u : Unsubscribe)
  | unsuback (u : Unsuback)
  | pingreq
  | pingresp
  | disconnect (o : Outcome)
  | auth (o : Outcome)
  deriving DecidableEq, Repr

namespace Packet

def type : Packet → PacketType
  | connect _ => .connect
  | connack _ => .connack
  | publish _ => .publish
  | puback _ => .puback
  | pubrec _ => .pubrec
  | pubrel _ => .pubrel
  | pubcomp _ => .pubcomp
  | subscribe _ => .subscribe
  | suback _ => .suback
  | unsubscribe _ => .unsubscribe
  | unsuback _ => .unsuback
  | pingreq => .pingreq
  | pingresp => .pingresp
  | disconnect _ => .disconnect
  | auth _ => .auth

/-- The first byte of a packet. -/
def header : Packet → FixedHeader
  | publish p => p.header
  | p => .ofType p.type

/-- The packet identifier, if the packet carries one. A message without one has number zero. -/
def packetId? : Packet → Option UInt16
  | publish p => if p.packetId = 0 then none else some p.packetId
  | puback a | pubrec a | pubrel a | pubcomp a => some a.packetId
  | subscribe s => some s.packetId
  | suback s => some s.packetId
  | unsubscribe u => some u.packetId
  | unsuback u => some u.packetId
  | connect _ | connack _ | pingreq | pingresp | disconnect _ | auth _ => none

def encodeBody (v : Version) : Packet → Except WireError Bytes
  | connect c => c.encodeBody
  | connack c => c.encodeBody v
  | publish p => p.encodeBody v
  | puback a | pubrec a | pubrel a | pubcomp a => a.encodeBody v
  | subscribe s => s.encodeBody v
  | suback s => s.encodeBody v
  | unsubscribe u => u.encodeBody v
  | unsuback u => u.encodeBody v
  | pingreq | pingresp => .ok []
  | disconnect o => o.encodeFor v
  | auth o =>
    match v with
    | .v5 => o.encode
    | .v311 => .error .unsupported

def encode (v : Version) (p : Packet) : Except WireError Bytes := do
  let body ← p.encodeBody v
  let size ← Field.count body.length
  return p.header.bits :: size ++ body

/-- Reads an outcome of AUTH, which version 3.1.1 does not know. -/
def parseAuth : Version → Parse Outcome
  | .v5 => do
    let outcome ← Outcome.parse
    let _ ← outcome.reason.checked outcome.reason.isAuthCode
    return outcome
  | .v311 => throw (.unknownPacketType PacketType.auth.nibble)

/-- Reads the body of a packet of the given type to its end. -/
def parseBody (h : FixedHeader) (v : Version) : PacketType → Parse Packet
  | .connect => return connect (← Connect.parseBody)
  | .connack => return connack (← Connack.parseBody v)
  | .publish => return publish (← Publish.parseBody h v)
  | .puback => return puback (← Ack.parseBody v)
  | .pubrec => return pubrec (← Ack.parseBody v)
  | .pubrel => return pubrel (← Ack.parseBody v)
  | .pubcomp => return pubcomp (← Ack.parseBody v)
  | .subscribe => return subscribe (← Subscribe.parseBody v)
  | .suback => return suback (← Suback.parseBody v)
  | .unsubscribe => return unsubscribe (← Unsubscribe.parseBody v)
  | .unsuback => return unsuback (← Unsuback.parseBody v)
  | .pingreq => do
    Parse.finish
    return pingreq
  | .pingresp => do
    Parse.finish
    return pingresp
  | .disconnect => return disconnect (← Outcome.parseFor v)
  | .auth => return auth (← parseAuth v)

/-- The packet of a type with the given body. Of the first byte only the marks of PUBLISH are
looked at. -/
def decodeBody (t : PacketType) (h : FixedHeader) (body : Bytes) (v : Version) :
    Except WireError Packet :=
  (parseBody h v t).run' body

/-- The packet with the given first byte and body. -/
def decode (h : FixedHeader) (body : Bytes) (v : Version) : Except WireError Packet := do
  let t ← h.packetType
  h.check t
  decodeBody t h body v

/-- The packet in front of `bytes` and the bytes it takes, or `none` while its end is missing. -/
def decodeFirst (bytes : Bytes) (v : Version) : Except WireError (Option (Packet × Nat)) :=
  match bytes with
  | [] => .ok none
  | header :: rest => do
    match ← VarInt.decode rest with
    | none => return none
    | some (size, used) =>
      let body := (rest.drop used).take size.toNat
      if body.length < size.toNat then
        return none
      let packet ← decode ⟨header⟩ body v
      return some (packet, 1 + used + size.toNat)

end Packet
end MqttClient
