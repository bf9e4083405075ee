import MqttClient.Protocol.Version

/-!
# Packet types

The fifteen control packets by number and name. All but PUBLISH fix the low half of their first
byte.
-/

namespace MqttClient

/-- The control packets. -/
inductive PacketType where
  | connect
  | connack
  | publish
  | puback
  | pubrec
  | pubrel
  | pubcomp
  | subscribe
  | suback
  | unsubscribe
  | unsuback
  | pingreq
  | pingresp
  | disconnect
  | auth
  deriving DecidableEq, Repr

namespace PacketType

/-- All packet types in the order of their numbers. -/
def all : List PacketType :=
  [connect, connack, publish, puback, pubrec, pubrel, pubcomp, subscribe, suback, unsubscribe,
    unsuback, pingreq, pingresp, disconnect, auth]

/-- The number of a packet type, the high half of the first byte of its packets. -/
def nibble : PacketType → UInt8
  | connect => 1
  | connack => 2
  | publish => 3
  | puback => 4
  | pubrec => 5
  | pubrel => 6
  | pubcomp => 7
  | subscribe => 8
  | suback => 9
  | unsubscribe => 10
  | unsuback => 11
  | pingreq => 12
  | pingresp => 13
  | disconnect => 14
  | auth => 15

/-- The packet type of a number, if it has one. -/
def ofNibble? (n : UInt8) : Option PacketType :=
  all.find? fun t => t.nibble = n

def ofNibble (n : UInt8) : Except WireError PacketType :=
  match ofNibble? n with
  | some t => .ok t
  | none => .error (.unknownPacketType n)

/-- The low half of the first byte, where the packet type fixes it. -/
def requiredFlags : PacketType → Option UInt8
  | publish => none
  | pubrel | subscribe | unsubscribe => some 2
  | _ => some 0

def name : PacketType → String
  | connect => "CONNECT"
  | connack => "CONNACK"
  | publish => "PUBLISH"
  | puback => "PUBACK"
  | pubrec => "PUBREC"
  | pubrel => "PUBREL"
  | pubcomp => "PUBCOMP"
  | subscribe => "SUBSCRIBE"
  | suback => "SUBACK"
  | unsubscribe => "UNSUBSCRIBE"
  | unsuback => "UNSUBACK"
  | pingreq => "PINGREQ"
  | pingresp => "PINGRESP"
  | disconnect => "DISCONNECT"
  | auth => "AUTH"

/-- Every packet type is told by its nibble. -/
theorem ofNibble_nibble (t : PacketType) : ofNibble t.nibble = .ok t := by
  cases t <;> rfl

end PacketType
end MqttClient
