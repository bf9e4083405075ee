import MqttClient.Packet.Outcome
import MqttClient.Protocol.FixedHeader

/-!
# PUBLISH and its acknowledgments

A message carries a packet identifier exactly if its quality of service asks for acknowledgment.
PUBACK, PUBREC, PUBREL and PUBCOMP share one layout.
-/

namespace MqttClient

/-- Packet identifiers are not zero. -/
def checkPacketId (id : UInt16) : Except WireError UInt16 :=
  if id = 0 then .error .invalidPacketId else .ok id

def Parse.packetId : Parse UInt16 := do
  let id ← Parse.word16
  checkPacketId id

/-- An application message. -/
structure Publish where
  /-- The mark of a message that was sent before. -/
  dup : Bool := false
  qos : Qos := .atMostOnce
  retain : Bool := false
  topic : String := ""
  /-- The packet identifier, zero as long as none is assigned. -/
  packetId : UInt16 := 0
  properties : List Property := []
  payload : Bytes := []
  deriving DecidableEq, Repr

namespace Publish

/-- Whether the message waits for an acknowledgment. -/
def isAcknowledged (p : Publish) : Bool :=
  p.qos ≠ .atMostOnce

/-- The first byte of the packet. -/
def header (p : Publish) : FixedHeader :=
  (((FixedHeader.ofType .publish).withDup p.dup).withQos p.qos).withRetain p.retain

/-- A message has a topic, and an identifier if it waits for an acknowledgment. -/
def check (p : Publish) : Except WireError Unit :=
  if p.topic.isEmpty then .error .emptyTopic
  else if p.isAcknowledged && p.packetId = 0 then .error .invalidPacketId
  else .ok ()

def encodeBody (v : Version) (p : Publish) : Except WireError Bytes := do
  p.check
  let topic ← Field.text p.topic
  let packetId := if p.isAcknowledged then Field.word16 p.packetId else []
  let properties ← Property.encodeFor v p.properties
  return topic ++ packetId ++ properties ++ p.payload

/-- Reads the body of the packet behind a first byte. -/
def parseBody (h : FixedHeader) (v : Version) : Parse Publish := do
  let qos ← h.qos
  let topic ← Parse.text
  let packetId ← if qos = .atMostOnce then pure 0 else Parse.word16
  let properties ← Property.parseFor v
  let payload ← Parse.remainder
  let message : Publish :=
    { dup := h.dup, qos, retain := h.retain, topic, packetId, properties, payload }
  message.check
  return message

end Publish

/-- An acknowledgment of a message: PUBACK, PUBREC, PUBREL or PUBCOMP. -/
structure Ack where
  packetId : UInt16
  outcome : Outcome := {}
  deriving DecidableEq, Repr

namespace Ack

def encodeBody (v : Version) (a : Ack) : Except WireError Bytes := do
  let id ← checkPacketId a.packetId
  return Field.word16 id ++ (← a.outcome.encodeFor v)

def parseBody (v : Version) : Parse Ack := do
  let packetId ← Parse.packetId
  return { packetId, outcome := ← Outcome.parseFor v }

end Ack
end MqttClient
