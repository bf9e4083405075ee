import MqttClient.Packet.Publish

/-!
# SUBSCRIBE, UNSUBSCRIBE and their acknowledgments

A subscription is a topic filter with a byte of options, of which version 3.1.1 knows only the
quality of service.
-/

namespace MqttClient

/-- When the server sends retained messages for a subscription. -/
inductive RetainHandling where
  /-- At every subscription. -/
  | always
  /-- Only if the subscription is new. -/
  | ifNew
  | never
  deriving DecidableEq, Repr

namespace RetainHandling

def toByte : RetainHandling → UInt8
  | always => 0
  | ifNew => 1
  | never => 2

def ofByte? (b : UInt8) : Option RetainHandling :=
  if b = 0 then some always else if b = 1 then some ifNew else if b = 2 then some never else none

end RetainHandling

/-- The options of a subscription. -/
structure SubscriptionOptions where
  /-- The best quality of service that the client takes. -/
  qos : Qos := .atMostOnce
  /-- Whether the client does without its own messages. -/
  noLocal : Bool := false
  /-- Whether the retain mark is left as it was published. -/
  retainAsPublished : Bool := false
  retainHandling : RetainHandling := .always
  deriving DecidableEq, Repr

namespace SubscriptionOptions

def toByte (o : SubscriptionOptions) : UInt8 :=
  o.qos.toByte ||| (if o.noLocal then 0x04 else 0) ||| (if o.retainAsPublished then 0x08 else 0) |||
    (o.retainHandling.toByte <<< (4 : UInt8))

/-- The bits that a version leaves unused. -/
def reserved : Version → UInt8
  | .v311 => 0xFC
  | .v5 => 0xC0

def ofByte (b : UInt8) (v : Version) : Except WireError SubscriptionOptions :=
  if b &&& reserved v ≠ 0 then .error (.invalidFlags b)
  else
    match RetainHandling.ofByte? ((b &&& 0x30) >>> 4) with
    | none => .error (.invalidFlags b)
    | some retainHandling => do
      let qos ← Qos.ofByte (b &&& 0x03)
      return {
        qos
        noLocal := b &&& 0x04 ≠ 0
        retainAsPublished := b &&& 0x08 ≠ 0
        retainHandling }

end SubscriptionOptions

/-- A topic filter and its options. -/
structure Subscription where
  filter : String
  options : SubscriptionOptions := {}
  deriving DecidableEq, Repr

namespace Subscription

/-- The subscription of a filter with nothing but a quality of service. -/
def ofQos (filter : String) (qos : Qos) : Subscription :=
  { filter, options := { qos } }

def encode (s : Subscription) : Except WireError Bytes :=
  return (← Field.text s.filter) ++ [s.options.toByte]

def parse (v : Version) : Parse Subscription := do
  let filter ← Parse.text
  let options ← SubscriptionOptions.ofByte (← Parse.byte) v
  return { filter, options }

end Subscription

/-- The encodings of the items one after the other. -/
def encodeItems (encode : α → Except WireError Bytes) : List α → Except WireError Bytes
  | [] => .ok []
  | x :: xs => return (← encode x) ++ (← encodeItems encode xs)

/-- A request names one filter at least. -/
def checkNonempty (items : List α) : Except WireError (List α) :=
  if items.isEmpty then .error .emptyPayload else .ok items

/-- The request to receive messages. -/
structure Subscribe where
  packetId : UInt16 := 0
  properties : List Property := []
  subscriptions : List Subscription := []
  deriving DecidableEq, Repr

namespace Subscribe

def encodeBody (v : Version) (s : Subscribe) : Except WireError Bytes := do
  let id ← checkPacketId s.packetId
  let subscriptions ← checkNonempty s.subscriptions
  let properties ← Property.encodeFor v s.properties
  return Field.word16 id ++ properties ++ (← encodeItems Subscription.encode subscriptions)

def parseBody (v : Version) : Parse Subscribe := do
  let packetId ← Parse.packetId
  let properties ← Property.parseFor v
  let subscriptions ← checkNonempty (← Parse.many (Subscription.parse v))
  return { packetId, properties, subscriptions }

end Subscribe

/-- The answer to SUBSCRIBE, one code for each subscription. -/
structure Suback where
  packetId : UInt16 := 0
  properties : List Property := []
  codes : List ReasonCode := []
  deriving DecidableEq, Repr

/-- Keeps the codes if all of them are `admitted`. -/
def checkCodes (admitted : ReasonCode → Bool) : List ReasonCode → Except WireError (List ReasonCode)
  | [] => .ok []
  | c :: cs => return (← c.checked (admitted c)) :: (← checkCodes admitted cs)

def Parse.codes (admitted : ReasonCode → Bool) : Parse (List ReasonCode) := do
  let bytes ← Parse.remainder
  checkCodes admitted (bytes.map ReasonCode.mk)

namespace Suback

def encodeBody (v : Version) (s : Suback) : Except WireError Bytes := do
  let id ← checkPacketId s.packetId
  let properties ← Property.encodeFor v s.properties
  let codes ← checkCodes (·.isSubackCode v) s.codes
  return Field.word16 id ++ properties ++ codes.map ReasonCode.value

def parseBody (v : Version) : Parse Suback := do
  let packetId ← Parse.packetId
  let properties ← Property.parseFor v
  let codes ← Parse.codes (·.isSubackCode v)
  return { packetId, properties, codes }

end Suback

/-- The request to receive messages no longer. -/
structure Unsubscribe where
  packetId : UInt16 := 0
  properties : List Property := []
  filters : List String := []
  deriving DecidableEq, Repr

namespace Unsubscribe

def encodeBody (v : Version) (u : Unsubscribe) : Except WireError Bytes := do
  let id ← checkPacketId u.packetId
  let filters ← checkNonempty u.filters
  let properties ← Property.encodeFor v u.properties
  return Field.word16 id ++ properties ++ (← encodeItems Field.text filters)

def parseBody (v : Version) : Parse Unsubscribe := do
  let packetId ← Parse.packetId
  let properties ← Property.parseFor v
  let filters ← checkNonempty (← Parse.many Parse.text)
  return { packetId, properties, filters }

end Unsubscribe

/-- The answer to UNSUBSCRIBE. Version 3.1.1 carries neither properties nor codes. -/
structure Unsuback where
  packetId : UInt16 := 0
  properties : List Property := []
  codes : List ReasonCode := []
  deriving DecidableEq, Repr

namespace Unsuback

def encodeBody (v : Version) (u : Unsuback) : Except WireError Bytes := do
  let id ← checkPacketId u.packetId
  let properties ← Property.encodeFor v u.properties
  match v with
  | .v5 =>
    let codes ← checkCodes (·.isDefined) u.codes
    return Field.word16 id ++ properties ++ codes.map ReasonCode.value
  | .v311 => if u.codes.isEmpty then return Field.word16 id else .error .unsupported

def parseBody (v : Version) : Parse Unsuback := do
  let packetId ← Parse.packetId
  let properties ← Property.parseFor v
  match v with
  | .v5 =>
    let codes ← Parse.codes (·.isDefined)
    return { packetId, properties, codes }
  | .v311 =>
    Parse.finish
    return { packetId, properties }

end Unsuback
end MqttClient
