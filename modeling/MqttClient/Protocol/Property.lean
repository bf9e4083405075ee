import MqttClient.Protocol.Version
import MqttClient.Wire.Field

/-!
# Properties

A property is a one byte identifier and a value; the identifier tells the data type of the value. A
packet holds its properties in one block behind the size of the block, and the block is read on its
own: a value that reaches past its end is a fault, whatever follows.
-/

namespace MqttClient

/-- The properties whose value is one byte. -/
inductive ByteProperty where
  | payloadFormatIndicator
  | requestProblemInformation
  | requestResponseInformation
  | maximumQos
  | retainAvailable
  | wildcardSubscriptionAvailable
  | subscriptionIdentifierAvailable
  | sharedSubscriptionAvailable
  deriving DecidableEq, Repr

/-- The properties whose value is a two byte integer. -/
inductive Word16Property where
  | serverKeepAlive
  | receiveMaximum
  | topicAliasMaximum
  | topicAlias
  deriving DecidableEq, Repr

/-- The properties whose value is a four byte integer. -/
inductive Word32Property where
  | messageExpiryInterval
  | sessionExpiryInterval
  | willDelayInterval
  | maximumPacketSize
  deriving DecidableEq, Repr

/-- The properties whose value is a text. -/
inductive TextProperty where
  | contentType
  | responseTopic
  | assignedClientIdentifier
  | authenticationMethod
  | responseInformation
  | serverReference
  | reasonString
  deriving DecidableEq, Repr

/-- The properties whose value is binary data. -/
inductive BinaryProperty where
  | correlationData
  | authenticationData
  deriving DecidableEq, Repr

/-- A property of a packet, by the data type of its value. -/
inductive Property where
  | byte (name : ByteProperty) (value : UInt8)
  | word16 (name : Word16Property) (value : UInt16)
  | word32 (name : Word32Property) (value : UInt32)
  | subscriptionIdentifier (value : UInt32)
  | text (name : TextProperty) (value : String)
  | binary (name : BinaryProperty) (value : Bytes)
  | user (key value : String)
  deriving DecidableEq, Repr

namespace Property

/-- What an identifier tells: the data type of the value, and which property of that type. -/
inductive Kind where
  | byte (name : ByteProperty)
  | word16 (name : Word16Property)
  | word32 (name : Word32Property)
  | subscriptionIdentifier
  | text (name : TextProperty)
  | binary (name : BinaryProperty)
  | user
  deriving DecidableEq, Repr

namespace Kind

def identifier : Kind → UInt8
  | byte .payloadFormatIndicator => 0x01
  | word32 .messageExpiryInterval => 0x02
  | text .contentType => 0x03
  | text .responseTopic => 0x08
  | binary .correlationData => 0x09
  | subscriptionIdentifier => 0x0B
  | word32 .sessionExpiryInterval => 0x11
  | text .assignedClientIdentifier => 0x12
  | word16 .serverKeepAlive => 0x13
  | text .authenticationMethod => 0x15
  | binary .authenticationData => 0x16
  | byte .requestProblemInformation => 0x17
  | word32 .willDelayInterval => 0x18
  | byte .requestResponseInformation => 0x19
  | text .responseInformation => 0x1A
  | text .serverReference => 0x1C
  | text .reasonString => 0x1F
  | word16 .receiveMaximum => 0x21
  | word16 .topicAliasMaximum => 0x22
  | word16 .topicAlias => 0x23
  | byte .maximumQos => 0x24
  | byte .retainAvailable => 0x25
  | user => 0x26
  | word32 .maximumPacketSize => 0x27
  | byte .wildcardSubscriptionAvailable => 0x28
  | byte .subscriptionIdentifierAvailable => 0x29
  | byte .sharedSubscriptionAvailable => 0x2A

/-- All kinds in the order of their identifiers. -/
def all : List Kind :=
  [byte .payloadFormatIndicator, word32 .messageExpiryInterval, text .contentType,
    text .responseTopic, binary .correlationData, subscriptionIdentifier,
    word32 .sessionExpiryInterval, text .assignedClientIdentifier, word16 .serverKeepAlive,
    text .authenticationMethod, binary .authenticationData, byte .requestProblemInformation,
    word32 .willDelayInterval, byte .requestResponseInformation, text .responseInformation,
    text .serverReference, text .reasonString, word16 .receiveMaximum, word16 .topicAliasMaximum,
    word16 .topicAlias, byte .maximumQos, byte .retainAvailable, user, word32 .maximumPacketSize,
    byte .wildcardSubscriptionAvailable, byte .subscriptionIdentifierAvailable,
    byte .sharedSubscriptionAvailable]

/-- The kind of an identifier, if it has one. -/
def ofIdentifier? (identifier : UInt8) : Option Kind :=
  all.find? fun k => k.identifier = identifier

def name : Kind → String
  | byte .payloadFormatIndicator => "PayloadFormatIndicator"
  | word32 .messageExpiryInterval => "MessageExpiryInterval"
  | text .contentType => "ContentType"
  | text .responseTopic => "ResponseTopic"
  | binary .correlationData => "CorrelationData"
  | subscriptionIdentifier => "SubscriptionIdentifier"
  | word32 .sessionExpiryInterval => "SessionExpiryInterval"
  | text .assignedClientIdentifier => "AssignedClientIdentifier"
  | word16 .serverKeepAlive => "ServerKeepAlive"
  | text .authenticationMethod => "AuthenticationMethod"
  | binary .authenticationData => "AuthenticationData"
  | byte .requestProblemInformation => "RequestProblemInformation"
  | word32 .willDelayInterval => "WillDelayInterval"
  | byte .requestResponseInformation => "RequestResponseInformation"
  | text .responseInformation => "ResponseInformation"
  | text .serverReference => "ServerReference"
  | text .reasonString => "ReasonString"
  | word16 .receiveMaximum => "ReceiveMaximum"
  | word16 .topicAliasMaximum => "TopicAliasMaximum"
  | word16 .topicAlias => "TopicAlias"
  | byte .maximumQos => "MaximumQoS"
  | byte .retainAvailable => "RetainAvailable"
  | user => "UserProperty"
  | word32 .maximumPacketSize => "MaximumPacketSize"
  | byte .wildcardSubscriptionAvailable => "WildcardSubscriptionAvailable"
  | byte .subscriptionIdentifierAvailable => "SubscriptionIdentifierAvailable"
  | byte .sharedSubscriptionAvailable => "SharedSubscriptionAvailable"

/-- The kind of a name, if it has one. -/
def ofName? (name : String) : Option Kind :=
  all.find? fun k => k.name = name

/-- Every kind of property is told by its identifier. -/
theorem ofIdentifier?_identifier (k : Kind) : ofIdentifier? k.identifier = some k := by
  rcases k with ⟨⟨⟩⟩ | ⟨⟨⟩⟩ | ⟨⟨⟩⟩ | _ | ⟨⟨⟩⟩ | ⟨⟨⟩⟩ | _ <;> rfl

end Kind

def kind : Property → Kind
  | byte name _ => .byte name
  | word16 name _ => .word16 name
  | word32 name _ => .word32 name
  | subscriptionIdentifier _ => .subscriptionIdentifier
  | text name _ => .text name
  | binary name _ => .binary name
  | user _ _ => .user

/-- The value of a property behind its identifier. -/
def encodeValue : Property → Except WireError Bytes
  | byte _ value => .ok [value]
  | word16 _ value => .ok (Field.word16 value)
  | word32 _ value => .ok (Field.word32 value)
  | subscriptionIdentifier value => VarInt.encode value
  | text _ value => Field.text value
  | binary _ value => Field.binary value
  | user key value => return (← Field.text key) ++ (← Field.text value)

/-- A property: its identifier and its value. -/
def encode (p : Property) : Except WireError Bytes :=
  return p.kind.identifier :: (← p.encodeValue)

/-- The value of a property of a kind. -/
def parseValue : Kind → Parse Property
  | .byte name => return .byte name (← Parse.byte)
  | .word16 name => return .word16 name (← Parse.word16)
  | .word32 name => return .word32 name (← Parse.word32)
  | .subscriptionIdentifier => return .subscriptionIdentifier (← Parse.varInt)
  | .text name => return .text name (← Parse.text)
  | .binary name => return .binary name (← Parse.binary)
  | .user => return .user (← Parse.text) (← Parse.text)

/-- A property: an identifier that is known and a value of its kind. -/
def parse : Parse Property := do
  let identifier ← Parse.byte
  match Kind.ofIdentifier? identifier with
  | some kind => parseValue kind
  | none => throw (.unknownProperty identifier)

/-- Properties one after the other. -/
def encodeAll : List Property → Except WireError Bytes
  | [] => .ok []
  | p :: ps => return (← p.encode) ++ (← encodeAll ps)

/-- The properties behind the size of their block. -/
def encodeBlock (ps : List Property) : Except WireError Bytes := do
  let block ← encodeAll ps
  return (← Field.count block.length) ++ block

/-- A block of properties behind its size, which is read to its end. -/
def parseBlock : Parse (List Property) := do
  let size ← Parse.varInt
  let block ← Parse.take size.toNat
  Parse.items parse block

/-- The block of a packet. Version 3.1.1 has none, and no property fits in there. -/
def encodeFor (v : Version) (ps : List Property) : Except WireError Bytes :=
  match v with
  | .v5 => encodeBlock ps
  | .v311 => if ps.isEmpty then .ok [] else .error .unsupported

/-- Reads the block of a packet. Version 3.1.1 has none. -/
def parseFor : Version → Parse (List Property)
  | .v5 => parseBlock
  | .v311 => return []

end Property
end MqttClient
