import MqttClient.Wire.Bytes

/-!
# Faults of the wire format

Every way in which a packet can fail to be written or read, and the sentence that reports it.
-/

namespace MqttClient

/-- Why a packet cannot be written or read. -/
inductive WireError where
  /-- The input ends inside a field. -/
  | truncated
  /-- A text field is not UTF-8. -/
  | invalidUtf8
  /-- No packet type has this number in the protocol version. -/
  | unknownPacketType (nibble : UInt8)
  /-- Bytes are left over after the last field. -/
  | lengthMismatch
  /-- A variable byte integer goes on after four bytes. -/
  | malformedVarInt
  /-- No property has this identifier. -/
  | unknownProperty (identifier : UInt8)
  /-- A quality of service is none of 0, 1 and 2. -/
  | invalidQos (value : UInt8)
  /-- A reason code has no meaning in its place. -/
  | invalidReasonCode (code : UInt8)
  /-- Reserved bits of a header or flags byte are wrong. -/
  | invalidFlags (flags : UInt8)
  /-- The protocol name or level is not supported. -/
  | invalidProtocol
  /-- A message has no topic. -/
  | emptyTopic
  /-- A packet identifier is zero. -/
  | invalidPacketId
  /-- A subscription request names no filter. -/
  | emptyPayload
  /-- A value exceeds its representation. -/
  | tooLarge
  /-- The protocol version has no place for the content. -/
  | unsupported
  deriving DecidableEq, Repr, Inhabited

def WireError.message : WireError → String
  | truncated => "truncated frame"
  | invalidUtf8 => "invalid UTF-8 string"
  | unknownPacketType nibble => s!"unknown packet type {nibble}"
  | lengthMismatch => "length mismatch"
  | malformedVarInt => "malformed variable byte integer"
  | unknownProperty identifier => "unknown property 0x" ++ Bytes.hexDigits identifier
  | invalidQos value => s!"invalid QoS {value}"
  | invalidReasonCode code => "invalid reason code 0x" ++ Bytes.hexDigits code
  | invalidFlags flags => "invalid flags 0x" ++ Bytes.hexDigits flags
  | invalidProtocol => "invalid protocol name or level"
  | emptyTopic => "empty topic name"
  | invalidPacketId => "invalid packet identifier"
  | emptyPayload => "no topic filters"
  | tooLarge => "value too large to encode"
  | unsupported => "unsupported for protocol version"

end MqttClient
