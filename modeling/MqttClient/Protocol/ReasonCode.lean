import MqttClient.Protocol.Version

/-!
# Reason codes

One byte that reports the outcome of a request. The meaning of a code depends on the packet that
carries it, so a code is a byte, with a predicate for each set of codes that some packet admits.
-/

namespace MqttClient

/-- A reason code. -/
structure ReasonCode where
  /-- The byte of the code. -/
  value : UInt8
  deriving DecidableEq, Repr

namespace ReasonCode

def success : ReasonCode := ⟨0⟩

def continueAuthentication : ReasonCode := ⟨0x18⟩

/-- The client starts a new authentication exchange. -/
def reAuthenticate : ReasonCode := ⟨0x19⟩

instance : Inhabited ReasonCode := ⟨success⟩

/-- Whether the code is the one of success. -/
def isSuccess (c : ReasonCode) : Bool :=
  c.value = 0

/-- Whether the code reports a failure. -/
def isError (c : ReasonCode) : Bool :=
  0x80 ≤ c.value

/-- The quality of service that the code grants to a subscription. -/
def grantedQos? (c : ReasonCode) : Option Qos :=
  (Qos.ofByte c.value).toOption

/-- The code that grants a quality of service. -/
def granted (qos : Qos) : ReasonCode :=
  ⟨qos.toByte⟩

/-- Whether version 5.0 defines the code. -/
def isDefined (c : ReasonCode) : Bool :=
  c.value ∈ [0x00, 0x01, 0x02, 0x04, 0x10, 0x11, 0x18, 0x19] || (0x80 ≤ c.value && c.value ≤ 0xA2)

/-- Whether CONNACK may carry the code. -/
def isConnackCode (c : ReasonCode) : Version → Bool
  | .v311 => c.value ≤ 5
  | .v5 => c.isDefined

/-- Whether SUBACK may carry the code. -/
def isSubackCode (c : ReasonCode) : Version → Bool
  | .v311 => c.value ∈ [0x00, 0x01, 0x02, 0x80]
  | .v5 => c.isDefined

/-- Whether AUTH may carry the code. -/
def isAuthCode (c : ReasonCode) : Bool :=
  c = success || c = continueAuthentication || c = reAuthenticate

/-- Keeps the code if it is `admitted`. -/
def checked (c : ReasonCode) (admitted : Bool) : Except WireError ReasonCode :=
  if admitted then .ok c else .error (.invalidReasonCode c.value)

def text (c : ReasonCode) : String :=
  "0x" ++ Bytes.hexDigits c.value

end ReasonCode
end MqttClient
