import MqttClient.Protocol.Property
import MqttClient.Protocol.ReasonCode

/-!
# CONNECT and CONNACK

CONNECT names its own protocol version and is written and read by it, whatever version is spoken
around it.
-/

namespace MqttClient

/-- The message that the server publishes when the client is lost. -/
structure Will where
  topic : String := ""
  payload : Bytes := []
  qos : Qos := .atMostOnce
  retain : Bool := false
  properties : List Property := []
  deriving DecidableEq, Repr

/-- The request to open a session. -/
structure Connect where
  version : Version := .v311
  clientId : String := ""
  /-- The longest silence in seconds. -/
  keepAlive : UInt16 := 0
  /-- Whether the session starts without what an earlier one left. -/
  cleanSession : Bool := false
  will : Option Will := none
  username : Option String := none
  password : Option Bytes := none
  properties : List Property := []
  deriving DecidableEq, Repr

/-- What the flags byte of CONNECT says about the rest of the packet. -/
structure ConnectFlags where
  /-- Whether there is a user name. -/
  username : Bool
  /-- Whether there is a password. -/
  password : Bool
  /-- The quality of service and the retain mark of the will, if there is one. -/
  will : Option (Qos × Bool)
  cleanSession : Bool
  deriving DecidableEq, Repr

namespace ConnectFlags

def toByte (f : ConnectFlags) : UInt8 :=
  let username : UInt8 := if f.username then 0x80 else 0x00
  let password : UInt8 := if f.password then 0x40 else 0x00
  let cleanSession : UInt8 := if f.cleanSession then 0x02 else 0x00
  let will : UInt8 :=
    match f.will with
    | none => 0x00
    | some (qos, retain) =>
      0x04 ||| (qos.toByte <<< (3 : UInt8)) ||| (if retain then 0x20 else 0x00)
  username ||| password ||| will ||| cleanSession

/-- The flags of a byte. The lowest bit is reserved, and without a will nothing is said about one.
-/
def ofByte (b : UInt8) : Except WireError ConnectFlags := do
  let hasWill : Bool := b &&& 0x04 ≠ 0
  let retain : Bool := b &&& 0x20 ≠ 0
  if b &&& 0x01 ≠ 0 then .error (.invalidFlags b)
  else
    let qos ← Qos.ofByte ((b &&& 0x18) >>> 3)
    if !hasWill && (qos ≠ .atMostOnce || retain) then .error (.invalidFlags b)
    else
      return {
        username := b &&& 0x80 ≠ 0
        password := b &&& 0x40 ≠ 0
        will := if hasWill then some (qos, retain) else none
        cleanSession := b &&& 0x02 ≠ 0 }

end ConnectFlags

namespace Will

def encode (v : Version) (w : Will) : Except WireError Bytes := do
  let properties ← Property.encodeFor v w.properties
  let topic ← Field.text w.topic
  let payload ← Field.binary w.payload
  return properties ++ topic ++ payload

/-- Reads a will whose quality of service and retain mark are known from the flags. -/
def parse (v : Version) (qos : Qos) (retain : Bool) : Parse Will := do
  let properties ← Property.parseFor v
  let topic ← Parse.text
  let payload ← Parse.binary
  return { topic, payload, qos, retain, properties }

/-- Reads a will if the flags speak of one. -/
def parse? (v : Version) : Option (Qos × Bool) → Parse (Option Will)
  | some (qos, retain) => return some (← parse v qos retain)
  | none => return none

end Will

namespace Connect

/-- The protocol name in front of the level. -/
def protocolName : String := "MQTT"

/-- The flags that say which fields are there. -/
def flags (c : Connect) : ConnectFlags where
  username := c.username.isSome
  password := c.password.isSome
  will := c.will.map fun w => (w.qos, w.retain)
  cleanSession := c.cleanSession

def encodeOption (encode : α → Except WireError Bytes) : Option α → Except WireError Bytes
  | some x => encode x
  | none => .ok []

/-- Reads a field if it is `present`. -/
def parseOption (value : Parse α) (present : Bool) : Parse (Option α) :=
  if present then return some (← value) else return none

def encodeBody (c : Connect) : Except WireError Bytes := do
  let name ← Field.text protocolName
  let properties ← Property.encodeFor c.version c.properties
  let clientId ← Field.text c.clientId
  let will ← encodeOption (Will.encode c.version) c.will
  let username ← encodeOption Field.text c.username
  let password ← encodeOption Field.binary c.password
  return name ++ [c.version.level, c.flags.toByte] ++ Field.word16 c.keepAlive ++ properties ++
    clientId ++ will ++ username ++ password

def parseBody : Parse Connect := do
  let name ← Parse.text
  Parse.require (name = protocolName) .invalidProtocol
  let version ← Version.ofLevel (← Parse.byte)
  let flags ← ConnectFlags.ofByte (← Parse.byte)
  let keepAlive ← Parse.word16
  let properties ← Property.parseFor version
  let clientId ← Parse.text
  let will ← Will.parse? version flags.will
  let username ← parseOption Parse.text flags.username
  let password ← parseOption Parse.binary flags.password
  Parse.finish
  return {
    version
    clientId
    keepAlive
    cleanSession := flags.cleanSession
    will
    username
    password
    properties }

end Connect

/-- The answer of the server to CONNECT. -/
structure Connack where
  /-- Whether the server kept an earlier session. -/
  sessionPresent : Bool := false
  code : ReasonCode := .success
  properties : List Property := []
  deriving DecidableEq, Repr

namespace Connack

/-- Whether the server accepted the connection. -/
def isAccepted (c : Connack) : Bool :=
  c.code.isSuccess

def encodeBody (v : Version) (c : Connack) : Except WireError Bytes := do
  let properties ← Property.encodeFor v c.properties
  return [if c.sessionPresent then 1 else 0, c.code.value] ++ properties

def parseBody (v : Version) : Parse Connack := do
  let flags ← Parse.byte
  Parse.require (flags &&& 0xFE = 0) (.invalidFlags flags)
  let code : ReasonCode := ⟨← Parse.byte⟩
  let code ← code.checked (code.isConnackCode v)
  let properties ← Property.parseFor v
  Parse.finish
  return { sessionPresent := flags &&& 0x01 ≠ 0, code, properties }

end Connack
end MqttClient
