import MqttClient.Packet.Connect

/-!
# Settings

The limits and times of delivery, and the options of a connection.
-/

namespace MqttClient

/-- Limits and times of delivery. -/
structure Settings where
  /-- The most messages that wait for an acknowledgment. -/
  inflightWindow : UInt16 := 10
  /-- The most messages that are held in all. -/
  queueCapacity : UInt16 := 1000
  /-- The time in milliseconds after which a packet is sent again. -/
  retryInterval : UInt64 := 5000
  /-- The version in which packets are written. -/
  version : Version := .v311
  deriving DecidableEq, Repr

/-- Why settings are refused. -/
inductive SettingsError where
  /-- The text is no settings document. -/
  | malformed
  /-- The value of a field is out of range. -/
  | invalid (field : String)
  deriving DecidableEq, Repr

def SettingsError.message : SettingsError → String
  | malformed => "malformed configuration"
  | invalid field => "invalid value for `" ++ field ++ "`"

namespace Settings

instance : Inhabited Settings := ⟨{}⟩

/-- No limit and no time is zero. -/
def check (s : Settings) : Except SettingsError Settings :=
  if s.inflightWindow = 0 then .error (.invalid "inflight_window")
  else if s.queueCapacity = 0 then .error (.invalid "queue_capacity")
  else if s.retryInterval = 0 then .error (.invalid "retry_interval_ms")
  else .ok s

end Settings

/-- The options of a connection. -/
structure ConnectOptions where
  version : Version := .v311
  clientId : String
  /-- The longest silence in seconds. -/
  keepAlive : UInt16 := 60
  cleanSession : Bool := true
  will : Option Will := none
  username : Option String := none
  password : Option Bytes := none
  properties : List Property := []
  deriving DecidableEq, Repr

/-- The packet that opens a session with the options. -/
def ConnectOptions.toConnect (o : ConnectOptions) : Connect where
  version := o.version
  clientId := o.clientId
  keepAlive := o.keepAlive
  cleanSession := o.cleanSession
  will := o.will
  username := o.username
  password := o.password
  properties := o.properties

end MqttClient
