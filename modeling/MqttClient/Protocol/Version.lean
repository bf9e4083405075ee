import MqttClient.Wire.Error

/-!
# Protocol versions and qualities of service
-/

namespace MqttClient

/-- The protocol versions in use. -/
inductive Version where
  /-- Version 3.1.1, level 4. -/
  | v311
  /-- Version 5.0, level 5. -/
  | v5
  deriving DecidableEq, Repr

instance : Inhabited Version := ⟨.v311⟩

namespace Version

/-- The level byte of the version in CONNECT. -/
def level : Version → UInt8
  | v311 => 4
  | v5 => 5

def ofLevel (level : UInt8) : Except WireError Version :=
  if level = 4 then .ok v311 else if level = 5 then .ok v5 else .error .invalidProtocol

/-- Whether packets carry properties and reason codes. -/
def isV5 (v : Version) : Bool :=
  v = v5

/-- Every version is told by its level. -/
theorem ofLevel_level (v : Version) : ofLevel v.level = .ok v := by
  cases v <;> rfl

end Version

/-- How often a message arrives. -/
inductive Qos where
  /-- At most once, without acknowledgment. -/
  | atMostOnce
  /-- At least once, acknowledged by PUBACK. -/
  | atLeastOnce
  /-- Exactly once, by PUBREC, PUBREL and PUBCOMP. -/
  | exactlyOnce
  deriving DecidableEq, Repr

instance : Inhabited Qos := ⟨.atMostOnce⟩

namespace Qos

def toByte : Qos → UInt8
  | atMostOnce => 0
  | atLeastOnce => 1
  | exactlyOnce => 2

def ofByte (b : UInt8) : Except WireError Qos :=
  if b = 0 then .ok atMostOnce
  else if b = 1 then .ok atLeastOnce
  else if b = 2 then .ok exactlyOnce
  else .error (.invalidQos b)

/-- Every quality of service is told by its byte. -/
theorem ofByte_toByte (q : Qos) : ofByte q.toByte = .ok q := by
  cases q <;> rfl

end Qos
end MqttClient
