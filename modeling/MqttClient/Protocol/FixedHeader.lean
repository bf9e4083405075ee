import MqttClient.Protocol.PacketType

/-!
# The first byte of a packet

Its high half numbers the packet type. In PUBLISH the low half holds the duplicate mark, the quality
of service and the retain mark; each can be replaced without touching the others.
-/

namespace MqttClient

/-- The first byte of a packet. -/
structure FixedHeader where
  /-- The byte itself. -/
  bits : UInt8
  deriving DecidableEq, Repr

namespace FixedHeader

/-- The first byte of a packet type, all free marks off. -/
def ofType (t : PacketType) : FixedHeader :=
  ⟨(t.nibble <<< (4 : UInt8)) ||| t.requiredFlags.getD 0⟩

def typeNibble (h : FixedHeader) : UInt8 :=
  h.bits >>> 4

/-- The low half of the byte. -/
def flagNibble (h : FixedHeader) : UInt8 :=
  h.bits &&& 0x0F

def packetType (h : FixedHeader) : Except WireError PacketType :=
  PacketType.ofNibble h.typeNibble

def dup (h : FixedHeader) : Bool :=
  h.bits &&& 0x08 ≠ 0

def qos (h : FixedHeader) : Except WireError Qos :=
  Qos.ofByte ((h.bits &&& 0x06) >>> 1)

def retain (h : FixedHeader) : Bool :=
  h.bits &&& 0x01 ≠ 0

def withDup (h : FixedHeader) (dup : Bool) : FixedHeader :=
  ⟨(h.bits &&& 0xF7) ||| (if dup then 0x08 else 0x00 : UInt8)⟩

def withQos (h : FixedHeader) (qos : Qos) : FixedHeader :=
  ⟨(h.bits &&& 0xF9) ||| (qos.toByte <<< (1 : UInt8))⟩

def withRetain (h : FixedHeader) (retain : Bool) : FixedHeader :=
  ⟨(h.bits &&& 0xFE) ||| (if retain then 0x01 else 0x00 : UInt8)⟩

/-- The low half must be the one that the packet type fixes. -/
def check (h : FixedHeader) (t : PacketType) : Except WireError Unit :=
  match t.requiredFlags with
  | some flags => if flags = h.flagNibble then .ok () else .error (.invalidFlags h.bits)
  | none => .ok ()

end FixedHeader
end MqttClient
