import MqttClient.Packet.Basic
import MqttClient.Session.Checksum

/-!
# Records

A record is a packet that waits for its acknowledgment, with a sequence number that gives its place
among the records of the client. It is stored as the checksum of what follows, the sequence number
and the encoding of the packet, and is read only if all of it is as it was written.
-/

namespace MqttClient

/-- A stored packet and its place. -/
structure Record where
  seq : UInt64
  packet : Packet
  deriving DecidableEq, Repr

namespace Record

/-- The stored form of an encoded packet at a place. -/
def encode (seq : UInt64) (packet : Bytes) : Bytes :=
  let content := Bytes.bigEndian 8 seq.toNat ++ packet
  Bytes.bigEndian 4 (Checksum.crc32 content).toNat ++ content

/-- The record of a stored form, or `none` if it is damaged. -/
def decode? (bytes : Bytes) (v : Version) : Option Record :=
  let content := bytes.drop 4
  if content.length < 8 then none
  else if bytes.take 4 ≠ Bytes.bigEndian 4 (Checksum.crc32 content).toNat then none
  else
    let packet := content.drop 8
    match Packet.decodeFirst packet v with
    | .ok (some (p, used)) =>
      if used = packet.length then some ⟨UInt64.ofNat (Bytes.toNat (content.take 8)), p⟩ else none
    | _ => none

/-- The packets that are stored. -/
inductive Kind where
  /-- PUBLISH. -/
  | message
  /-- PUBREL. -/
  | release
  deriving DecidableEq, Repr

/-- The last byte of the key of a record. -/
def Kind.mark : Kind → UInt8
  | message => 0x50
  | release => 0x52

/-- The kind and the packet identifier under which a packet is stored, if it is. -/
def slot? : Packet → Option (Kind × UInt16)
  | .publish p => if p.isAcknowledged then some (.message, p.packetId) else none
  | .pubrel a => some (.release, a.packetId)
  | _ => none

end Record
end MqttClient
