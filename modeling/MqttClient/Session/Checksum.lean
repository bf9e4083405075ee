import MqttClient.Wire.Bytes

/-!
# CRC-32

The cyclic redundancy check of IEEE 802.3 over bytes, low bit first. A shift with feedback is a
bijection of the remainders, so a change of a single byte always shows.
-/

namespace MqttClient.Checksum

/-- The generator polynomial, its bits reversed. -/
def polynomial : UInt32 := 0xEDB88320

/-- Takes the lowest bit out of the remainder, and adds the polynomial if it was set. -/
def shift (c : UInt32) : UInt32 :=
  if c &&& 1 = 1 then (c >>> 1) ^^^ polynomial else c >>> 1

/-- The remainder behind another byte, bit by bit. -/
def absorb (c : UInt32) (b : UInt8) : UInt32 :=
  Nat.repeat shift 8 (c ^^^ b.toUInt32)

/-- The checksum of bytes: the remainder behind them from all ones on, its bits turned over. -/
def crc32 (bytes : Bytes) : UInt32 :=
  bytes.foldl absorb 0xFFFFFFFF ^^^ 0xFFFFFFFF

end MqttClient.Checksum
