import MqttClient.Wire.Bytes
import Mathlib.Tactic.Common

/-!
# Exact arithmetic

Words run over without a sign, and a difference of sizes that would be negative is zero. The
operations here have a result only if it is the exact one. A loop that is repeated with them has a
result exactly if it never ran over on its way.
-/

namespace MqttClient.Exact
variable {m n : UInt32}

/-- The sum of two words, unless it runs over. -/
def sum? (m n : UInt32) : Option UInt32 :=
  if m.toNat + n.toNat < 4294967296 then some (m + n) else none

/-- The product of two words, unless it runs over. -/
def product? (m n : UInt32) : Option UInt32 :=
  if m.toNat * n.toNat < 4294967296 then some (m * n) else none

/-- The difference of two sizes, unless it is negative. -/
def difference? (m n : Nat) : Option Nat :=
  if n ≤ m then some (m - n) else none

/-- A word as a byte, unless it takes more than one. -/
def byte? (n : UInt32) : Option UInt8 :=
  if n.toNat < 256 then some n.toUInt8 else none

/-- A sum that fits a word is the sum of the numbers. -/
lemma toNat_add (lt : m.toNat + n.toNat < 4294967296) : (m + n).toNat = m.toNat + n.toNat := by
  rw [UInt32.toNat_add]
  exact Nat.mod_eq_of_lt lt

/-- A product that fits a word is the product of the numbers. -/
lemma toNat_mul (lt : m.toNat * n.toNat < 4294967296) : (m * n).toNat = m.toNat * n.toNat := by
  rw [UInt32.toNat_mul]
  exact Nat.mod_eq_of_lt lt

end MqttClient.Exact
