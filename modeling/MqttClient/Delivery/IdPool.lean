import Std.Data.ExtTreeSet

/-!
# Packet identifiers

Identifiers run from 1 to 65535 and then begin again. One that is taken is passed over until it is
given back.
-/

namespace MqttClient

/-- The identifiers that are taken, and where the search for a free one begins. -/
structure IdPool where
  next : UInt16 := 1
  taken : Std.ExtTreeSet UInt16 := ∅

namespace IdPool

/-- The pool whose first identifier is `next`. -/
def startingAt (next : UInt16) : IdPool :=
  { next := max next 1 }

/-- The identifier after `id`. Zero is none. -/
def successor (id : UInt16) : UInt16 :=
  if id = 65535 then 1 else id + 1

/-- The first free identifier among `count` ones from `id` on. -/
def firstFree? (taken : Std.ExtTreeSet UInt16) : (count : Nat) → (id : UInt16) → Option UInt16
  | 0, _ => none
  | count + 1, id => if taken.contains id then firstFree? taken count (successor id) else some id

/-- Takes the first free identifier, unless all are taken. -/
def allocate? (p : IdPool) : Option (UInt16 × IdPool) :=
  (firstFree? p.taken 65535 p.next).map fun id => (id, ⟨successor id, p.taken.insert id⟩)

/-- Takes a given identifier, unless it is zero or taken. -/
def reserve? (p : IdPool) (id : UInt16) : Option IdPool :=
  if id = 0 || p.taken.contains id then none else some { p with taken := p.taken.insert id }

/-- Gives an identifier back. -/
def release (p : IdPool) (id : UInt16) : IdPool :=
  { p with taken := p.taken.erase id }

/-- Whether an identifier is taken. -/
def contains (p : IdPool) (id : UInt16) : Bool :=
  p.taken.contains id

/-- The number of identifiers that are taken. -/
def size (p : IdPool) : Nat :=
  p.taken.size

/-- Gives all identifiers back. The search goes on from where it is. -/
def clear (p : IdPool) : IdPool :=
  { p with taken := ∅ }

end IdPool
end MqttClient
