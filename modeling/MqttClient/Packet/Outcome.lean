import MqttClient.Protocol.Property
import MqttClient.Protocol.ReasonCode

/-!
# Outcomes

Acknowledgments, DISCONNECT and AUTH of version 5.0 end with an outcome: a reason code and a block
of properties. A packet may leave out an empty block, and success as well. An outcome remembers
when it was written at greater length than its content asks for, so that writing it again gives the
same bytes.
-/

namespace MqttClient

/-- How much of an outcome is written at least. -/
inductive Extent where
  /-- No more than the content asks for. -/
  | minimal
  /-- The reason code. -/
  | code
  /-- The reason code and the block of properties. -/
  | full
  deriving DecidableEq, Repr

namespace Extent

/-- The extents from the least to the greatest. -/
def rank : Extent → Nat
  | minimal => 0
  | code => 1
  | full => 2

/-- The greater one of two extents. -/
def sup (a b : Extent) : Extent :=
  if a.rank ≤ b.rank then b else a

/-- The extent that a reason code and properties ask for. -/
def required (reason : ReasonCode) (properties : List Property) : Extent :=
  if !properties.isEmpty then full else if reason.isSuccess then minimal else code

end Extent

/-- The outcome that a packet reports. -/
structure Outcome where
  /-- The reason code. -/
  reason : ReasonCode := .success
  /-- Further properties. -/
  properties : List Property := []
  /-- The extent in which it is written at least. -/
  extent : Extent := .minimal
  deriving DecidableEq, Repr

namespace Outcome

instance : Inhabited Outcome := ⟨{}⟩

/-- Success without properties, the only outcome of version 3.1.1. -/
def isPlain (o : Outcome) : Bool :=
  o.reason.isSuccess && o.properties.isEmpty

def encode (o : Outcome) : Except WireError Bytes :=
  match o.extent.sup (.required o.reason o.properties) with
  | .minimal => .ok []
  | .code => .ok [o.reason.value]
  | .full => return o.reason.value :: (← Property.encodeBlock o.properties)

/-- The outcome of a packet of the version. -/
def encodeFor (v : Version) (o : Outcome) : Except WireError Bytes :=
  match v with
  | .v5 => o.encode
  | .v311 => if o.isPlain then .ok [] else .error .unsupported

/-- The outcome that was seen in the given extent, which is kept only where the content does not ask
for it anyway. -/
def seen (reason : ReasonCode) (properties : List Property) (extent : Extent) : Outcome :=
  let needed := Extent.required reason properties
  ⟨reason, properties, if needed.rank < extent.rank then extent else .minimal⟩

/-- Reads an outcome of version 5.0 to the end of the input. -/
def parse : Parse Outcome := do
  if ← Parse.atEnd then
    return {}
  let code ← Parse.byte
  let reason ← (ReasonCode.mk code).checked (ReasonCode.mk code).isDefined
  if ← Parse.atEnd then
    return seen reason [] .code
  let properties ← Property.parseBlock
  Parse.finish
  return seen reason properties .full

/-- Reads the outcome of a packet of the version to the end of the input. -/
def parseFor : Version → Parse Outcome
  | .v5 => parse
  | .v311 => do
    Parse.finish
    return {}

end Outcome
end MqttClient
