/-!
# Points in time

Time is counted in milliseconds from an origin that each clock has for itself. Differences and sums
stop at the ends of the range.
-/

namespace MqttClient

/-- A point in time. -/
structure Instant where
  /-- Milliseconds since the origin. -/
  millis : UInt64
  deriving DecidableEq, Repr

namespace Instant

def origin : Instant := ⟨0⟩

instance : Inhabited Instant := ⟨origin⟩

/-- The milliseconds from `earlier` to `t`, none if `earlier` is later. -/
def since (t earlier : Instant) : UInt64 :=
  if t.millis ≤ earlier.millis then 0 else t.millis - earlier.millis

/-- The last point in time. -/
def latest : Instant := ⟨18446744073709551615⟩

/-- The point in time `ms` milliseconds later. -/
def later (t : Instant) (ms : UInt64) : Instant :=
  if latest.millis - t.millis < ms then latest else ⟨t.millis + ms⟩

/-- Whether `t` comes before `u`. -/
def before (t u : Instant) : Bool :=
  t.millis < u.millis

def text (t : Instant) : String :=
  s!"{t.millis}ms"

end Instant

/-- A clock that moves only when it is told to. -/
structure HandClock where
  now : Instant := .origin
  deriving DecidableEq, Repr

namespace HandClock

/-- Moves the clock on. Past the end of the range it begins again. -/
def advance (c : HandClock) (ms : UInt64) : HandClock :=
  ⟨⟨c.now.millis + ms⟩⟩

def set (_ : HandClock) (t : Instant) : HandClock :=
  ⟨t⟩

end HandClock
end MqttClient
