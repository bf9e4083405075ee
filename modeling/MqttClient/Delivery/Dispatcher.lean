import MqttClient.Delivery.Courier

/-!
# Dispatch

A dispatcher puts the packets of a courier into an outbox and keeps a timer that has them sent
again. The timer runs from an operation that leaves packets in flight to one that leaves none, and
ticks once in every retry interval. Operations are told two times: the time on the clock of the
courier, and the time by which the timer ticks.
-/

namespace MqttClient

/-- A timer that runs. -/
structure RetryTimer where
  /-- When the timer ticks next. -/
  next : Nat
  /-- The time between two ticks. -/
  period : Nat
  deriving DecidableEq, Repr

/-- A courier with an outbox and a timer. -/
structure Dispatcher (σ : Type) where
  courier : Courier σ
  /-- Whether a timer can run. -/
  hasTimers : Bool := true
  timer : Option RetryTimer := none
  /-- The packets that nobody has taken yet, oldest first. -/
  outbox : Fifo Packet := .empty
  /-- Whether packets still go into the outbox. -/
  outboxOpen : Bool := true

namespace Dispatcher
variable {σ : Type}

/-- Puts packets into the outbox, if it is open. -/
def send (d : Dispatcher σ) (packets : List Packet) : Dispatcher σ :=
  if d.outboxOpen then { d with outbox := d.outbox.pushAll packets } else d

/-- The packets that are to be written, which are taken out. -/
def takeOutbox (d : Dispatcher σ) : List Packet × Dispatcher σ :=
  (d.outbox.toList, { d with outbox := .empty })

/-- Closes the outbox. Packets that are in it are lost. -/
def closeOutbox (d : Dispatcher σ) : Dispatcher σ :=
  { d with outbox := .empty, outboxOpen := false }

/-- Stops the timer if nothing is in flight, and starts one otherwise unless one runs. -/
def rearm (d : Dispatcher σ) (time : Nat) : Dispatcher σ :=
  if !d.courier.isArmed then { d with timer := none }
  else if d.timer.isSome || !d.hasTimers then d
  else
    let period := (max d.courier.settings.retryInterval 1).toNat
    { d with timer := some ⟨time + period, period⟩ }

/-- Goes on with a courier that has packets to send. -/
def proceed (d : Dispatcher σ) (time : Nat) : List Packet × Courier σ → Dispatcher σ
  | (sent, courier) => ({ d with courier }.send sent).rearm time

/-- Stops the timer, until an operation starts another one. -/
def shutDown (d : Dispatcher σ) : Dispatcher σ :=
  { d with timer := none }

variable [RecordStore σ]

def enqueue (d : Dispatcher σ) (m : Publish) (now : Instant) (time : Nat) :
    Except DeliveryError Unit × Dispatcher σ :=
  match d.courier.enqueue m now with
  | (.ok sent, courier) => (.ok (), d.proceed time (sent, courier))
  | (.error e, courier) => (.error e, { d with courier })

def acknowledge (d : Dispatcher σ) (id : UInt16) (kind : AckKind) (now : Instant) (time : Nat) :
    Dispatcher σ :=
  d.proceed time (d.courier.acknowledge id kind now)

def connected (d : Dispatcher σ) (cleanSession : Bool) (now : Instant) (time : Nat) :
    Dispatcher σ :=
  d.proceed time (d.courier.connected cleanSession now)

def recover (d : Dispatcher σ) (now : Instant) (time : Nat) : Dispatcher σ :=
  d.proceed time (d.courier.recover now)

def cleanAll (d : Dispatcher σ) (time : Nat) : Dispatcher σ :=
  { d with courier := d.courier.cleanAll }.rearm time

/-- Takes a packet identifier for a subscription. -/
def nextPacketId (d : Dispatcher σ) : Except DeliveryError UInt16 × Dispatcher σ :=
  match d.courier.nextPacketId with
  | (result, courier) => (result, { d with courier })

/-- Gives the identifier of a subscription back. -/
def releasePacketId (d : Dispatcher σ) (id : UInt16) : Dispatcher σ :=
  { d with courier := d.courier.releasePacketId id }

/-- A tick of the timer: packets that are due are sent again. -/
def tick (d : Dispatcher σ) (timer : RetryTimer) (now : Instant) : Dispatcher σ :=
  if !d.courier.isArmed then { d with timer := none }
  else
    match d.courier.retry now with
    | (sent, courier) =>
      { d with courier, timer := some { timer with next := timer.next + timer.period } }.send sent

/-- Lets the timer tick at most `fuel` times up to and including the time `limit`. The clock gives
the time on the courier's clock at the time of a tick. -/
def elapseWithin (clock : Nat → Instant) (limit : Nat) : (fuel : Nat) → Dispatcher σ → Dispatcher σ
  | 0, d => d
  | fuel + 1, d =>
    match d.timer with
    | none => d
    | some timer =>
      if limit < timer.next then d
      else elapseWithin clock limit fuel (d.tick timer (clock timer.next))

/-- Lets time pass from `start` to `limit`. Ticks are a millisecond apart at least. -/
def elapse (d : Dispatcher σ) (clock : Nat → Instant) (start limit : Nat) : Dispatcher σ :=
  d.elapseWithin clock limit (limit - start + 1)

end Dispatcher
end MqttClient
