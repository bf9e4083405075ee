import MqttClient.Delivery.Archive
import MqttClient.Delivery.Fifo
import MqttClient.Delivery.IdPool
import MqttClient.Delivery.Inflight
import MqttClient.Settings.Basic

/-!
# Delivery

A courier takes messages for delivery and says which packets are to be sent. Messages without
acknowledgment pass at once. The others wait in a queue until the window has room, get a packet
identifier and are in flight until their handshake ends:

* quality of service 1: PUBLISH, then PUBACK ends it;
* quality of service 2: PUBLISH, PUBREC, PUBREL, then PUBCOMP ends it.

What is in flight is kept in the archive. A courier that begins on the archive of an earlier one
takes up its packets before it does anything else.
-/

namespace MqttClient

/-- Why a message is not taken. -/
inductive DeliveryError where
  /-- As many messages are held as the capacity allows. -/
  | queueFull
  /-- No packet identifier is free. -/
  | packetIdsExhausted
  /-- The message cannot be sent. -/
  | invalidMessage
  deriving DecidableEq, Repr

def DeliveryError.message : DeliveryError → String
  | queueFull => "message queue full"
  | packetIdsExhausted => "no free packet identifier"
  | invalidMessage => "invalid message"

/-- The state of delivery. -/
structure Courier (σ : Type) where
  settings : Settings
  /-- The messages that wait for the window, oldest first. -/
  queue : Fifo Publish
  /-- The packets in flight, in the order in which their messages were first sent. -/
  window : Fifo Inflight
  ids : IdPool
  archive : Archive σ
  /-- Whether the packets of the archive were taken up. -/
  restored : Bool

namespace Courier
variable {σ : Type}

/-- A courier without archive. -/
def volatile (settings : Settings) : Courier σ :=
  ⟨settings, .empty, .empty, {}, .absent, true⟩

/-- A courier with a journal. -/
def withJournal (settings : Settings) (j : Journal) (s : σ) : Courier σ :=
  ⟨settings, .empty, .empty, {}, .active j s, false⟩

/-- The number of messages that wait or are in flight. -/
def pending (c : Courier σ) : Nat :=
  c.queue.size + c.window.size

/-- Whether packets are in flight, so that they may have to be sent again. -/
def isArmed (c : Courier σ) : Bool :=
  !c.window.isEmpty

/-- Whether packets in flight are kept in the archive. -/
def isPersistent (c : Courier σ) : Bool :=
  c.archive.isActive

/-- The most packets that are in flight at once. -/
def capacity (settings : Settings) : Nat :=
  (max settings.inflightWindow 1).toNat

/-- Takes up a packet of the archive. A packet whose identifier is missing or taken is left out. -/
def takeUp (now : Instant) (c : Courier σ) (p : Packet) : Courier σ :=
  match p.packetId?.bind c.ids.reserve? with
  | none => c
  | some ids => { c with ids, window := c.window.push ⟨p, now⟩ }

variable [RecordStore σ]

/-- Takes up the packets of the archive, the first time it is asked to. -/
def restore (c : Courier σ) (now : Instant) : Courier σ :=
  if c.restored then c
  else
    match c.archive.readAll with
    | (packets, archive) => packets.foldl (takeUp now) { c with archive, restored := true }

/-- Moves messages from the front of the queue into the window while there is `room`, and tells
which packets are to be sent. -/
def fill (now : Instant) : (room : Nat) → Courier σ → List Packet × Courier σ
  | 0, c => ([], c)
  | room + 1, c =>
    match c.ids.allocate? with
    | none => ([], c)
    | some (id, ids) =>
      match c.queue.pop? with
      | none => ([], c)
      | some (m, queue) =>
        let packet : Packet := .publish { m with packetId := id }
        let c := { c with
          queue
          ids
          archive := c.archive.save packet
          window := c.window.push ⟨packet, now⟩ }
        match fill now room c with
        | (sent, c) => (packet :: sent, c)

/-- Moves as many messages into the window as it has room for. -/
def drain (c : Courier σ) (now : Instant) : List Packet × Courier σ :=
  c.fill now (capacity c.settings - c.window.size)

/-- Takes a message for delivery. Its mark of being sent before and its packet identifier are the
courier's to set. -/
def enqueue (c : Courier σ) (m : Publish) (now : Instant) :
    Except DeliveryError (List Packet) × Courier σ :=
  if m.topic.isEmpty then (.error .invalidMessage, c)
  else
    let c := c.restore now
    if c.settings.queueCapacity.toNat ≤ c.pending then (.error .queueFull, c)
    else
      let m := { m with dup := false, packetId := 0 }
      if m.isAcknowledged then
        match { c with queue := c.queue.push m }.drain now with
        | (sent, c) => (.ok sent, c)
      else (.ok [.publish m], c)

/-- Splits a window at the first packet with an identifier that waits for an acknowledgment of a
kind. -/
def splitAt? (id : UInt16) (kind : AckKind) :
    List Inflight → Option (List Inflight × Inflight × List Inflight)
  | [] => none
  | e :: window =>
    if e.packetId = id && e.awaits kind then some ([], e, window)
    else (splitAt? id kind window).map fun (before, found, after) => (e :: before, found, after)

/-- Carries a handshake on. An acknowledgment that nothing waits for changes nothing. -/
def acknowledge (c : Courier σ) (id : UInt16) (kind : AckKind) (now : Instant) :
    List Packet × Courier σ :=
  let c := c.restore now
  match splitAt? id kind c.window.toList with
  | none => ([], c)
  | some (before, e, after) =>
    match kind with
    | .pubrec =>
      let release : Packet := .pubrel { packetId := id }
      ([release], { c with
        window := .ofList (before ++ ⟨release, now⟩ :: after)
        archive := (c.archive.save release).drop e.packet })
    | .puback | .pubcomp =>
      { c with
        window := .ofList (before ++ after)
        archive := c.archive.drop e.packet
        ids := c.ids.release id }.drain now

/-- Sends the packets of a window again that are due, and keeps them as they are sent. -/
def resend (now : Instant) (interval : UInt64) : List Inflight → Archive σ →
    List Packet × List Inflight × Archive σ
  | [], archive => ([], [], archive)
  | e :: window, archive =>
    if e.isDue now interval then
      let e := e.again now
      match resend now interval window (archive.save e.packet) with
      | (sent, window, archive) => (e.packet :: sent, e :: window, archive)
    else
      match resend now interval window archive with
      | (sent, window, archive) => (sent, e :: window, archive)

/-- Sends the packets again that have waited for the retry interval. -/
def retry (c : Courier σ) (now : Instant) : List Packet × Courier σ :=
  let c := c.restore now
  match resend now c.settings.retryInterval c.window.toList c.archive with
  | (sent, window, archive) => (sent, { c with window := .ofList window, archive })

/-- Sends all packets in flight once more, as they are, and then what the window has room for. -/
def recover (c : Courier σ) (now : Instant) : List Packet × Courier σ :=
  let c := c.restore now
  let window := c.window.toList.map fun e => { e with lastSent := now }
  match { c with window := .ofList window }.drain now with
  | (sent, c) => (window.map Inflight.packet ++ sent, c)

/-- Drops all messages and all that the archive holds. -/
def cleanAll (c : Courier σ) : Courier σ :=
  { c with
    queue := .empty
    window := .empty
    ids := c.ids.clear
    restored := true
    archive := c.archive.clear }

/-- Begins a connection: a clean session drops all that was held, any other goes on with it. -/
def connected (c : Courier σ) (cleanSession : Bool) (now : Instant) : List Packet × Courier σ :=
  if cleanSession then ([], c.cleanAll) else c.recover now

/-- Takes a packet identifier for a subscription. -/
def nextPacketId (c : Courier σ) : Except DeliveryError UInt16 × Courier σ :=
  let c := c.restore .origin
  match c.ids.allocate? with
  | some (id, ids) => (.ok id, { c with ids })
  | none => (.error .packetIdsExhausted, c)

/-- Gives the identifier of a subscription back. One that is in flight stays taken. -/
def releasePacketId (c : Courier σ) (id : UInt16) : Courier σ :=
  if c.window.toList.any (·.packetId = id) then c else { c with ids := c.ids.release id }

end Courier
end MqttClient
