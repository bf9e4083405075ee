import MqttClient.Session.Journal

/-!
# Archives

The archive of a courier is its journal, for as long as the store does what it is asked. After the
first failure it is given up and not touched again, so that delivery goes on without it.
-/

namespace MqttClient

/-- Where packets are kept across restarts. -/
inductive Archive (σ : Type) where
  /-- Nowhere. -/
  | absent
  /-- In a journal. -/
  | active (j : Journal) (s : σ)
  /-- In a journal that was given up. -/
  | abandoned (j : Journal) (s : σ)

namespace Archive
variable {σ : Type}

/-- Whether packets are kept. -/
def isActive : Archive σ → Bool
  | active .. => true
  | absent | abandoned .. => false

/-- The store of the archive, if there is one. -/
def store? : Archive σ → Option σ
  | absent => none
  | active _ s | abandoned _ s => some s

def withStore (a : Archive σ) (s : σ) : Archive σ :=
  match a with
  | absent => absent
  | active j _ => active j s
  | abandoned j _ => abandoned j s

/-- Does something with an active archive, and gives it up if this fails. -/
def attempt (act : JournalM σ α) (a : Archive σ) : Option α × Archive σ :=
  match a with
  | active j s =>
    match act (j, s) with
    | (.ok x, j, s) => (some x, active j s)
    | (.error _, j, s) => (none, abandoned j s)
  | a => (none, a)

variable [RecordStore σ]

/-- Keeps a packet. -/
def save (p : Packet) (a : Archive σ) : Archive σ :=
  (a.attempt (Journal.write p)).2

/-- Keeps a packet no longer. -/
def drop (p : Packet) (a : Archive σ) : Archive σ :=
  (a.attempt (Journal.remove p)).2

/-- Keeps no packet any longer. -/
def clear (a : Archive σ) : Archive σ :=
  (a.attempt Journal.clear).2

/-- The packets that are kept, in the order of their places. -/
def readAll (a : Archive σ) : List Packet × Archive σ :=
  match a.attempt Journal.readAll with
  | (packets, a) => (packets.getD [], a)

end Archive
end MqttClient
