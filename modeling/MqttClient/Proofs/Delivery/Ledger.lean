import MqttClient.Proofs.Delivery.Discipline
import MqttClient.Proofs.Delivery.Restoration
import MqttClient.Store.Table
import Mathlib.Data.List.Forall2
import Mathlib.Tactic.Common

/-!
# Messages are neither lost nor doubled

A ledger is kept of what happens to a courier: the messages that were taken for delivery, and the
parcels, which are the messages that entered the window with the acknowledgments that came for them.
In every state the messages that were taken are those of the parcels and then those that wait, in
order, and each parcel is delivered or has one packet in flight.
-/

namespace MqttClient

/-- The acknowledgments that a message waits for, in order. -/
def handshake : Qos → List AckKind
  | .atMostOnce => []
  | .atLeastOnce => [.puback]
  | .exactlyOnce => [.pubrec, .pubcomp]

/-- A message that entered the window, as it was sent first, and the acknowledgments that came for
it since. -/
structure Parcel where
  message : Publish
  acks : List AckKind := []
  deriving DecidableEq, Repr

namespace Parcel

/-- Whether all acknowledgments came. -/
def isDelivered (p : Parcel) : Bool :=
  p.acks = handshake p.message.qos

/-- The message as it was taken for delivery. -/
def original (p : Parcel) : Publish :=
  { p.message with packetId := 0 }

/-- The parcel after an acknowledgment. A parcel that is delivered waits for none. -/
def acknowledge (id : UInt16) (kind : AckKind) (p : Parcel) : Parcel :=
  if p.message.packetId = id ∧ p.isDelivered = false then { p with acks := p.acks ++ [kind] } else p

/-- Whether a packet is what is in flight of a parcel: its message, maybe with the mark of being
sent before, or its release. -/
inductive Carries : Parcel → Packet → Prop where
  | message {m : Publish} (dup : Bool) : m.isAcknowledged = true →
      Carries ⟨m, []⟩ (.publish { m with dup })
  | release {m : Publish} : m.qos = .exactlyOnce →
      Carries ⟨m, [.pubrec]⟩ (.pubrel { packetId := m.packetId })

variable {p : Parcel} {q : Packet} {id : UInt16} {kind : AckKind}

/-- An acknowledgment leaves the parcels with other identifiers. -/
lemma acknowledge_of_ne (ne : p.message.packetId ≠ id) : p.acknowledge id kind = p :=
  if_neg fun h => ne h.1

/-- An acknowledgment leaves a parcel that is delivered. -/
lemma acknowledge_of_isDelivered (delivered : p.isDelivered = true) :
    p.acknowledge id kind = p :=
  if_neg fun h => Bool.noConfusion (h.2.symm.trans delivered)

/-- An acknowledgment leaves the message as it was taken for delivery. -/
@[simp]
lemma original_acknowledge : (p.acknowledge id kind).original = p.original := by
  unfold acknowledge
  split <;> rfl

/-- What is in flight of a parcel has the identifier of its message. -/
lemma Carries.packetId {e : Inflight} (h : p.Carries e.packet) :
    e.packetId = p.message.packetId := by
  obtain ⟨q, lastSent⟩ := e
  cases h with
  | message dup => exact Inflight.packetId_publish ..
  | release => rfl

/-- A packet of a parcel has an identifier that is not zero if its message has it. -/
lemma Carries.packetId?_eq_some_iff (h : p.Carries q) (ne : id ≠ 0) :
    q.packetId? = some id ↔ p.message.packetId = id := by
  cases h with
  | message dup =>
    show (if _ = 0 then none else some _) = some id ↔ _
    split
    · rename_i zero
      rw [zero]
      exact ⟨nofun, fun h => absurd h.symm ne⟩
    · exact Option.some_inj
  | release => exact Option.some_inj

/-- What is in flight of a parcel still waits for an acknowledgment. -/
lemma Carries.isDelivered_eq_false (h : p.Carries q) : p.isDelivered = false := by
  cases h with
  | @message m dup acknowledged =>
    cases qos : m.qos with
    | atMostOnce =>
      rw [Publish.isAcknowledged, qos] at acknowledged
      cases acknowledged
    | _ => rw [isDelivered, qos]; rfl
  | release exactly => rw [isDelivered, exactly]; rfl

/-- What is sent once more is in flight of the same parcel. -/
lemma Carries.again {e : Inflight} (h : p.Carries e.packet) (now : Instant) :
    p.Carries (e.again now).packet := by
  obtain ⟨q, lastSent⟩ := e
  cases h with
  | message dup acknowledged => exact .message true acknowledged
  | release exactly => exact .release exactly

/-- A parcel whose message was received waits for the end of its release. -/
lemma Carries.received {e : Inflight} (h : p.Carries e.packet) (awaits : e.awaits .pubrec = true) :
    (p.acknowledge p.message.packetId .pubrec).Carries
      (.pubrel { packetId := p.message.packetId }) := by
  obtain ⟨q, lastSent⟩ := e
  cases h with
  | @message m dup =>
    have exactly : m.qos = .exactlyOnce := by simpa [Inflight.awaits] using awaits
    have acked : acknowledge m.packetId .pubrec ⟨m, []⟩ = ⟨m, [.pubrec]⟩ :=
      if_pos ⟨rfl, by rw [isDelivered, exactly]; rfl⟩
    rw [acked]
    exact .release exactly
  | release => cases awaits

/-- A parcel whose handshake ends is delivered. -/
lemma Carries.ended {e : Inflight} (h : p.Carries e.packet) (awaits : e.awaits kind = true)
    (ends : kind ≠ .pubrec) : (p.acknowledge p.message.packetId kind).isDelivered = true := by
  obtain ⟨q, lastSent⟩ := e
  cases h with
  | @message m dup =>
    have once : m.qos = .atLeastOnce ∧ kind = .puback := by
      cases kind with
      | puback => exact ⟨by simpa [Inflight.awaits] using awaits, rfl⟩
      | pubrec => exact absurd rfl ends
      | pubcomp => cases awaits
    obtain ⟨once, rfl⟩ := once
    have acked : acknowledge m.packetId .puback ⟨m, []⟩ = ⟨m, [.puback]⟩ :=
      if_pos ⟨rfl, by rw [isDelivered, once]; rfl⟩
    rw [acked, isDelivered, once]
    rfl
  | @release m exactly =>
    obtain rfl : kind = .pubcomp := by
      cases kind with
      | pubcomp => rfl
      | _ => cases awaits
    have acked : acknowledge m.packetId .pubcomp ⟨m, [.pubrec]⟩ = ⟨m, [.pubrec, .pubcomp]⟩ :=
      if_pos ⟨rfl, by rw [isDelivered, exactly]; rfl⟩
    rw [acked, isDelivered, exactly]
    rfl

end Parcel

/-- Whether packets are what is in flight of parcels: each parcel is delivered or has a packet of
its own, in their order. -/
inductive Tally : List Parcel → List Packet → Prop where
  | nil : Tally [] []
  | delivered {p ps qs} : p.isDelivered = true → Tally ps qs → Tally (p :: ps) qs
  | flying {p ps q qs} : p.Carries q → Tally ps qs → Tally (p :: ps) (q :: qs)

namespace Tally
variable {ps ps' : List Parcel} {qs qs' : List Packet}

/-- Packets that are in flight of two lists of parcels are so one after the other. -/
lemma append (h : Tally ps qs) (h' : Tally ps' qs') : Tally (ps ++ ps') (qs ++ qs') := by
  induction h with
  | nil => exact h'
  | delivered delivered _ ih => exact .delivered delivered ih
  | flying carries _ ih => exact .flying carries ih

/-- A parcel is delivered or has a packet. -/
lemma exists_carries (h : Tally ps qs) {p : Parcel} (mem : p ∈ ps) :
    p.isDelivered = true ∨ ∃ q ∈ qs, p.Carries q := by
  induction h with
  | nil => cases mem
  | delivered delivered _ ih =>
    cases mem with
    | head => exact .inl delivered
    | tail _ mem => exact ih mem
  | flying carries _ ih =>
    cases mem with
    | head => exact .inr ⟨_, List.mem_cons_self .., carries⟩
    | tail _ mem =>
      obtain delivered | ⟨q, mem, carries⟩ := ih mem
      · exact .inl delivered
      · exact .inr ⟨q, List.mem_cons_of_mem _ mem, carries⟩

section
variable {id : UInt16} {f : Parcel → Parcel} (ne : id ≠ 0)
  (other : ∀ p, p.message.packetId ≠ id ∨ p.isDelivered = true → f p = p)
include ne other

/-- What is about a packet that is not among them is about no parcel. -/
lemma map_eq (h : Tally ps qs) (absent : some id ∉ qs.map Packet.packetId?) : ps.map f = ps := by
  induction h with
  | nil => rfl
  | delivered delivered _ ih => rw [List.map_cons, other _ (.inr delivered), ih absent]
  | flying carries _ ih =>
    rw [List.map_cons, List.mem_cons, not_or] at absent
    have differs := mt (carries.packetId?_eq_some_iff ne).mpr fun h => absent.1 h.symm
    rw [List.map_cons, other _ (.inl differs), ih absent.2]

/-- What becomes of a packet becomes of its parcel. -/
lemma replace {before after mid : List Packet} {q : Packet} (h : Tally ps (before ++ q :: after))
    (named : q.packetId? = some id)
    (apart : ((before ++ q :: after).map Packet.packetId?).Nodup)
    (carried : ∀ p : Parcel, p.Carries q → Tally [f p] mid) :
    Tally (ps.map f) (before ++ (mid ++ after)) := by
  generalize split : before ++ q :: after = qs at h apart
  induction h generalizing before with
  | nil => cases before <;> cases split
  | delivered delivered _ ih =>
    rw [List.map_cons, other _ (.inr delivered)]
    exact .delivered delivered (ih split apart)
  | @flying _ _ r _ carries rest ih =>
    cases before with
    | nil =>
      cases split
      rw [List.map_cons, List.nodup_cons, named] at apart
      rw [List.map_cons, map_eq ne other rest apart.1]
      exact (carried _ carries).append rest
    | cons _ before =>
      cases split
      rw [List.map_cons, List.nodup_cons] at apart
      have differs : r.packetId? ≠ some id := by
        intro same
        apply apart.1
        rw [same, ← named]
        exact List.mem_map_of_mem (List.mem_append_right _ (List.mem_cons_self ..))
      have untouched := other _ (.inl (mt (carries.packetId?_eq_some_iff ne).mpr differs))
      rw [List.map_cons, untouched]
      exact .flying carries (ih rfl apart.2)

end

end Tally

namespace Courier
variable {σ : Type}

/-- What happened since everything was dropped last. -/
structure Ledger where
  /-- The messages that were taken for delivery. -/
  accepted : List Publish := []
  /-- The messages that entered the window. -/
  parcels : List Parcel := []
  /-- The packets of the archive that were taken up. -/
  stored : List Packet := []
  deriving DecidableEq, Repr

namespace Ledger

/-- The ledger after an event. -/
def record (l : Ledger) : Event → Ledger
  | .queued m => { l with accepted := l.accepted ++ [m] }
  | .entered (.publish m) => { l with parcels := l.parcels ++ [⟨m, []⟩] }
  | .acknowledged id kind => { l with parcels := l.parcels.map (Parcel.acknowledge id kind) }
  | .takenUp p => { l with stored := l.stored ++ [p] }
  | .cleaned => {}
  | .entered _ | .sent _ | .lent _ | .returned _ => l

/-- The ledger after events. -/
def after (l : Ledger) (es : List Event) : Ledger :=
  es.foldl record l

/-- Whether packets are those that are in flight: what is left of the packets that were taken up,
and behind it the packets of the parcels. -/
def Covers (l : Ledger) (flying : List Packet) : Prop :=
  ∃ earlier current, flying = earlier ++ current ∧
    (earlier.map Packet.packetId?).Sublist (l.stored.map Packet.packetId?) ∧
    Tally l.parcels current

/-- Whether a ledger agrees with a state of the courier. -/
structure Balances (l : Ledger) (c : Courier σ) : Prop where
  accepted : l.accepted = l.parcels.map Parcel.original ++ c.queue.toList
  covers : l.Covers (c.window.toList.map Inflight.packet)
  /-- Messages wait as they were taken for delivery. -/
  waiting : ∀ m ∈ c.queue.toList, m.isAcknowledged = true ∧ m.packetId = 0
  /-- Only messages that wait for an acknowledgment are in flight. -/
  awaited : ∀ m, .publish m ∈ c.window.toList.map Inflight.packet → m.isAcknowledged = true

variable {l : Ledger} {c c' : Courier σ} {out : Finset UInt16} {now : Instant} {es es' : List Event}

/-- A ledger is kept on behind a part of the history. -/
@[simp]
lemma after_append (l : Ledger) (es es' : List Event) :
    l.after (es ++ es') = (l.after es).after es' :=
  List.foldl_append

/-- Packets that are taken up are recorded as stored. -/
@[simp]
lemma after_takenUp (l : Ledger) (ps : List Packet) :
    l.after (ps.map .takenUp) = { l with stored := l.stored ++ ps } := by
  induction ps generalizing l with
  | nil => rw [List.append_nil]; rfl
  | cons p ps ih =>
    refine (ih _).trans ?_
    rw [record, List.append_assoc, List.singleton_append]

/-- Packets that are sent change nothing in the ledger. -/
@[simp]
lemma after_sent (l : Ledger) (ps : List Packet) : l.after (ps.map .sent) = l := by
  induction ps with
  | nil => rfl
  | cons p ps ih => exact ih

/-- A packet in flight is replaced, by one of the same identifier or by none, and its parcel changes
with it. -/
lemma Covers.replace {before after mid : List Packet} {q : Packet} {id : UInt16}
    {f : Parcel → Parcel} (h : l.Covers (before ++ q :: after)) (named : q.packetId? = some id)
    (ne : id ≠ 0) (apart : ((before ++ q :: after).map Packet.packetId?).Nodup)
    (other : ∀ p, p.message.packetId ≠ id ∨ p.isDelivered = true → f p = p)
    (same : (mid.map Packet.packetId?).Sublist [some id])
    (carried : ∀ p : Parcel, p.Carries q → Tally [f p] mid) :
    Covers { l with parcels := l.parcels.map f } (before ++ (mid ++ after)) := by
  obtain ⟨earlier, current, split, stored, tally⟩ := h
  obtain ⟨front, rfl, rfl⟩ | ⟨back, rfl, e⟩ :
      (∃ front, before = earlier ++ front ∧ current = front ++ q :: after) ∨
        ∃ back, earlier = before ++ q :: back ∧ after = back ++ current := by
    obtain ⟨front, rfl, rfl⟩ | ⟨back, rfl, e⟩ := List.append_eq_append_iff.mp split.symm
    · exact .inl ⟨front, rfl, rfl⟩
    · cases back with
      | nil => exact .inl ⟨[], (List.append_nil _).symm.trans (List.append_nil _).symm, e.symm⟩
      | cons r back =>
        cases e
        exact .inr ⟨back, rfl, rfl⟩
  · -- the packet is the one of a parcel
    refine ⟨earlier, front ++ (mid ++ after), List.append_assoc .., stored, ?_⟩
    rw [List.append_assoc, List.map_append, List.nodup_append] at apart
    exact tally.replace ne other named apart.2.1 carried
  · -- the packet was taken up, so its identifier is none of those of the parcels
    subst e
    refine ⟨before ++ (mid ++ back), current, by simp only [List.append_assoc], ?_, ?_⟩
    · refine .trans ?_ stored
      simp only [List.map_append, List.map_cons, named]
      exact (List.Sublist.refl _).append (same.append (.refl _))
    · have absent : some id ∉ current.map Packet.packetId? := by
        intro mem
        rw [List.map_append, List.map_cons, List.nodup_middle, List.nodup_cons, named,
          List.map_append] at apart
        exact apart.1 (List.mem_append_right _ (List.mem_append_right _ mem))
      change Tally (l.parcels.map f) current
      rwa [tally.map_eq ne other absent]

/-- No two packets in flight name the same identifier. -/
lemma nodup_packetIds (h : c.Disciplined out) :
    ((c.window.toList.map Inflight.packet).map Packet.packetId?).Nodup := by
  have named : (c.window.toList.map Inflight.packet).map Packet.packetId? = c.flying.map some := by
    rw [flying, List.map_map, List.map_map]
    exact List.map_congr_left fun e mem => h.packetId? mem
  rw [named]
  exact h.apart.map (Option.some_injective _)

/-- A packet in flight is replaced, by one of the same identifier or by none, and its parcel changes
with it. -/
lemma Balances.replace (b : l.Balances c) (h : c.Disciplined out) {before after : List Inflight}
    {e : Inflight} (window : c.window.toList = before ++ e :: after) (mid : List Inflight)
    {f : Parcel → Parcel}
    (other : ∀ p, p.message.packetId ≠ e.packetId ∨ p.isDelivered = true → f p = p)
    (original : ∀ p, (f p).original = p.original)
    (same : ((mid.map Inflight.packet).map Packet.packetId?).Sublist [some e.packetId])
    (carried : ∀ p : Parcel, p.Carries e.packet → Tally [f p] (mid.map Inflight.packet))
    (awaited : ∀ m, .publish m ∈ mid.map Inflight.packet → m.isAcknowledged = true)
    (ids : IdPool) (archive : Archive σ) :
    Balances { l with parcels := l.parcels.map f }
      { c with window := .ofList (before ++ (mid ++ after)), ids, archive } := by
  have mem : e ∈ c.window.toList := window ▸ List.mem_append_cons_self
  have apart := nodup_packetIds h
  have covers := b.covers
  have awaited' := b.awaited
  rw [window, List.map_append, List.map_cons] at apart covers awaited'
  refine ⟨?_, ?_, b.waiting, ?_⟩
  · have originals : (l.parcels.map f).map Parcel.original = l.parcels.map Parcel.original := by
      rw [List.map_map]
      exact List.map_congr_left fun p _ => original p
    rw [originals]
    exact b.accepted
  · rw [Fifo.toList_ofList, List.map_append, List.map_append]
    exact covers.replace (h.packetId? mem) (h.packetId_ne_zero mem) apart other
      same carried
  · intro m sent
    rw [Fifo.toList_ofList, List.map_append, List.map_append, List.mem_append,
      List.mem_append] at sent
    obtain sent | sent | sent := sent
    · exact awaited' m (List.mem_append_left _ sent)
    · exact awaited m sent
    · exact awaited' m (List.mem_append_right _ (List.mem_cons_of_mem _ sent))

/-- A message that enters the window becomes a parcel. -/
lemma Balances.send (b : l.Balances c) {m : Publish} {queue : Fifo Publish} {id : UInt16}
    (first : c.queue.pop? = some (m, queue)) (ids : IdPool) (archive : Archive σ) (now : Instant) :
    Balances { l with parcels := l.parcels ++ [⟨{ m with packetId := id }, []⟩] }
      { c with
        queue
        ids
        archive
        window := c.window.push ⟨.publish { m with packetId := id }, now⟩ } := by
  have waiting := b.waiting
  have accepted := b.accepted
  rw [Fifo.toList_of_pop? first] at waiting accepted
  rw [List.forall_mem_cons] at waiting
  obtain ⟨⟨acknowledged, unnamed⟩, waiting⟩ := waiting
  refine ⟨?_, ?_, waiting, ?_⟩
  · have original : Parcel.original ⟨{ m with packetId := id }, []⟩ = m := by
      rw [Parcel.original, ← unnamed]
    rw [accepted, List.map_append, List.append_assoc, List.map_singleton, original]
    rfl
  · obtain ⟨earlier, current, split, stored, tally⟩ := b.covers
    refine ⟨earlier, current ++ [.publish { m with packetId := id }], ?_, stored, ?_⟩
    · rw [Fifo.toList_push, List.map_append, split, List.append_assoc]
      rfl
    · exact tally.append (.flying (.message m.dup acknowledged) .nil)
  · intro m' sent
    rw [Fifo.toList_push, List.map_append, List.mem_append] at sent
    obtain sent | sent := sent
    · exact b.awaited m' sent
    · cases List.mem_singleton.mp sent
      exact acknowledged

/-- An acknowledgment leaves other parcels and delivered ones as they are. -/
lemma acknowledge_other {id : UInt16} {kind : AckKind} (p : Parcel)
    (h : p.message.packetId ≠ id ∨ p.isDelivered = true) : p.acknowledge id kind = p :=
  h.elim Parcel.acknowledge_of_ne Parcel.acknowledge_of_isDelivered

/-- A packet that is sent once more stays the packet of its parcel. -/
lemma Balances.resend (b : l.Balances c) (h : c.Disciplined out) {before after : List Inflight}
    {e : Inflight} (window : c.window.toList = before ++ e :: after) (now : Instant)
    (archive : Archive σ) :
    l.Balances { c with window := .ofList (before ++ e.again now :: after), archive } := by
  have mem : e ∈ c.window.toList := window ▸ List.mem_append_cons_self
  have again := b.replace h window [e.again now] (f := id) (fun _ _ => rfl) (fun _ => rfl)
    (by rw [List.map_singleton, List.map_singleton, Inflight.packetId?_again, h.packetId? mem])
    (fun p carries => .flying (carries.again now) .nil) (fun m sent => ?_) c.ids archive
  · rwa [List.map_id] at again
  · have awaited := b.awaited
    have sent' := List.mem_singleton.mp sent
    obtain ⟨packet, lastSent⟩ := e
    cases packet with
    | publish m' =>
      cases sent'
      exact awaited m' (List.mem_map_of_mem mem)
    | _ => cases sent'

variable [RecordStore σ]

/-- What is taken up stands in the window before all parcels. -/
lemma Balances.restore (b : l.Balances c) (h : c.Disciplined out) (fresh : c.restored = false)
    (now : Instant) :
    Balances { l with stored := l.stored ++ (c.restore now).window.toList.map Inflight.packet }
      (c.restore now) := by
  have idle := h.idle fresh
  obtain ⟨earlier, current, split, -, tally⟩ := b.covers
  rw [idle.window] at split
  obtain ⟨rfl, rfl⟩ := List.append_eq_nil_iff.mp split.symm
  refine ⟨?_, ⟨_, [], (List.append_nil _).symm, ?_, tally⟩, ?_, ?_⟩
  · rw [queue_restore]
    exact b.accepted
  · rw [List.map_append]
    exact List.sublist_append_right ..
  · rw [queue_restore]
    exact b.waiting
  · intro m sent
    obtain ⟨e, mem, packet⟩ := List.mem_map.mp sent
    obtain ⟨j, s, -, bytes, n, read⟩ := isRead_of_mem_restore idle fresh mem
    have named := (h.restore fresh now).packetId? mem
    rw [packet] at read named
    refine Packet.isAcknowledged_of_decodeFirst read fun zero => ?_
    rw [Packet.packetId?, if_pos zero] at named
    cases named

/-- Every step keeps the balance. -/
theorem Balances.step (b : l.Balances c) (h : c.Disciplined out) (step : Step now c es c') :
    (l.after es).Balances c' := by
  cases step with
  | restore fresh =>
    rw [after_takenUp]
    exact b.restore h fresh now
  | accept _ _ acknowledged _ _ unnamed =>
    refine ⟨?_, b.covers, ?_, b.awaited⟩
    · change l.accepted ++ [_] = l.parcels.map Parcel.original ++ _
      rw [Fifo.toList_push, ← List.append_assoc, ← b.accepted]
    · rw [Fifo.toList_push, List.forall_mem_append, List.forall_mem_singleton]
      exact ⟨b.waiting, acknowledged, unnamed⟩
  | send _ _ _ first => exact b.send first _ _ now
  -- an acknowledgment is recorded in the parcel whose packet waited for it, and in no other
  | release _ found =>
    obtain ⟨window, rfl, awaits⟩ := splitAt?_eq_some found
    refine b.replace h window [_] acknowledge_other (fun _ => Parcel.original_acknowledge)
      (.refl _) (fun p carries => ?_) (fun m sent => ?_) _ _
    · rw [carries.packetId]
      exact .flying (carries.received awaits) .nil
    · cases List.mem_singleton.mp sent
  | complete _ ends found =>
    obtain ⟨window, rfl, awaits⟩ := splitAt?_eq_some found
    refine b.replace h window [] acknowledge_other (fun _ => Parcel.original_acknowledge)
      (List.nil_sublist _) (fun p carries => ?_) (fun _ => nofun) _ _
    rw [carries.packetId]
    exact .delivered (carries.ended awaits ends) .nil
  | resend _ window => exact b.resend h window now _
  | replay =>
    rw [after_sent]
    refine ⟨b.accepted, ?_, b.waiting, ?_⟩
    · rw [Fifo.toList_ofList, Inflight.map_packet_stamp]
      exact b.covers
    · rw [Fifo.toList_ofList, Inflight.map_packet_stamp]
      exact b.awaited
  | settle same => exact ⟨b.accepted, same ▸ b.covers, b.waiting, same ▸ b.awaited⟩
  | clean =>
    exact ⟨rfl, ⟨[], [], rfl, .refl _, .nil⟩, List.forall_mem_nil _, fun _ => nofun⟩
  | _ => exact ⟨b.accepted, b.covers, b.waiting, b.awaited⟩

/-- Calls keep the balance. -/
theorem Balances.trace (b : l.Balances c) (h : c.Disciplined out) (ops : List Call) :
    (l.after (c.trace ops)).Balances (c.after ops) := by
  refine h.trace_induction [] (motive := fun c es => (l.after es).Balances c) b ?_ ops
  intro c c' out now es es' h b step
  rw [after_append]
  exact b.step h step

omit [RecordStore σ] in
/-- Before the first call an empty ledger balances. -/
lemma balances_initial (settings : Settings) (session : Option (Journal × σ)) :
    Balances {} (initial settings session) := by
  cases session <;>
    exact ⟨rfl, ⟨[], [], rfl, .refl _, .nil⟩, List.forall_mem_nil _, fun _ => nofun⟩

omit [RecordStore σ] in
/-- A parcel is delivered, or one packet in flight is its own. -/
lemma Balances.delivered_or_existsUnique (b : l.Balances c) (h : c.Disciplined out) {p : Parcel}
    (mem : p ∈ l.parcels) :
    p.isDelivered = true ∨ ∃! e, e ∈ c.window.toList ∧ p.Carries e.packet := by
  obtain ⟨earlier, current, split, -, tally⟩ := b.covers
  obtain delivered | ⟨q, own, carries⟩ := tally.exists_carries mem
  · exact .inl delivered
  · have flying : q ∈ c.window.toList.map Inflight.packet := split ▸ List.mem_append_right _ own
    obtain ⟨e, he, rfl⟩ := List.mem_map.mp flying
    refine .inr ⟨e, ⟨he, carries⟩, ?_⟩
    rintro f ⟨hf, carries'⟩
    exact h.eq_of_packetId hf he (carries'.packetId.trans carries.packetId.symm)

end Ledger

variable [RecordStore σ] {c d : Courier σ} {now : Instant}

/-- A message that is not taken leaves the courier as it is, except that the packets of the archive
may be taken up first. -/
lemma enqueue_eq_error {m : Publish} {e : DeliveryError} (h : c.enqueue m now = (.error e, d)) :
    d = c ∨ e = .queueFull ∧ c.restored = false ∧ d = c.restore now := by
  obtain ⟨-, -, same⟩ | ⟨-, full, rfl⟩ := enqueue_of_error h
  · exact .inl same
  · cases restored : c.restored with
    | true => exact .inl (if_pos restored)
    | false => exact .inr ⟨full, rfl, rfl⟩

/-- What happens in a run is told by the packets that are returned. In every state, the messages
that were taken for delivery since everything was dropped last, without mark and identifier, are
those that entered the window, in their order, and then those that wait. Each of those that entered
got all acknowledgments of its handshake, once each and in order, or it has one packet in flight,
and the packets in flight are these, in order, behind what is left of the packets of the archive. No
message that asks for no acknowledgment waits or is in flight. A message that is not taken leaves
the messages that wait as they are and the window too, but that packets of the archive are taken up
before the first message is found to be one too many. -/
theorem accepted_eq_parcels_append_queue (settings : Settings) (session : Option (Journal × σ))
    (ops : List Call) :
    let c := (initial settings session).after ops
    let l := Ledger.after {} ((initial settings session).trace ops)
    packets ((initial settings session).trace ops) = (initial settings session).returned ops ∧
      l.accepted = l.parcels.map Parcel.original ++ c.queue.toList ∧
      (∀ p ∈ l.parcels, p.acks = handshake p.message.qos ∧
          (∀ e ∈ c.window.toList, ¬ p.Carries e.packet) ∨
        ∃! e, e ∈ c.window.toList ∧ p.Carries e.packet) ∧
      (∃ earlier current, c.window.toList.map Inflight.packet = earlier ++ current ∧
        (earlier.map Packet.packetId?).Sublist (l.stored.map Packet.packetId?) ∧
        Tally l.parcels current) ∧
      (∀ m ∈ c.queue.toList, m.isAcknowledged = true) ∧
      (∀ m, .publish m ∈ c.window.toList.map Inflight.packet → m.isAcknowledged = true) ∧
      ∀ m now e d, c.enqueue m now = (.error e, d) → d.queue = c.queue ∧
        (d.window = c.window ∨
          e = .queueFull ∧ c.restored = false ∧ d.window = (c.restore now).window) := by
  intro c l
  have h : (initial settings session).Disciplined ∅ := disciplined_initial settings session
  have h' : c.Disciplined _ := (h.trace ops).2
  have b : l.Balances c := (Ledger.balances_initial settings session).trace h ops
  refine ⟨packets_trace _ ops, b.accepted, fun p mem => ?_, b.covers,
    fun m mem => (b.waiting m mem).1, b.awaited, fun m now e d refused => ?_⟩
  · refine (b.delivered_or_existsUnique h' mem).imp_left fun delivered => ?_
    refine ⟨by simpa [Parcel.isDelivered] using delivered, fun e _ carries => ?_⟩
    exact Bool.noConfusion (carries.isDelivered_eq_false.symm.trans delivered)
  · obtain rfl | ⟨full, fresh, rfl⟩ := enqueue_eq_error refused
    · exact ⟨rfl, .inl rfl⟩
    · exact ⟨queue_restore c now, .inr ⟨full, fresh, rfl⟩⟩

/-- The message of an earlier courier is taken up, and then the new one is one too many. -/
theorem window_ne_of_refused :
    let settings : Settings := { inflightWindow := 10, queueCapacity := 1 }
    let m : Publish := { qos := .atLeastOnce, topic := "a", payload := [1] }
    let m' : Publish := { qos := .atLeastOnce, topic := "b", payload := [2] }
    let stored := (initial settings (some (⟨[0, 1, 97], .v311, 0⟩, Table.empty))).after
      [.enqueue m .origin]
    let session := stored.archive.store?.bind fun s =>
      match Journal.openFor "a" .v311 s with
      | (.ok j, s) => some (j, s)
      | (.error _, _) => none
    let c := initial settings session
    (c.enqueue m' .origin).1 = .error .queueFull ∧ c.window.toList = [] ∧
      (c.enqueue m' .origin).2.window.toList =
        [⟨.publish { m with packetId := 1 }, .origin⟩] := by
  decide +kernel

end Courier
end MqttClient
