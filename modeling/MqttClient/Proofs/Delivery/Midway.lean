import MqttClient.Proofs.Delivery.Detached
import MqttClient.Proofs.Delivery.Interruption
import Mathlib.Tactic.Common

/-!
# In the middle of a call

A call of a courier makes several calls of its store, and the courier may stop behind any of them.
What is read from the store then is what was in flight before the call, or what is in flight once
the acknowledgment is dealt with, followed by the first of the messages that enter the window. So no
message is lost in the middle of a call, and none is there in two stages.
-/

namespace MqttClient
variable {σ τ : Type}

/-- What is in flight in place of a packet after an acknowledgment: a release if it waited for its
message to be received, and nothing if it waited for the end of its handshake. -/
def Inflight.next? (id : UInt16) (kind : AckKind) (e : Inflight) : Option Packet :=
  if e.packetId = id ∧ e.awaits kind = true then
    if kind = .pubrec then some (.pubrel { packetId := id }) else none
  else some e.packet

/-- Packets that do not wait for an acknowledgment stay. -/
lemma Inflight.filterMap_next? {id : UInt16} {kind : AckKind} {window : List Inflight}
    (quiet : ∀ e ∈ window, e.packetId = id → e.awaits kind = false) :
    window.filterMap (next? id kind) = window.map packet := by
  rw [← List.filterMap_eq_map]
  apply List.filterMap_congr
  intro e mem
  apply if_neg
  rintro ⟨under, awaits⟩
  exact Bool.noConfusion ((quiet e mem under).symm.trans awaits)

/-- If one packet alone is under an identifier, an acknowledgment that it waits for changes it and
no other. -/
lemma Inflight.filterMap_next?_of_split {id : UInt16} {kind : AckKind}
    {before after : List Inflight} {e : Inflight} (others : ∀ f ∈ before ++ after, f.packetId ≠ id)
    (under : e.packetId = id) (awaits : e.awaits kind = true) :
    (before ++ e :: after).filterMap (next? id kind) = before.map packet ++
      (if kind = .pubrec then [.pubrel { packetId := id }] else []) ++ after.map packet := by
  have quiet {window : List Inflight} (sub : ∀ f ∈ window, f ∈ before ++ after) :
      window.filterMap (next? id kind) = window.map packet :=
    filterMap_next? fun f mem same => absurd same (others f (sub f mem))
  have next : e.next? id kind =
      if kind = .pubrec then some (.pubrel { packetId := id }) else none :=
    if_pos ⟨under, awaits⟩
  rw [List.filterMap_append, quiet fun f => List.mem_append_left after, List.append_assoc]
  congr 1
  rw [List.filterMap_cons, next, quiet fun f => List.mem_append_right before]
  cases kind <;> rfl

namespace Archive
variable {V : StoreView σ} {start : Bytes} {v : Version} {ps : List (Nat × Packet)} {n : Nat}
  {a : Archive σ}

/-- A store that will stop does not change whether the archive is active. -/
lemma isActive_stoppingAfter (a : Archive σ) (i : Nat) :
    (a.stoppingAfter i).isActive = a.isActive := by
  cases a <;> rfl

/-- An archive that will stop is in order until it does. -/
lemma Ordered.stoppingAfter (h : a.Ordered V start v ps n) (i : Nat) :
    (a.stoppingAfter i).Ordered (Unreliable.view V) start v ps n := by
  obtain ⟨recs, holds, counted, ranks⟩ := h
  refine ⟨recs, holds.stoppingAfter i, ?_, ranks⟩
  rw [← counted]
  cases a <;> rfl

end Archive

namespace Courier
variable [RecordStore σ]

/-- What a window becomes in a call once an acknowledgment is dealt with. -/
def Call.carriesOn : Call → List Inflight → List Packet
  | acknowledge id kind _, window => window.filterMap (Inflight.next? id kind)
  | _, window => window.map Inflight.packet

/-- The packets in flight in a call once an acknowledgment is dealt with, before any message enters
the window. -/
def carriedOn (c : Courier σ) (op : Call) : List Packet :=
  op.carriesOn (c.restore op.time).window.toList

/-- Whether packets are those in flight at some point of a call: before it, or once an
acknowledgment is dealt with and the first of the messages entered that enter in the call. -/
def Midway (c : Courier σ) (op : Call) (ps : List Packet) : Prop :=
  ps = (c.restore op.time).window.toList.map Inflight.packet ∨
    ∃ k, ps = c.carriedOn op ++ (c.entered op).take k

section Fill
variable {V : StoreView σ} {start : Bytes} {v : Version} {c : Courier σ} {ps : List (Nat × Packet)}
  {n : Nat}

/-- The messages that enter come behind the packets in flight. -/
lemma window_fill (now : Instant) (room : Nat) (c : Courier σ) :
    (c.fill now room).2.window.toList.map Inflight.packet =
      c.window.toList.map Inflight.packet ++ (c.fill now room).1 := by
  obtain ⟨queue, ids, archive, filled⟩ := fill_snd now room c
  rw [filled, Fifo.toList_pushAll, List.map_append, List.map_map]
  exact congrArg _ (List.map_id _)

/-- Filling the window leaves an archive that is not active. -/
lemma archive_fill (now : Instant) (room : Nat) (c : Courier σ)
    (inactive : c.archive.isActive = false) : (c.fill now room).2.archive = c.archive := by
  induction room generalizing c with
  | zero => rfl
  | succ room ih =>
    unfold fill
    split
    · rfl
    · split
      · rfl
      · rename_i id ids _ _ m queue _
        have same := Archive.save_of_not_active inactive (.publish { m with packetId := id })
        have rest := ih { c with
          queue
          ids
          archive := c.archive.save (.publish { m with packetId := id })
          window := c.window.push ⟨.publish { m with packetId := id }, now⟩ } (by rwa [same])
        exact rest.trans same

/-- Behind the packets that were there, the archive holds the first of the messages that enter the
window. -/
lemma shows_fill (law : V.Lawful) (takes : Journal.TakesAll V start)
    (h : c.archive.Ordered V start v ps n) (active : c.archive.isActive = true)
    (mirrors : c.Mirrors ps) (now : Instant) (room : Nat) :
    ∃ ps' n', n' ≤ n + (c.fill now room).1.length ∧
      (c.fill now room).2.archive.Shows V start v ps' n' ∧
      ∃ k, ps'.map Prod.snd = ps.map Prod.snd ++ (c.fill now room).1.take k := by
  induction room generalizing c ps n with
  | zero => exact ⟨ps, n, Nat.le_add_right .., h.shows, 0, (List.append_nil _).symm⟩
  | succ room ih =>
    have stays : ∃ ps' n', n' ≤ n + 0 ∧ c.archive.Shows V start v ps' n' ∧
        ∃ k, ps'.map Prod.snd = ps.map Prod.snd ++ ([] : List Packet).take k :=
      ⟨ps, n, Nat.le_refl _, h.shows, 0, (List.append_nil _).symm⟩
    unfold fill
    split
    · exact stays
    · rename_i id ids free
      split
      · exact stays
      · rename_i m queue first
        obtain ⟨unused, -⟩ := IdPool.allocate?_eq_some free
        have waited : m ∈ c.queue.toList := by
          rw [Fifo.toList_of_pop? first]
          exact List.mem_cons_self ..
        have acknowledged := mirrors.queue m waited
        have slot : Record.slot? (.publish { m with packetId := id }) = some (.message, id) :=
          if_pos acknowledged
        obtain ⟨-, ⟨active', ordered⟩ | ⟨inactive, n', le, ordered⟩⟩ :=
          h.save_new law takes active slot (Packet.isStable_publish acknowledged)
            (mirrors.free unused)
        · -- the message has its record, and others may follow
          obtain ⟨ps', n', le, shows, k, all⟩ :=
            ih ordered active' (mirrors.send free first n now
              (c.archive.save (.publish { m with packetId := id })))
          refine ⟨ps', n', ?_, shows, k + 1, ?_⟩
          · rw [List.length_cons]
            omega
          · rw [all, List.map_append, List.append_assoc]
            rfl
        · -- the archive was given up over the message, so the others leave no records
          refine ⟨ps, n', ?_, ?_, 0, (List.append_nil _).symm⟩
          · rw [List.length_cons]
            omega
          · have same := archive_fill now room { c with
              queue
              ids
              archive := c.archive.save (.publish { m with packetId := id })
              window := c.window.push ⟨.publish { m with packetId := id }, now⟩ } inactive
            exact same ▸ ordered.shows

end Fill

/-- Whether a call that may be stopped leaves an archive from which packets in the middle of it are
read, and a call that is not stopped has all messages that entered in its window. -/
structure Proceeds (V : StoreView σ) (start : Bytes) (v : Version) (n : Nat) (c : Courier σ)
    (op : Call) : Prop where
  shows : ∃ ps n', n' ≤ n + (c.entered op).length ∧ (c.call op).2.archive.Shows V start v ps n' ∧
    c.Midway op (ps.map Prod.snd)
  window : (c.call op).2.window.toList.map Inflight.packet = c.carriedOn op ++ c.entered op

section Call
variable {V : StoreView σ} {start : Bytes} {v : Version} {c : Courier σ} {ps : List (Nat × Packet)}
  {n : Nat} {id : UInt16} {kind : AckKind} {before after : List Inflight} {e : Inflight}

/-- An acknowledgment that is awaited takes its packet out, or puts the release in its place. -/
lemma carriedOn_of_split {left right : List (Nat × Packet)} (restored : c.restored = true)
    (others : ∀ q ∈ left ++ right, q.2.packetId? ≠ some id) (ne : id ≠ 0)
    (hleft : before.map Inflight.packet = left.map Prod.snd)
    (hright : after.map Inflight.packet = right.map Prod.snd)
    (found : splitAt? id kind c.window.toList = some (before, e, after)) (now : Instant) :
    c.carriedOn (.acknowledge id kind now) = left.map Prod.snd ++
      (if kind = .pubrec then [.pubrel { packetId := id }] else []) ++ right.map Prod.snd := by
  have here : c.restore now = c := if_pos restored
  obtain ⟨window, under, awaits⟩ := splitAt?_eq_some found
  show (c.restore now).window.toList.filterMap (Inflight.next? id kind) = _
  rw [here, window, Inflight.filterMap_next?_of_split ?_ under awaits, hleft, hright]
  intro f mem same
  have among : f.packet ∈ (left ++ right).map Prod.snd := by
    rw [List.map_append, ← hleft, ← hright, ← List.map_append]
    exact List.mem_map_of_mem mem
  obtain ⟨q, hq, packet⟩ := List.mem_map.mp among
  exact others q hq (packet ▸ Inflight.packetId?_of_packetId same ne)

/-- What was in flight before a call is a state in the middle of it. -/
lemma Mirrors.midway (mirrors : c.Mirrors ps) (restored : c.restored = true) (op : Call) :
    c.Midway op (ps.map Prod.snd) := by
  left
  have here : c.restore op.time = c := if_pos restored
  rw [here, mirrors.window]

variable (law : V.Lawful) (takes : Journal.TakesAll V start)
  (h : c.archive.Ordered V start v ps n) (active : c.archive.isActive = true)
  (restored : c.restored = true) (mirrors : c.Mirrors ps)
include law takes h active restored mirrors

/-- The call with PUBREC proceeds: its store shows the message or its release. -/
lemma proceeds_release
    (found : splitAt? id .pubrec c.window.toList = some (before, e, after)) (now : Instant) :
    c.Proceeds V start v n (.acknowledge id .pubrec now) := by
  have here : c.restore now = c := if_pos restored
  obtain ⟨window, rfl, awaits⟩ := splitAt?_eq_some found
  have ordered := h
  obtain ⟨recs, -, -, order⟩ := ordered
  obtain ⟨left, k, right, kind, rfl, hleft, hright, fits, others⟩ := mirrors.located order window
  obtain rfl := Inflight.message_of_awaits awaits fits.slot
  have carried := carriedOn_of_split restored others fits.ne_zero hleft hright found now
  have acknowledged : c.call (.acknowledge e.packetId .pubrec now) = _ :=
    acknowledge_of_pubrec (here.symm ▸ found)
  have replaced : (left ++ (k, .pubrel { packetId := e.packetId }) :: right).map Prod.snd =
      c.carriedOn (.acknowledge e.packetId .pubrec now) ++
        (c.entered (.acknowledge e.packetId .pubrec now)).take 0 := by
    rw [carried, List.take_zero, List.append_nil, if_pos rfl, List.map_append, List.append_assoc]
    rfl
  refine ⟨?_, ?_⟩
  · rw [acknowledged, here]
    obtain ⟨-, ⟨-, ordered⟩ | ⟨-, ordered | ⟨-, shows⟩⟩⟩ := h.release law takes active fits
    · exact ⟨_, n, Nat.le_add_right .., ordered.shows, .inr ⟨0, replaced⟩⟩
    · exact ⟨_, n, Nat.le_add_right .., ordered.shows, mirrors.midway restored _⟩
    · exact ⟨_, n, Nat.le_add_right .., shows, .inr ⟨0, replaced⟩⟩
  · rw [acknowledged, here]
    show (Fifo.ofList _).toList.map Inflight.packet = _ ++ []
    rw [Fifo.toList_ofList, carried, List.map_append, List.map_cons, hleft, hright,
      List.append_nil, if_pos rfl, List.append_assoc]
    rfl

/-- The call with the last acknowledgment proceeds: its store shows the packet or not. -/
lemma proceeds_complete (ends : kind ≠ .pubrec)
    (found : splitAt? id kind c.window.toList = some (before, e, after)) (now : Instant) :
    c.Proceeds V start v n (.acknowledge id kind now) := by
  have here : c.restore now = c := if_pos restored
  obtain ⟨window, rfl, -⟩ := splitAt?_eq_some found
  have ordered := h
  obtain ⟨recs, -, -, order⟩ := ordered
  obtain ⟨left, k, right, slot, rfl, hleft, hright, fits, others⟩ := mirrors.located order window
  have carried := carriedOn_of_split restored others fits.ne_zero hleft hright found now
  rw [if_neg ends, List.append_nil, ← List.map_append] at carried
  let left' : Courier σ := { c with
    window := .ofList (before ++ after)
    archive := c.archive.drop e.packet
    ids := c.ids.release e.packetId }
  have acknowledged : c.call (.acknowledge e.packetId kind now) = left'.drain now := by
    have ended : c.acknowledge e.packetId kind now = _ :=
      acknowledge_of_ends ends (here.symm ▸ found)
    rw [here] at ended
    exact ended
  have entered : c.entered (.acknowledge e.packetId kind now) = (left'.drain now).1 := by
    show (if kind = .pubrec then [] else (c.call (.acknowledge e.packetId kind now)).1) = _
    rw [if_neg ends, acknowledged]
  refine ⟨?_, ?_⟩
  · rw [acknowledged, entered]
    obtain ⟨-, ⟨active', ordered⟩ | ⟨inactive, -, ordered⟩⟩ := h.drop law takes active fits
    · have mirrors' : left'.Mirrors (left ++ right) :=
        mirrors.complete others hleft hright (c.archive.drop e.packet)
      obtain ⟨ps', n', le, shows, i, all⟩ :=
        shows_fill (c := left') law takes ordered active' mirrors' now _
      refine ⟨ps', n', le, shows, .inr ⟨i, ?_⟩⟩
      rw [entered, carried]
      exact all
    · -- the archive was given up before its record was removed
      refine ⟨left ++ (k, e.packet) :: right, n, Nat.le_add_right .., ?_,
        mirrors.midway restored _⟩
      rw [drain, archive_fill now _ left' inactive]
      exact ordered.shows
  · rw [acknowledged, entered, carried, drain, window_fill]
    show (Fifo.ofList _).toList.map Inflight.packet ++ _ = _
    rw [Fifo.toList_ofList, List.map_append, hleft, hright, List.map_append]

/-- Every call with an acknowledgment proceeds. -/
lemma proceeds_acknowledge (id : UInt16) (kind : AckKind) (now : Instant) :
    c.Proceeds V start v n (.acknowledge id kind now) := by
  cases found : splitAt? id kind c.window.toList with
  | none =>
    have here : c.restore now = c := if_pos restored
    have ignored : c.call (.acknowledge id kind now) = ([], c) := by
      have silent : c.acknowledge id kind now = _ := acknowledge_of_none (here.symm ▸ found)
      rw [here] at silent
      exact silent
    have entered : c.entered (.acknowledge id kind now) = [] := by
      show (if kind = .pubrec then [] else (c.call (.acknowledge id kind now)).1) = _
      rw [ignored, ite_self]
    refine ⟨?_, ?_⟩
    · rw [ignored]
      exact ⟨ps, n, Nat.le_add_right .., h.shows, mirrors.midway restored _⟩
    · rw [ignored, entered, List.append_nil]
      show _ = (c.restore now).window.toList.filterMap (Inflight.next? id kind)
      rw [here, Inflight.filterMap_next? (splitAt?_eq_none_iff.mp found)]
  | some parts =>
    obtain ⟨before, e, after⟩ := parts
    by_cases release : kind = .pubrec
    · subst release
      exact proceeds_release law takes h active restored mirrors found now
    · exact proceeds_complete law takes h active restored mirrors release found now

/-- Every call with a message proceeds. -/
lemma proceeds_enqueue (m : Publish) (now : Instant) :
    c.Proceeds V start v n (.enqueue m now) := by
  have here : c.restore now = c := if_pos restored
  -- where no message enters the window, the archive stays as it is
  have quiet {sent : List Packet} (same : c.call (.enqueue m now) = (sent, c))
      (none : c.entered (.enqueue m now) = []) : c.Proceeds V start v n (.enqueue m now) := by
    refine ⟨⟨ps, n, Nat.le_add_right .., ?_, mirrors.midway restored _⟩, ?_⟩
    · rw [same]
      exact h.shows
    · rw [same, none, List.append_nil]
      show _ = (c.restore now).window.toList.map Inflight.packet
      rw [here]
  have entered : c.entered (.enqueue m now) =
      if m.isAcknowledged then (c.call (.enqueue m now)).1 else [] := rfl
  by_cases named : m.topic.isEmpty = true
  · have same : c.call (.enqueue m now) = ([], c) := by
      simp only [call, enqueue_of_unnamed named]
    exact quiet same (by rw [entered, same, ite_self])
  by_cases full : (c.restore now).settings.queueCapacity.toNat ≤ (c.restore now).pending
  · have same : c.call (.enqueue m now) = ([], c) := by
      simp only [call, enqueue_of_full named full, here]
    exact quiet same (by rw [entered, same, ite_self])
  by_cases acknowledged : m.isAcknowledged = true
  · let queued : Courier σ := { c with
      queue := c.queue.push { m with dup := false, packetId := 0 } }
    have taken : c.call (.enqueue m now) = queued.drain now := by
      simp only [call, enqueue_of_acknowledged named full acknowledged, here]
      rfl
    have mirrors' : queued.Mirrors ps := by
      refine ⟨mirrors.window, mirrors.taken, fun m' mem => ?_⟩
      rw [Fifo.toList_push, List.mem_append, List.mem_singleton] at mem
      obtain mem | rfl := mem
      · exact mirrors.queue m' mem
      · exact acknowledged
    have carried : c.carriedOn (.enqueue m now) = ps.map Prod.snd := by
      show (c.restore now).window.toList.map Inflight.packet = _
      rw [here, mirrors.window]
    refine ⟨?_, ?_⟩
    · rw [entered, if_pos acknowledged, taken]
      obtain ⟨ps', n', le, shows, i, all⟩ :=
        shows_fill (c := queued) law takes h active mirrors' now _
      refine ⟨ps', n', le, shows, .inr ⟨i, ?_⟩⟩
      rw [entered, if_pos acknowledged, taken, carried]
      exact all
    · rw [entered, if_pos acknowledged, taken, carried, drain, window_fill, mirrors'.window]
  · have same : c.call (.enqueue m now) =
        ([.publish { m with dup := false, packetId := 0 }], c) := by
      simp only [call, enqueue_of_plain named full acknowledged, here]
    exact quiet same (if_neg acknowledged)

end Call

/-- Whether a call takes a message or an acknowledgment. -/
def Call.delivers : Call → Bool
  | enqueue .. | acknowledge .. => true
  | _ => false

section Detached
variable {c : Courier σ} {c' : Courier τ} {ps : List (Nat × Packet)} {op : Call}

omit [RecordStore σ] in
/-- Couriers that differ in their archives mirror the same packets. -/
lemma Mirrors.of_detached (same : (c'.detached : Courier σ) = c.detached) (h : c.Mirrors ps) :
    c'.Mirrors ps := by
  have window : c'.window = c.window := congrArg Courier.window same
  have queue : c'.queue = c.queue := congrArg Courier.queue same
  have ids : c'.ids = c.ids := congrArg Courier.ids same
  refine ⟨?_, ?_, ?_⟩
  · rw [window, h.window]
  · rw [ids]
    exact h.taken
  · rw [queue]
    exact h.queue

variable [RecordStore τ]

/-- Which messages enter the window has nothing to do with the archive. -/
lemma entered_of_detached (same : (c'.detached : Courier σ) = c.detached)
    (restored : c.restored = true) (restored' : c'.restored = true) (op : Call) :
    c'.entered op = c.entered op := by
  have blank : c.IsBlank := fun fresh => Bool.noConfusion (restored.symm.trans fresh)
  have blank' : c'.IsBlank := fun fresh => Bool.noConfusion (restored'.symm.trans fresh)
  rw [← entered_detached (τ := σ) blank, ← same, entered_detached blank']

/-- What is in flight in the middle of a call has nothing to do with the archive. -/
lemma Midway.of_detached {qs : List Packet} (same : (c'.detached : Courier σ) = c.detached)
    (restored : c.restored = true) (restored' : c'.restored = true) (h : c'.Midway op qs) :
    c.Midway op qs := by
  have here : c.restore op.time = c := if_pos restored
  have here' : c'.restore op.time = c' := if_pos restored'
  have window : c'.window = c.window := congrArg Courier.window same
  have entered := entered_of_detached same restored restored' op
  have carried : c'.carriedOn op = c.carriedOn op := by
    rw [carriedOn, carriedOn, here, here', window]
  rcases h with rfl | ⟨k, rfl⟩
  · left
    rw [here, here', window]
  · right
    exact ⟨k, by rw [carried, entered]⟩

end Detached

section Stop
variable {V : StoreView σ} {start : Bytes} {clientId : String} {v : Version} {s₀ : σ}
  {c : Courier σ} {ps : List (Nat × Packet)} {n : Nat} {op : Call}

/-- Packets are taken up once. -/
lemma restore_restore (c : Courier σ) (now : Instant) :
    (c.restore now).restore now = c.restore now :=
  if_pos (restored_restore c now)

/-- A call that takes up the packets of the archive goes on as if they had been taken up before. -/
lemma call_restore (delivers : op.delivers = true) (restores : op.restores = true) :
    (c.restore op.time).call op = c.call op := by
  cases op with
  | enqueue m now =>
    have named : ¬ m.topic.isEmpty = true := by
      intro empty
      rw [Call.restores, empty] at restores
      cases restores
    have same : (c.restore now).enqueue m now = c.enqueue m now := by
      rw [enqueue, enqueue, if_neg named, if_neg named, restore_restore]
    show (c.restore now).call (.enqueue m now) = c.call (.enqueue m now)
    simp only [call, same]
  | acknowledge id kind now =>
    show (c.restore now).acknowledge id kind now = c.acknowledge id kind now
    rw [acknowledge, acknowledge, restore_restore]
  | _ => cases delivers

/-- The same messages enter if the packets of the archive were taken up before. -/
lemma entered_restore (delivers : op.delivers = true) (restores : op.restores = true) :
    (c.restore op.time).entered op = c.entered op := by
  have same := call_restore (c := c) delivers restores
  cases op with
  | enqueue m now =>
    show (if m.isAcknowledged then ((c.restore now).call (.enqueue m now)).1 else []) = _
    rw [show (c.restore now).call (.enqueue m now) = c.call (.enqueue m now) from same]
    rfl
  | acknowledge id kind now =>
    show (if kind = .pubrec then [] else ((c.restore now).call (.acknowledge id kind now)).1) = _
    rw [show (c.restore now).call (.acknowledge id kind now) = c.call (.acknowledge id kind now)
      from same]
    rfl
  | _ => cases delivers

/-- A message that cannot be sent changes nothing. -/
lemma call_of_not_restores (delivers : op.delivers = true) (restores : op.restores = false) :
    c.call op = ([], c) ∧ c.entered op = [] := by
  cases op with
  | enqueue m now =>
    have named : m.topic.isEmpty = true := by simpa [Call.restores] using restores
    have same : c.call (.enqueue m now) = ([], c) := by
      simp only [call, enqueue_of_unnamed named]
    refine ⟨same, ?_⟩
    show (if m.isAcknowledged then (c.call (.enqueue m now)).1 else []) = _
    rw [same, ite_self]
  | acknowledge => cases restores
  | _ => cases delivers

/-- What is taken up depends on what is read only. -/
lemma detached_restore_of_fresh (fresh : c.restored = false) (now : Instant) :
    ((c.restore now).detached : Courier τ) =
      c.archive.readAll.1.foldl (takeUp now) (c.detached : Courier τ) := by
  have restored : c.restore now = c.archive.readAll.1.foldl (takeUp now)
      { c with archive := c.archive.readAll.2, restored := true } := by
    rw [restore, fresh]
    rfl
  rw [restored, ← foldl_takeUp_detached]
  rfl

/-- A courier that may stop as it takes up the packets of its archive takes up all of them, or its
archive is given up as it is. -/
lemma restore_stoppingAfter (law : V.Lawful) (takes : Journal.TakesAll V start)
    (h : c.Tracks V start v ps n) (active : c.archive.isActive = true) (now : Instant) (i : Nat) :
    let c' := (c.stoppingAfter i).restore now
    c'.archive.Ordered (Unreliable.view V) start v ps n ∧
      (c'.archive.isActive = true → (c'.detached : Courier σ) = (c.restore now).detached) := by
  intro c'
  have active' : (c.stoppingAfter i).archive.isActive = true :=
    (c.archive.isActive_stoppingAfter i).trans active
  have ordered : (c.stoppingAfter i).archive.Ordered (Unreliable.view V) start v ps n :=
    (Archive.ranks_iff.mp h.ranks).1.stoppingAfter i
  cases fresh : c.restored with
  | true =>
    have here : c.restore now = c := if_pos fresh
    have here' : c' = c.stoppingAfter i := if_pos fresh
    rw [here', here]
    exact ⟨ordered, fun _ => rfl⟩
  | false =>
    obtain ⟨-, room⟩ := h.idle active fresh
    obtain ⟨read, -, -⟩ := h.ranks.readAll law takes active (Nat.le_of_lt room)
    have archive : c'.archive = (c.stoppingAfter i).archive.readAll.2 :=
      archive_restore (c := c.stoppingAfter i) fresh now
    obtain ⟨-, ordered', read'⟩ := ordered.readAll (Unreliable.lawful law)
      ⟨takes.takes_start, takes.takes_key⟩ active' (Nat.le_of_lt room)
    rw [archive]
    refine ⟨ordered', fun kept => ?_⟩
    obtain ⟨-, read'⟩ | ⟨inactive, -⟩ := read'
    · rw [detached_restore_of_fresh fresh, detached_restore_of_fresh (c := c.stoppingAfter i) fresh,
        read, read']
      rfl
    · exact absurd kept (by rw [inactive]; nofun)

/-- The same is carried on if the packets of the archive were taken up before. -/
lemma carriedOn_restore (c : Courier σ) (op : Call) :
    (c.restore op.time).carriedOn op = c.carriedOn op := by
  rw [carriedOn, restore_restore, carriedOn]

/-- What is a point of a call once the archive is taken up is a point of the call. -/
lemma Midway.of_restore {qs : List Packet} (delivers : op.delivers = true)
    (restores : op.restores = true) (h : (c.restore op.time).Midway op qs) : c.Midway op qs := by
  have carried := carriedOn_restore c op
  rcases h with rfl | ⟨k, rfl⟩
  · left
    rw [restore_restore]
  · right
    exact ⟨k, by rw [carried, entered_restore delivers restores]⟩

section
variable (law : V.Lawful) (takes : Journal.TakesAll V start) (h : c.Tracks V start v ps n)
  (active : c.archive.isActive = true)
include law takes h active

/-- Once the packets of the archive are taken up they are in flight. -/
lemma Tracks.mirrors_restore (now : Instant) :
    (c.restore now).archive.isActive = true ∧ (c.restore now).archive.Ordered V start v ps n ∧
      (c.restore now).Mirrors ps := by
  have taken : (c.restore now).archive.isActive = true ∧ (c.restore now).Tracks V start v ps n := by
    cases fresh : c.restored with
    | true =>
      have here : c.restore now = c := if_pos fresh
      rw [here]
      exact ⟨active, h⟩
    | false => exact tracks_restore law takes h active fresh now
  obtain ⟨active', tracks⟩ := taken
  exact ⟨active', (Archive.ranks_iff.mp tracks.ranks).1,
    tracks.mirrors active' (restored_restore c now)⟩

/-- Wherever a call is stopped, packets in the middle of it are read from the archive. -/
lemma Tracks.shows_stoppingAfter (delivers : op.delivers = true) (i : Nat) :
    ∃ qs n', n' ≤ n + (c.entered op).length ∧
      ((c.stoppingAfter i).call op).2.archive.Shows (Unreliable.view V) start v qs n' ∧
      c.Midway op (qs.map Prod.snd) := by
  obtain ⟨-, -, mirrors⟩ := h.mirrors_restore law takes active op.time
  have before : c.Midway op (ps.map Prod.snd) := .inl mirrors.window.symm
  obtain ⟨ordered, same⟩ := restore_stoppingAfter law takes h active op.time i
  let c' := (c.stoppingAfter i).restore op.time
  cases restores : op.restores with
  | false =>
    obtain ⟨stays, -⟩ := call_of_not_restores (c := c.stoppingAfter i) delivers restores
    rw [stays]
    have ordered := (Archive.ranks_iff.mp h.ranks).1.stoppingAfter i
    exact ⟨ps, n, Nat.le_add_right .., ordered.shows, before⟩
  | true =>
    rw [← call_restore (c := c.stoppingAfter i) delivers restores]
    cases kept : c'.archive.isActive with
    | false =>
      -- what was given up as the packets were taken up is not touched by the rest of the call
      have stays : (c'.call op).2.archive = c'.archive := archive_of_run (run_call c' op).2 kept
      refine ⟨ps, n, Nat.le_add_right .., ?_, before⟩
      rw [stays]
      exact ordered.shows
    | true =>
      have restored := restored_restore c op.time
      have restored' := restored_restore (c.stoppingAfter i) op.time
      have law' := Unreliable.lawful law
      have takes' : Journal.TakesAll (Unreliable.view V) start :=
        ⟨takes.takes_start, takes.takes_key⟩
      have mirrors' : c'.Mirrors ps := mirrors.of_detached (same kept)
      have proceeds : c'.Proceeds (Unreliable.view V) start v n op := by
        cases op with
        | enqueue m now =>
          exact proceeds_enqueue law' takes' ordered kept restored' mirrors' m now
        | acknowledge id kind now =>
          exact proceeds_acknowledge law' takes' ordered kept restored' mirrors' id kind now
        | _ => cases delivers
      obtain ⟨qs, n', le, shows, midway⟩ := proceeds.shows
      have entered := entered_of_detached (same kept) restored restored' op
      rw [entered, entered_restore delivers restores] at le
      exact ⟨qs, n', le, shows,
        (midway.of_detached (same kept) restored restored').of_restore delivers restores⟩

/-- A call that is not stopped ends with all messages that entered in the window. -/
lemma Tracks.window_call (delivers : op.delivers = true) :
    ((c.call op).2.restore op.time).window.toList.map Inflight.packet =
      c.carriedOn op ++ c.entered op := by
  obtain ⟨active', ordered, mirrors⟩ := h.mirrors_restore law takes active op.time
  have restored := restored_restore c op.time
  cases restores : op.restores with
  | false =>
    obtain ⟨stays, none⟩ := call_of_not_restores (c := c) delivers restores
    rw [stays, none, List.append_nil]
    cases op with
    | enqueue m now => rfl
    | acknowledge => cases restores
    | _ => cases delivers
  | true =>
    have proceeds : (c.restore op.time).Proceeds V start v n op := by
      cases op with
      | enqueue m now => exact proceeds_enqueue law takes ordered active' restored mirrors m now
      | acknowledge id kind now =>
        exact proceeds_acknowledge law takes ordered active' restored mirrors id kind now
      | _ => cases delivers
    have restored' : (c.call op).2.restored = true := by
      rw [← call_restore delivers restores]
      exact (run_call (c.restore op.time) op).2.restored restored
    rw [restore, if_pos restored', ← call_restore delivers restores, proceeds.window,
      carriedOn_restore, entered_restore delivers restores]

end

/-- A journal that is opened on what an archive shows reads exactly that. -/
lemma readAll_of_shows (law : V.Lawful)
    (takes : Journal.TakesAll V (Journal.startOf (Bytes.ofText clientId)))
    (short : (Bytes.ofText clientId).length < 65536) {s : σ} {recs : Slots} (live : V.live s)
    (sound : V.sound s)
    (keeps : Journal.Keeps (Journal.startOf (Bytes.ofText clientId)) v (V.records s) recs)
    (shown : recs.visible.Ranks v ps n) (room : n ≤ 2 ^ 64) :
    ∃ j s₁ s₂, Journal.openFor clientId v s = (.ok j, s₁) ∧
      Journal.readAll (j, s₁) = (.ok (ps.map Prod.snd), j, s₂) := by
  obtain ⟨j, s₁, opened⟩ := Journal.exists_openFor law takes live sound keeps short
  obtain ⟨leads, ⟨start, rfl, -⟩, same⟩ := (Journal.meets_openFor law takes live keeps).of_ok opened
  rw [← same, ← start] at keeps
  obtain ⟨qs, ⟨j', s₂⟩, read, -, rfl, ⟨rs, listed, rfl⟩, -⟩ :=
    (Journal.meets_readAll law (start ▸ takes) leads.live keeps).answers
      fun e js fails => fails.2.unsound (leads.sound sound)
  rw [Journal.replay_eq_of_visible listed keeps.fits shown room] at read
  exact ⟨j', s₁, s₂, opened, read⟩

/-- A courier stops in a message or an acknowledgment that it takes, behind any number of calls of
its store. The next one reads what was in flight before, or what is in flight once the
acknowledgment is dealt with and then the first of the messages that enter the window: each message
in one stage, and none lost. If the courier does not stop, all of these messages are in flight. -/
theorem Generation.midway_of_stoppingAfter (law : V.Lawful)
    (takes : Journal.TakesAll V (Journal.startOf (Bytes.ofText clientId))) (live : V.live s₀)
    (sound : V.sound s₀)
    (fresh : ∀ key, Journal.startOf (Bytes.ofText clientId) <+: key → V.records s₀ key = none)
    (h : Generation clientId v s₀ c) (persistent : c.isPersistent = true)
    (delivers : op.delivers = true)
    (room : c.archive.nextSeq.toNat + (c.entered op).length ≤ 2 ^ 64) :
    ((c.call op).2.restore op.time).window.toList.map Inflight.packet =
        c.carriedOn op ++ c.entered op ∧
      ∀ i, ∃ u j s ps s', ((c.stoppingAfter i).call op).2.archive.store? = some u ∧
        Journal.openFor clientId v u.store = (.ok j, s) ∧
        Journal.readAll (j, s) = (.ok ps, j, s') ∧ c.Midway op ps ∧
        ps.Pairwise fun p q => p.packetId? ≠ q.packetId? := by
  -- the states from which no call of the store fails are taken as those that its laws are about
  have steady := law.steady
  have takes' : Journal.TakesAll V.steady (Journal.startOf (Bytes.ofText clientId)) :=
    ⟨takes.takes_start, takes.takes_key⟩
  obtain ⟨ps, n, small, tracks⟩ := h.tracks steady takes' ⟨live, sound⟩ sound fresh
  refine ⟨tracks.window_call steady takes' persistent delivers, fun i => ?_⟩
  obtain ⟨qs, n', le, ⟨recs, holds, shown⟩, midway⟩ :=
    tracks.shows_stoppingAfter steady takes' persistent delivers i
  obtain ⟨u, stored, ⟨-, live', sound'⟩, keeps⟩ := holds.store
  have counted : c.archive.nextSeq.toNat = n := by
    obtain ⟨_, -, -, counted, -⟩ := tracks.ranks
    rw [counted, UInt64.toNat_ofNat_of_lt' small]
  obtain ⟨j, s, s', opened, read⟩ :=
    readAll_of_shows law takes h.length_lt live' sound' keeps shown (by omega)
  exact ⟨u, j, s, _, s', stored, opened, read, midway, List.pairwise_map.mpr shown.apart⟩

/-- A courier sends one message at a time and stops as the first of two ends. The next one goes on
with the first, with none, or with the second. -/
theorem Generation.midway_of_stoppingAfter_drain :
    let first : Publish := { qos := .atLeastOnce, topic := "a", payload := [1] }
    let second : Publish := { qos := .atLeastOnce, topic := "a", payload := [2] }
    let c₀ := withJournal { inflightWindow := 1 } ⟨[0, 1, 97], .v311, 0⟩ Table.empty
    let c := ((c₀.call (.enqueue first .origin)).2.call (.enqueue second .origin)).2
    ∀ i, ∃ u j s ps s',
      ((c.stoppingAfter i).call (.acknowledge 1 .puback .origin)).2.archive.store? = some u ∧
      Journal.openFor "a" .v311 u.store = (.ok j, s) ∧ Journal.readAll (j, s) = (.ok ps, j, s') ∧
      (ps = [.publish { first with packetId := 1 }] ∨ ps = [] ∨
        ps = [.publish { second with packetId := 2 }]) := by
  intro first second c₀ c i
  have opened : Generation "a" .v311 Table.empty c₀ := .first rfl
  have sent := opened.call (.enqueue first .origin) (.inr (by decide +kernel))
  have waits := sent.call (.enqueue second .origin) (.inr (by decide +kernel))
  have delivers : (Call.acknowledge 1 .puback .origin).delivers = true := rfl
  obtain ⟨-, stops⟩ := Generation.midway_of_stoppingAfter (V := Table.view) Table.lawful
    ⟨trivial, fun _ _ => trivial⟩ trivial trivial (fun _ _ => rfl) waits (by decide +kernel)
    delivers (by decide +kernel)
  obtain ⟨u, j, s, ps, s', stored, opened, read, midway, -⟩ := stops i
  refine ⟨u, j, s, ps, s', stored, opened, read, ?_⟩
  have window : (c.restore .origin).window.toList.map Inflight.packet =
      [.publish { first with packetId := 1 }] := by decide +kernel
  have carried : c.carriedOn (.acknowledge 1 .puback .origin) = [] := by decide +kernel
  have entered : c.entered (.acknowledge 1 .puback .origin) =
      [.publish { second with packetId := 2 }] := by decide +kernel
  rcases midway with rfl | ⟨k, rfl⟩
  · exact .inl window
  · right
    rw [carried, entered]
    cases k with
    | zero => exact .inl rfl
    | succ k => exact .inr (congrArg (List.cons _) (List.take_nil))

end Stop

end Courier
end MqttClient
