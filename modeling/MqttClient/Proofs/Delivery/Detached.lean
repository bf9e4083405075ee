import MqttClient.Proofs.Delivery.Step
import MqttClient.Proofs.Session.Clearing
import Mathlib.Tactic.Common

/-!
# Couriers without their archives

The archive of a courier has no say in what is delivered. Where it had nothing to be taken up, every
call is answered as it would be without an archive, and leaves the same queue, window and
identifiers, whatever the store does and however it fails.
-/

namespace MqttClient

/-- Nothing is read where no key is listed. -/
lemma Journal.IsBlank.readAll {σ : Type} [RecordStore σ] {j : Journal} {s : σ} (h : j.IsBlank s) :
    (Archive.active j s).readAll.1 = [] := by
  have asked : Journal.readAll (j, s) =
      (Journal.onStore (Journal.load j.version j.start) >>= fun rs => pure (Journal.replay rs))
        (j, s) := StoreM.bind_of_ok rfl
  rw [Archive.readAll, Archive.attempt, asked]
  rcases listed : RecordStore.keys j.start s with ⟨e | keys, s'⟩
  · have loaded : Journal.load j.version j.start s = (.error e, s') := StoreM.bind_of_error listed
    have asked : Journal.onStore (Journal.load j.version j.start) (j, s) = (.error e, j, s') := by
      rw [Journal.onStore, loaded]
    rw [StoreM.bind_of_error asked]
    rfl
  · obtain rfl : keys = [] := h keys s' listed
    have loaded : Journal.load j.version j.start s = (.ok [], s') := StoreM.bind_of_ok listed
    have asked : Journal.onStore (Journal.load j.version j.start) (j, s) = (.ok [], j, s') := by
      rw [Journal.onStore, loaded]
    rw [StoreM.bind_of_ok asked]
    show Journal.replay [] = []
    simp [Journal.replay]

namespace Courier
variable {σ τ : Type}

/-- What the caller is told. -/
inductive Reply where
  /-- Which packets are to be sent, or why a message is not taken. -/
  | sent (answer : Except DeliveryError (List Packet))
  /-- Which identifier is taken. -/
  | lent (answer : Except DeliveryError UInt16)
  /-- Nothing. -/
  | done
  deriving DecidableEq

/-- The courier as it is without its archive. -/
def detached (c : Courier σ) : Courier τ :=
  ⟨c.settings, c.queue, c.window, c.ids, .absent, true⟩

/-- Without its archive a courier has the same settings. -/
@[simp]
lemma detached_settings (c : Courier σ) : (c.detached : Courier τ).settings = c.settings := rfl

/-- Without its archive a courier has the same queue. -/
@[simp]
lemma detached_queue (c : Courier σ) : (c.detached : Courier τ).queue = c.queue := rfl

/-- Without its archive a courier has the same window. -/
@[simp]
lemma detached_window (c : Courier σ) : (c.detached : Courier τ).window = c.window := rfl

/-- Without its archive a courier has the same identifiers. -/
@[simp]
lemma detached_ids (c : Courier σ) : (c.detached : Courier τ).ids = c.ids := rfl

/-- Without its archive a courier has none. -/
@[simp]
lemma detached_archive (c : Courier σ) : (c.detached : Courier τ).archive = .absent := rfl

/-- Identifiers are given back without a look at the archive. -/
lemma releasePacketId_detached (c : Courier σ) (i : UInt16) :
    (c.detached : Courier τ).releasePacketId i = (c.releasePacketId i).detached := by
  unfold releasePacketId
  rw [detached_window]
  split <;> rfl

/-- Packets are taken up without a look at the archive that they come from. -/
lemma foldl_takeUp_detached (now : Instant) (ps : List Packet) (c : Courier σ) :
    ps.foldl (takeUp now) (c.detached : Courier τ) = (ps.foldl (takeUp now) c).detached := by
  induction ps generalizing c with
  | nil => rfl
  | cons p ps ih =>
    rw [List.foldl_cons, List.foldl_cons, ← ih]
    congr 1
    unfold takeUp
    rw [detached_ids]
    split <;> rfl

variable [RecordStore σ] [RecordStore τ]

/-- What the caller of a call is told. -/
def reply (c : Courier σ) : Call → Reply
  | .enqueue m now => .sent (c.enqueue m now).1
  | .acknowledge id kind now => .sent (.ok (c.acknowledge id kind now).1)
  | .retry now => .sent (.ok (c.retry now).1)
  | .recover now => .sent (.ok (c.recover now).1)
  | .connected cleanSession now => .sent (.ok (c.connected cleanSession now).1)
  | .nextPacketId => .lent c.nextPacketId.1
  | .cleanAll | .releasePacketId _ => .done

/-- What the caller is told, call by call. -/
def replies (c : Courier σ) : List Call → List Reply
  | [] => []
  | op :: ops => c.reply op :: (c.call op).2.replies ops

/-- Whether there is nothing to be taken up. -/
def IsBlank (c : Courier σ) : Prop :=
  c.restored = false → c.archive.readAll.1 = []

variable {c c' : Courier σ} {now : Instant} {es : List Event}

/-- No step puts anything in an archive that was not looked at. -/
lemma IsBlank.step (h : c.IsBlank) (step : Step now c es c') : c'.IsBlank := by
  cases step with
  | restore => exact fun fresh => absurd (restored_restore c now) (by rw [fresh]; nofun)
  | clean => exact fun fresh => Bool.noConfusion fresh
  | settle | giveBack | retain => exact h
  | pass restored | accept restored | send restored | release restored | complete restored
  | resend restored | replay restored | take restored =>
    exact fun fresh => Bool.noConfusion (restored.symm.trans fresh)

/-- Nothing is there to be taken up behind a run if nothing was before. -/
lemma IsBlank.run (h : c.IsBlank) (run : Run now c es c') : c'.IsBlank := by
  induction run with
  | refl => exact h
  | step first _ ih => exact ih (h.step first)

omit [RecordStore τ] in
/-- Looking at an archive that has nothing is not seen without the archive. -/
lemma IsBlank.detached_restore (h : c.IsBlank) (now : Instant) :
    ((c.restore now).detached : Courier τ) = c.detached := by
  unfold restore
  split
  · rfl
  · rename_i fresh
    rw [Bool.not_eq_true] at fresh
    have nothing := h fresh
    rcases read : c.archive.readAll with ⟨packets, archive⟩
    rw [read] at nothing
    obtain rfl : packets = [] := nothing
    rfl

omit [RecordStore σ] in
/-- Without an archive nothing is taken up. -/
lemma restore_detached (c : Courier σ) (now : Instant) :
    (c.detached : Courier τ).restore now = c.detached :=
  if_pos rfl

/-- What the store does has no say in which messages enter the window. -/
lemma fill_detached (now : Instant) (room : Nat) (c : Courier σ) :
    (c.detached : Courier τ).fill now room = (c.fill now room).map id detached := by
  induction room generalizing c with
  | zero => rfl
  | succ room ih =>
    obtain ⟨settings, queue, window, ids, archive, restored⟩ := c
    simp only [fill, detached]
    cases ids.allocate? with
    | none => rfl
    | some taken =>
      cases queue.pop? with
      | none => rfl
      | some first =>
        have rest := ih ⟨settings, first.2,
          window.push ⟨.publish { first.1 with packetId := taken.1 }, now⟩, taken.2,
          archive.save (.publish { first.1 with packetId := taken.1 }), restored⟩
        exact congrArg (fun r => (Packet.publish { first.1 with packetId := taken.1 } :: r.1, r.2))
          rest

/-- Draining does the same without the archive. -/
lemma drain_detached (c : Courier σ) (now : Instant) :
    (c.detached : Courier τ).drain now = (c.drain now).map id detached :=
  fill_detached now _ c

/-- Taking a message for delivery does the same without the archive. -/
lemma enqueue_detached (h : c.IsBlank) (m : Publish) (now : Instant) :
    (c.detached : Courier τ).enqueue m now = (c.enqueue m now).map id detached := by
  have looked := h.detached_restore (τ := τ) now
  unfold enqueue
  split
  · rfl
  · rw [restore_detached, ← looked]
    generalize c.restore now = r
    change (if r.settings.queueCapacity.toNat ≤ r.pending then _ else _) = _
    dsimp only
    split
    · rfl
    · split
      · have moved := drain_detached (τ := τ)
          { r with queue := r.queue.push { m with dup := false, packetId := 0 } } now
        exact congrArg (fun r => (Except.ok r.1, r.2)) moved
      · rfl

/-- An acknowledgment does the same without the archive. -/
lemma acknowledge_detached (h : c.IsBlank) (i : UInt16) (kind : AckKind) (now : Instant) :
    (c.detached : Courier τ).acknowledge i kind now =
      (c.acknowledge i kind now).map id detached := by
  have looked := h.detached_restore (τ := τ) now
  unfold acknowledge
  rw [restore_detached, ← looked]
  generalize c.restore now = r
  simp only [detached_window]
  rcases splitAt? i kind r.window.toList with _ | ⟨before, e, after⟩
  · rfl
  · cases kind with
    | pubrec => rfl
    | puback | pubcomp => exact drain_detached (τ := τ) { r with
        window := .ofList (before ++ after)
        archive := r.archive.drop e.packet
        ids := r.ids.release i } now

/-- What is due is due without an archive too. -/
lemma resend_absent (now : Instant) (interval : UInt64) (window : List Inflight)
    (archive : Archive σ) :
    resend now interval window (.absent : Archive τ) =
      ((resend now interval window archive).1, (resend now interval window archive).2.1,
        .absent) := by
  induction window generalizing archive with
  | nil => rfl
  | cons e window ih =>
    unfold resend
    split
    · have rest := ih (archive.save (e.again now).packet)
      exact congrArg (fun r => ((e.again now).packet :: r.1, e.again now :: r.2.1, r.2.2)) rest
    · have rest := ih archive
      exact congrArg (fun r => (r.1, e :: r.2.1, r.2.2)) rest

/-- Sending again does the same without the archive. -/
lemma retry_detached (h : c.IsBlank) (now : Instant) :
    (c.detached : Courier τ).retry now = (c.retry now).map id detached := by
  have looked := h.detached_restore (τ := τ) now
  unfold retry
  rw [restore_detached, ← looked]
  generalize c.restore now = r
  simp only [detached_window, detached_settings, detached_archive]
  rw [resend_absent now _ _ r.archive]
  rfl

/-- Recovering does the same without the archive. -/
lemma recover_detached (h : c.IsBlank) (now : Instant) :
    (c.detached : Courier τ).recover now = (c.recover now).map id detached := by
  have looked := h.detached_restore (τ := τ) now
  unfold recover
  rw [restore_detached, ← looked]
  generalize c.restore now = r
  have moved := drain_detached (τ := τ)
    { r with window := .ofList (r.window.toList.map fun e => { e with lastSent := now }) } now
  exact congrArg (fun sent => (_ ++ sent.1, sent.2)) moved

/-- Lending an identifier does the same without the archive. -/
lemma nextPacketId_detached (h : c.IsBlank) :
    (c.detached : Courier τ).nextPacketId = c.nextPacketId.map id detached := by
  have looked := h.detached_restore (τ := τ) .origin
  unfold nextPacketId
  rw [restore_detached, ← looked]
  generalize c.restore .origin = r
  simp only [detached_ids]
  cases r.ids.allocate? <;> rfl

/-- A call does without the archive what it does with one that had nothing. -/
lemma call_detached (h : c.IsBlank) (op : Call) :
    (c.detached : Courier τ).call op = (c.call op).map id detached := by
  cases op with
  | enqueue m now =>
    simp only [call, enqueue_detached h]
    rcases c.enqueue m now with ⟨_ | _, _⟩ <;> rfl
  | acknowledge i kind now => exact acknowledge_detached h i kind now
  | retry now => exact retry_detached h now
  | recover now => exact recover_detached h now
  | connected cleanSession now =>
    cases cleanSession with
    | true => rfl
    | false => exact recover_detached h now
  | cleanAll => rfl
  | nextPacketId =>
    show ([], (c.detached : Courier τ).nextPacketId.2) = _
    rw [nextPacketId_detached h]
    rfl
  | releasePacketId i => exact congrArg (Prod.mk []) (releasePacketId_detached c i)

/-- The caller of a call is told without the archive what it is told with one that had nothing. -/
lemma reply_detached (h : c.IsBlank) (op : Call) :
    (c.detached : Courier τ).reply op = c.reply op := by
  cases op with
  | enqueue m now =>
    show Reply.sent ((c.detached : Courier τ).enqueue m now).1 = _
    rw [enqueue_detached h]
    rfl
  | acknowledge i kind now =>
    show Reply.sent (.ok ((c.detached : Courier τ).acknowledge i kind now).1) = _
    rw [acknowledge_detached h]
    rfl
  | retry now =>
    show Reply.sent (.ok ((c.detached : Courier τ).retry now).1) = _
    rw [retry_detached h]
    rfl
  | recover now =>
    show Reply.sent (.ok ((c.detached : Courier τ).recover now).1) = _
    rw [recover_detached h]
    rfl
  | connected cleanSession now =>
    cases cleanSession with
    | true => rfl
    | false =>
      show Reply.sent (.ok ((c.detached : Courier τ).recover now).1) = _
      rw [recover_detached h]
      rfl
  | nextPacketId =>
    show Reply.lent (c.detached : Courier τ).nextPacketId.1 = _
    rw [nextPacketId_detached h]
    rfl
  | cleanAll | releasePacketId _ => rfl

/-- The same messages enter the window without the archive and with one that had nothing. -/
lemma entered_detached (h : c.IsBlank) (op : Call) :
    (c.detached : Courier τ).entered op = c.entered op := by
  have resumed (now : Instant) :
      (c.detached : Courier τ).entered (.recover now) = c.entered (.recover now) := by
    have looked := congrArg Courier.window (h.detached_restore (τ := τ) now)
    show ((c.detached : Courier τ).recover now).1.drop _ = (c.recover now).1.drop _
    rw [recover_detached h, restore_detached, ← looked]
    rfl
  cases op with
  | enqueue m now =>
    show (if m.isAcknowledged then ((c.detached : Courier τ).call (.enqueue m now)).1 else []) = _
    rw [call_detached h]
    rfl
  | acknowledge i kind now =>
    show (if kind = .pubrec then [] else ((c.detached : Courier τ).acknowledge i kind now).1) = _
    rw [acknowledge_detached h]
    rfl
  | recover now => exact resumed now
  | connected cleanSession now =>
    cases cleanSession with
    | true => rfl
    | false => exact resumed now
  | retry | cleanAll | nextPacketId | releasePacketId => rfl

omit [RecordStore τ] in
/-- A call takes up nothing where there is nothing to be taken up. -/
lemma IsBlank.call (h : c.IsBlank) (op : Call) : (c.call op).2.IsBlank :=
  h.run (run_call c op).2

/-- Calls do without the archive what they do with one that had nothing. -/
lemma after_detached (h : c.IsBlank) (ops : List Call) :
    (c.detached : Courier τ).replies ops = c.replies ops ∧
      (c.detached : Courier τ).after ops = (c.after ops).detached := by
  induction ops generalizing c with
  | nil => exact ⟨rfl, rfl⟩
  | cons op ops ih =>
    obtain ⟨told, left⟩ := ih (h.call op)
    unfold replies after
    rw [reply_detached h, call_detached h]
    exact ⟨congrArg (List.cons _) told, left⟩

/-- A courier whose store fails, however it does, tells its callers what a courier without archive
tells them, call by call, and has the same queue, window and identifiers, as long as the store had
nothing to begin with. -/
theorem replies_withJournal (settings : Settings) {j : Journal} {s : σ} (blank : j.IsBlank s)
    (ops : List Call) :
    let c := withJournal settings j s
    let plain : Courier τ := volatile settings
    c.replies ops = plain.replies ops ∧ (c.after ops).queue = (plain.after ops).queue ∧
      (c.after ops).window = (plain.after ops).window ∧
      (c.after ops).ids = (plain.after ops).ids := by
  intro c plain
  have begun : c.IsBlank := fun _ => blank.readAll
  have same : plain = c.detached := rfl
  obtain ⟨told, left⟩ := after_detached (τ := τ) begun ops
  rw [same, told, left]
  exact ⟨rfl, rfl, rfl, rfl⟩

/-- The store fails as a release is to be kept. The release is sent all the same. -/
theorem replies_withJournal_failing :
    let settings : Settings := {}
    let j : Journal := ⟨[0, 1, 97], .v311, 0⟩
    let s : Unreliable Table :=
      ⟨.empty, fun n call => if n = 4 ∧ call = .get then some .readError else none, 0⟩
    let m : Publish := { qos := .exactlyOnce, topic := "a", payload := [1] }
    let ops : List Call := [.enqueue m .origin, .acknowledge 1 .pubrec .origin]
    let c := withJournal settings j s
    j.IsBlank s ∧ (c.after ops).isPersistent = false ∧
      c.replies ops = [.sent (.ok [.publish { m with packetId := 1 }]),
        .sent (.ok [.pubrel { packetId := 1 }])] := by
  intro settings j s m ops c
  have blank : j.IsBlank s := Journal.IsBlank.unreliable (Table.isBlank (by decide +kernel))
  refine ⟨blank, by decide +kernel, ?_⟩
  rw [(replies_withJournal (τ := Table) settings blank ops).1]
  decide +kernel

end Courier
end MqttClient
