import MqttClient.Proofs.Delivery.Discipline
import MqttClient.Proofs.Delivery.Restoration
import MqttClient.Store.Table

/-!
# When packets are sent again

A packet in flight carries the time of its last sending, or of the call that took it up, whatever
the clock did in between. So what is due is decided by what was really sent: a retry sends what has
waited for the retry interval and nothing else, and it does not do so again before the interval has
passed once more.
-/

namespace MqttClient

/-- The packet as a retry sends it: a message is marked as sent before. -/
def Packet.repeated : Packet → Packet
  | .publish m => .publish { m with dup := true }
  | p => p

/-- A packet that is sent again has the same identifier. -/
lemma Packet.packetId?_repeated (p : Packet) : p.repeated.packetId? = p.packetId? := by
  cases p <;> rfl

/-- A packet that is sent again is stamped anew. -/
lemma Inflight.again_eq (e : Inflight) (now : Instant) :
    e.again now = ⟨e.packet.repeated, now⟩ := by
  obtain ⟨packet, lastSent⟩ := e
  cases packet <;> rfl

/-- The time since a point is the difference, or zero if the point is later. -/
lemma Instant.toNat_since (t u : Instant) :
    (t.since u).toNat = t.millis.toNat - u.millis.toNat := by
  unfold since
  split
  · rename_i le
    exact (Nat.sub_eq_zero_of_le le).symm
  · rename_i lt
    exact UInt64.toNat_sub_of_le _ _ (UInt64.le_of_lt (UInt64.not_le.mp lt))

/-- A packet is due when the interval has passed since it was sent last. -/
lemma Inflight.isDue_eq_decide (e : Inflight) (now : Instant) (interval : UInt64) :
    e.isDue now interval =
      decide (interval.toNat ≤ now.millis.toNat - e.lastSent.millis.toNat) := by
  rw [isDue, decide_eq_decide, UInt64.le_iff_toNat_le, Instant.toNat_since]

namespace Courier
variable {σ : Type}

/-- The point in time that a call is told, if it is told one. -/
def Call.time? : Call → Option Instant
  | enqueue _ now | acknowledge _ _ now | retry now | recover now | connected _ now => some now
  | cleanAll | nextPacketId | releasePacketId _ => none

/-- Whether a packet in flight is the last one of its identifier in a record of packets and times,
and was recorded at the time that it carries. -/
def LastIn (log : List (Instant × Packet)) (e : Inflight) : Prop :=
  ∃ before after, log = before ++ (e.lastSent, e.packet) :: after ∧
    ∀ x ∈ after, x.2.packetId? ≠ some e.packetId

namespace LastIn
variable {log log' : List (Instant × Packet)} {e : Inflight}

/-- A packet is still the last one of its identifier when others follow. -/
lemma append (h : LastIn log e) (others : ∀ x ∈ log', x.2.packetId? ≠ some e.packetId) :
    LastIn (log ++ log') e := by
  obtain ⟨before, after, rfl, later⟩ := h
  refine ⟨before, after ++ log', ?_, ?_⟩
  · rw [List.append_assoc, List.cons_append]
  · exact List.forall_mem_append.mpr ⟨later, others⟩

/-- A packet is the last one of its identifier whatever came before. -/
lemma prepend (h : LastIn log' e) (log : List (Instant × Packet)) : LastIn (log ++ log') e := by
  obtain ⟨before, after, rfl, later⟩ := h
  exact ⟨log ++ before, after, (List.append_assoc ..).symm, later⟩

/-- If the identifier is on record after some time, the packet was recorded after it. -/
lemma mem_of_later (h : LastIn (log ++ log') e)
    (present : ∃ x ∈ log', x.2.packetId? = some e.packetId) : (e.lastSent, e.packet) ∈ log' := by
  obtain ⟨before, after, split, later⟩ := h
  obtain ⟨rest, rfl, rfl⟩ | ⟨rest, rfl, tail⟩ := List.append_eq_append_iff.mp split
  · exact List.mem_append_right _ (List.mem_cons_self ..)
  · obtain ⟨x, mem, under⟩ := present
    cases rest with
    | nil =>
      rw [List.nil_append] at tail
      rw [← tail]
      exact List.mem_cons_self ..
    | cons y rest =>
      -- everything that is recorded later has other identifiers
      obtain ⟨-, rfl⟩ := List.cons.inj tail
      exact absurd under (later x (List.mem_append_right _ mem))

end LastIn

section
variable {now : Instant} {c c' : Courier σ} {out : Finset UInt16} {ps : List Packet}

/-- Whether every packet in flight was so before, and no other packet came to light under its
identifier, or it is the last one that came to light under it, and carries the time. -/
def Stamps (now : Instant) (c : Courier σ) (ps : List Packet) (c' : Courier σ) : Prop :=
  ∀ e ∈ c'.window.toList,
    (e ∈ c.window.toList ∧ ∀ p ∈ ps, p.packetId? ≠ some e.packetId) ∨
      LastIn (ps.map (now, ·)) e

/-- Packets that stay in flight keep their times. -/
lemma stamps_of_subset (h : ∀ e ∈ c'.window.toList, e ∈ c.window.toList) :
    Stamps now c [] c' :=
  fun e mem => .inl ⟨h e mem, List.forall_mem_nil _⟩

/-- One packet in flight is sent, and the others were in flight before. -/
lemma stamps_of_one (h : c'.Disciplined out) {before after : List Inflight} {p : Packet}
    (window : c'.window.toList = before ++ ⟨p, now⟩ :: after)
    (others : ∀ e ∈ before ++ after, e ∈ c.window.toList) : Stamps now c [p] c' := by
  intro e mem
  have named := h.packetId? (e := ⟨p, now⟩) (by
    rw [window]
    exact List.mem_append_right _ (List.mem_cons_self ..))
  rw [window, List.mem_append, List.mem_cons, or_left_comm, ← List.mem_append] at mem
  obtain rfl | mem := mem
  · exact .inr ⟨[], [], rfl, List.forall_mem_nil _⟩
  · refine .inl ⟨others e mem, fun q only => ?_⟩
    rw [List.mem_singleton.mp only]
    exact fun same => h.others_ne window e mem (Option.some_inj.mp (named.symm.trans same)).symm

/-- All packets in flight come to light. -/
lemma stamps_of_all (h : c'.Disciplined out) (stamped : ∀ e ∈ c'.window.toList, e.lastSent = now) :
    Stamps now c (c'.window.toList.map Inflight.packet) c' := by
  intro e mem
  obtain ⟨before, after, window⟩ := List.append_of_mem mem
  refine .inr ⟨before.map (now, ·.packet), after.map (now, ·.packet), ?_, fun x later => ?_⟩
  · rw [List.map_map, window, List.map_append, List.map_cons, stamped e mem]
    rfl
  · obtain ⟨f, behind, rfl⟩ := List.mem_map.mp later
    have mem' : f ∈ c'.window.toList := by
      rw [window]
      exact List.mem_append_right _ (List.mem_cons_of_mem _ behind)
    rw [h.packetId? mem', Ne, Option.some_inj]
    exact h.others_ne window f (List.mem_append_right _ behind)

end

variable [RecordStore σ] {now : Instant} {c c' : Courier σ} {out : Finset UInt16}
  {es : List Event} {log : List (Instant × Packet)}

/-- Which packets are taken up and returned in calls, and when. -/
def chronicle (c : Courier σ) : List Call → List (Instant × Packet)
  | [] => []
  | op :: ops => (c.takenUp op ++ (c.call op).1).map (op.time, ·) ++ (c.call op).2.chronicle ops

/-- Whether every packet in flight carries the time when it last came to light. -/
def Stamped (c : Courier σ) (log : List (Instant × Packet)) : Prop :=
  ∀ e ∈ c.window.toList, LastIn log e

omit [RecordStore σ] in
/-- The record is kept on with what comes to light. -/
lemma Stamped.extend {ps : List Packet} (stamped : c.Stamped log) (h : Stamps now c ps c') :
    c'.Stamped (log ++ ps.map (now, ·)) := by
  intro e mem
  obtain ⟨old, others⟩ | new := h e mem
  · refine (stamped e old).append fun x recorded => ?_
    obtain ⟨p, shown, rfl⟩ := List.mem_map.mp recorded
    exact others p shown
  · exact new.prepend log

/-- Every step stamps the packets that come to light in it. -/
lemma stamps_step (h : c.Disciplined out) (step : Step now c es c') :
    Stamps now c (shown es) c' := by
  -- behind the step, packets in flight are still told apart by their identifiers
  have h' := (h.step step).2
  cases step with
  | restore fresh =>
    rw [shown_takenUp]
    exact stamps_of_all h' fun e mem => (mem_readAll_of_mem_restore (h.idle fresh) fresh mem).2
  | @pass m _ _ unnamed =>
    refine fun e mem => .inl ⟨mem, fun p only => ?_⟩
    have named : Packet.packetId? (.publish m) = none := if_pos unnamed
    rw [List.mem_singleton.mp only, named]
    exact nofun
  | send =>
    refine stamps_of_one h' (Fifo.toList_push ..) ?_
    rw [List.append_nil]
    exact fun e mem => mem
  | release _ found =>
    obtain ⟨window, -, -⟩ := splitAt?_eq_some found
    refine stamps_of_one h' (Fifo.toList_ofList _) fun e mem => ?_
    rw [window]
    simp only [List.mem_append, List.mem_cons] at mem ⊢
    tauto
  | complete _ _ found =>
    obtain ⟨window, -, -⟩ := splitAt?_eq_some found
    refine stamps_of_subset fun e mem => ?_
    rw [Fifo.toList_ofList, List.mem_append] at mem
    rw [window, List.mem_append, List.mem_cons]
    tauto
  | @resend before e after _ window =>
    rw [Inflight.again_eq] at h' ⊢
    refine stamps_of_one h' (Fifo.toList_ofList _) fun f mem => ?_
    rw [window]
    simp only [List.mem_append, List.mem_cons] at mem ⊢
    tauto
  | replay =>
    have stamped : ∀ e ∈ (Fifo.ofList (c.window.toList.map fun e =>
        ({ e with lastSent := now } : Inflight))).toList, e.lastSent = now := by
      rw [Fifo.toList_ofList]
      exact List.forall_mem_map.mpr fun _ _ => rfl
    have all := stamps_of_all (c := c) h' stamped
    change Stamps now c ((Fifo.ofList _).toList.map Inflight.packet) _ at all
    rwa [Fifo.toList_ofList, Inflight.map_packet_stamp, ← shown_sent (c.window.toList.map _)] at all
  | settle same => exact stamps_of_subset fun e mem => same ▸ mem
  | clean => exact stamps_of_subset (List.forall_mem_nil _)
  | _ => exact stamps_of_subset fun e mem => mem

/-- Behind every run the packets in flight carry the times of the record. -/
lemma Stamped.run (stamped : c.Stamped log) (h : c.Disciplined out) (run : Run now c es c') :
    c'.Stamped (log ++ (shown es).map (now, ·)) := by
  induction run generalizing log out with
  | refl =>
    rw [shown, List.filterMap_nil, List.map_nil, List.append_nil]
    exact stamped
  | step first _ ih =>
    rw [shown_append, List.map_append, ← List.append_assoc]
    exact ih (stamped.extend (stamps_step h first)) (h.step first).2

/-- Behind all calls the packets in flight carry the times of the record. -/
lemma Stamped.after (stamped : c.Stamped log) (h : c.Disciplined out) (ops : List Call) :
    (c.after ops).Stamped (log ++ c.chronicle ops) := by
  induction ops generalizing c log out with
  | nil =>
    rw [chronicle, List.append_nil]
    exact stamped
  | cons op ops ih =>
    have run := (run_call c op).2
    have stamped' := stamped.run h run
    rw [shown_events] at stamped'
    rw [chronicle, ← List.append_assoc]
    exact ih stamped' (h.run run).2

omit [RecordStore σ] in
/-- Before the first call nothing is in flight. -/
lemma stamped_initial (settings : Settings) (session : Option (Journal × σ)) :
    (initial settings session).Stamped [] := by
  cases session <;> exact List.forall_mem_nil _

/-- A retry goes through the window once, and leaves what is not due as it is. -/
lemma resend_eq (now : Instant) (interval : UInt64) (window : List Inflight)
    (archive : Archive σ) :
    (resend now interval window archive).1 =
        (window.filter (·.isDue now interval)).map (·.packet.repeated) ∧
      (resend now interval window archive).2.1 = window.map fun e =>
        if e.isDue now interval then ⟨e.packet.repeated, now⟩ else e := by
  induction window generalizing archive with
  | nil => exact ⟨rfl, rfl⟩
  | cons e window ih =>
    rw [List.filter_cons, List.map_cons]
    unfold resend
    by_cases due : e.isDue now interval = true
    · obtain ⟨sent, kept⟩ := ih (archive.save (e.again now).packet)
      simp only [if_pos due, List.map_cons]
      rw [← sent, ← kept, ← Inflight.again_eq]
      exact ⟨congrArg (· :: _) (congrArg Inflight.packet (e.again_eq now)), rfl⟩
    · obtain ⟨sent, kept⟩ := ih archive
      simp only [if_neg due]
      exact ⟨sent, congrArg _ kept⟩

/-- What is taken up in a retry was sent just now, so it is not due. -/
lemma filter_isDue_restore (h : c.Disciplined out) (positive : 1 ≤ c.settings.retryInterval)
    (now : Instant) :
    (c.restore now).window.toList.filter (·.isDue now c.settings.retryInterval) =
      c.window.toList.filter (·.isDue now c.settings.retryInterval) := by
  cases fresh : c.restored with
  | true => rw [restore, if_pos fresh]
  | false =>
    rw [(h.idle fresh).window, List.filter_nil, List.filter_eq_nil_iff]
    intro e mem
    have stamped := (mem_readAll_of_mem_restore (h.idle fresh) fresh mem).2
    rw [Inflight.isDue_eq_decide, decide_eq_true_iff, stamped, Nat.sub_self]
    exact Nat.not_le_of_lt (UInt64.le_iff_toNat_le.mp positive)

/-- A retry sends what is due, in the order of the window, and stamps it. -/
lemma retry_eq (h : c.Disciplined out) (positive : 1 ≤ c.settings.retryInterval)
    (now : Instant) :
    (c.retry now).1 =
        (c.window.toList.filter (·.isDue now c.settings.retryInterval)).map (·.packet.repeated) ∧
      (c.retry now).2.window.toList = ((c.restore now).window.toList.map fun e =>
        if e.isDue now c.settings.retryInterval then ⟨e.packet.repeated, now⟩ else e) ∧
      (c.retry now).2.queue = c.queue ∧ (c.retry now).2.ids = (c.restore now).ids := by
  obtain ⟨sent, kept⟩ := resend_eq now c.settings.retryInterval (c.restore now).window.toList
    (c.restore now).archive
  refine ⟨?_, ?_, queue_restore c now, rfl⟩
  · rw [← filter_isDue_restore h positive, ← sent, ← settings_restore c now]
    rfl
  · change (Fifo.ofList _).toList = _
    rw [Fifo.toList_ofList, settings_restore, kept]

/-- What was sent again is not due before the interval has passed once more, and what was not due
is not due at an earlier time either. -/
lemma retry_retry (h : c.Disciplined out) (positive : 1 ≤ c.settings.retryInterval)
    {now now' : Instant} (early : now'.millis ≤ now.millis) :
    ((c.retry now).2.retry now').1 = [] := by
  have run := run_retry c now
  have same : (c.retry now).2.settings = c.settings := settings_run run
  obtain ⟨sent, -⟩ := retry_eq (h.run run).2 (same.symm ▸ positive) now'
  rw [sent, same, List.map_eq_nil_iff, List.filter_eq_nil_iff, (retry_eq h positive now).2.1,
    List.forall_mem_map]
  rw [UInt64.le_iff_toNat_le] at early positive
  intro e mem
  by_cases due : e.isDue now c.settings.retryInterval = true
  · rw [if_pos due, Inflight.isDue_eq_decide, decide_eq_true_iff]
    change ¬ _ ≤ now'.millis.toNat - now.millis.toNat
    rw [Nat.sub_eq_zero_of_le early]
    exact Nat.not_le_of_lt positive
  · rw [if_neg due]
    rw [Inflight.isDue_eq_decide, decide_eq_true_iff] at due ⊢
    omega

/-- After calls that are told no earlier time, whatever is sent in them is recorded no earlier. -/
lemma le_of_mem_chronicle (restored : c.restored = true) {ops : List Call}
    (onward : ∀ op ∈ ops, ∀ t, op.time? = some t → now.millis ≤ t.millis) :
    ∀ x ∈ c.chronicle ops, now.millis ≤ x.1.millis := by
  induction ops generalizing c with
  | nil => exact List.forall_mem_nil _
  | cons op ops ih =>
    rw [List.forall_mem_cons] at onward
    rw [chronicle, List.forall_mem_append]
    refine ⟨?_, ih ((run_call c op).2.restored restored) onward.2⟩
    have nothing : c.takenUp op = [] := by
      rw [takenUp, restored, Bool.not_true, Bool.and_false]
      rfl
    rw [nothing, List.nil_append, List.forall_mem_map]
    -- a call that is told no time sends nothing
    intro p mem
    cases op with
    | cleanAll => cases mem
    | nextPacketId => cases mem
    | releasePacketId => cases mem
    | _ => exact onward.1 _ rfl

/-- What a retry sends under an identifier that a retry sent something under before was last sent
then or later, so the interval has passed once more. -/
lemma Stamped.spaced (stamped : c.Stamped log) (h : c.Disciplined out)
    (positive : 1 ≤ c.settings.retryInterval) {later : List Call}
    (onward : ∀ op ∈ later, ∀ t, op.time? = some t → now.millis ≤ t.millis) {now' : Instant}
    {p p' : Packet} (sent : p ∈ (c.retry now).1)
    (again : p' ∈ (((c.retry now).2.after later).retry now').1)
    (same : p'.packetId? = p.packetId?) :
    now.millis.toNat + c.settings.retryInterval.toNat ≤ now'.millis.toNat := by
  have run := run_retry c now
  have h' := ((h.run run).2.trace later).2
  have settings : ((c.retry now).2.after later).settings = c.settings :=
    (settings_after _ later).trans (settings_run run)
  have stamped' := (stamped.run h run).after (h.run run).2 later
  rw [shown_events, List.append_assoc] at stamped'
  rw [(retry_eq h' (settings.symm ▸ positive) now').1, settings, List.mem_map] at again
  obtain ⟨e, again, rfl⟩ := again
  obtain ⟨mem, due⟩ := List.mem_filter.mp again
  have named : p.packetId? = some e.packetId := by
    rw [← same, Packet.packetId?_repeated, h'.packetId? mem]
  have recorded := (stamped' e mem).mem_of_later ⟨(now, p),
    List.mem_append_left _ (List.mem_map_of_mem (List.mem_append_right _ sent)), named⟩
  -- the packet came to light at the first retry, or at a call after it
  have late : now.millis ≤ e.lastSent.millis := by
    obtain then' | after' := List.mem_append.mp recorded
    · obtain ⟨_, -, stamp⟩ := List.mem_map.mp then'
      rw [← (Prod.mk.inj stamp).1]
      exact UInt64.le_refl _
    · have taken : (c.retry now).2.restored = true := restored_restore c now
      exact le_of_mem_chronicle taken onward _ after'
  rw [UInt64.le_iff_toNat_le] at late
  have one : 1 ≤ c.settings.retryInterval.toNat := UInt64.le_iff_toNat_le.mp positive
  rw [Inflight.isDue_eq_decide, decide_eq_true_iff] at due
  omega

/-- In every state of a courier, whatever times it was told, a packet in flight carries the time of
the last call that returned it or took it up, which took up or returned nothing else under its
identifier after it. A retry returns exactly the packets that have waited for the retry interval, in
their order and with messages marked as sent before, and stamps them. It leaves the rest of the
window, the queue and the identifiers as they are, once the packets of the archive are taken up. No
retry at the same time or an earlier one returns anything after it. And if no earlier time is told
after it, the interval passes before a retry returns something under the same identifier. -/
theorem retry_sends_what_has_waited (settings : Settings) (session : Option (Journal × σ))
    (ops : List Call) (now : Instant) (positive : 1 ≤ settings.retryInterval) :
    let c := (initial settings session).after ops
    let interval := settings.retryInterval.toNat
    let due := fun e : Inflight => interval ≤ now.millis.toNat - e.lastSent.millis.toNat
    (∀ e ∈ c.window.toList, LastIn ((initial settings session).chronicle ops) e) ∧
      (c.retry now).1 = (c.window.toList.filter (due ·)).map (·.packet.repeated) ∧
      (c.retry now).2.window.toList = ((c.restore now).window.toList.map fun e =>
        if due e then ⟨e.packet.repeated, now⟩ else e) ∧
      (c.retry now).2.queue = c.queue ∧ (c.retry now).2.ids = (c.restore now).ids ∧
      (c.restored = true → c.restore now = c) ∧
      (∀ now', now'.millis ≤ now.millis → ((c.retry now).2.retry now').1 = []) ∧
      ∀ later : List Call,
        (∀ op ∈ later, ∀ t, op.time? = some t → now.millis ≤ t.millis) →
        ∀ now', ∀ p ∈ (c.retry now).1, ∀ p' ∈ (((c.retry now).2.after later).retry now').1,
          p'.packetId? = p.packetId? → now.millis.toNat + interval ≤ now'.millis.toNat := by
  intro c interval due
  have h : c.Disciplined _ := ((disciplined_initial settings session).trace ops).2
  have stamped : c.Stamped ([] ++ _) :=
    (stamped_initial settings session).after (disciplined_initial settings session) ops
  rw [List.nil_append] at stamped
  have same : c.settings = settings := by
    rw [settings_after]
    cases session <;> rfl
  have positive' : 1 ≤ c.settings.retryInterval := same.symm ▸ positive
  obtain ⟨sent, window, queue, ids⟩ := retry_eq h positive' now
  simp only [Inflight.isDue_eq_decide, same, decide_eq_true_iff] at sent window
  refine ⟨stamped, sent, window, queue, ids, fun taken => if_pos taken,
    fun now' early => retry_retry h positive' early, ?_⟩
  intro later onward now' p mem p' mem' under
  have spaced := stamped.spaced h positive' onward mem mem' under
  rwa [same] at spaced

/-- A message is sent again after the interval, and once more in a new connection. No retry sends it
again before the interval has passed since the first of them. -/
theorem retry_sends_after_recover :
    let settings : Settings := { retryInterval := 5000 }
    let m : Publish := { qos := .atLeastOnce, topic := "a", payload := [1] }
    let p : Packet := .publish { m with packetId := 1, dup := true }
    let c := (initial settings (none : Option (Journal × Table))).after [.enqueue m .origin]
    let c' := (c.retry ⟨5000⟩).2.after [.recover ⟨6000⟩, .nextPacketId]
    (c.retry ⟨5000⟩).1 = [p] ∧ (c'.retry ⟨11000⟩).1 = [p] ∧
      ((c.retry ⟨5000⟩).2.retry ⟨5000⟩).1 = [] ∧
      ∀ now', p ∈ (c'.retry now').1 → 5000 + 5000 ≤ now'.millis.toNat := by
  intro settings m p c c'
  have first : (c.retry ⟨5000⟩).1 = [p] := by decide +kernel
  obtain ⟨-, -, -, -, -, -, silent, spaced⟩ :=
    retry_sends_what_has_waited settings (none : Option (Journal × Table)) [.enqueue m .origin]
      ⟨5000⟩ (by decide)
  refine ⟨first, by decide +kernel, silent _ (UInt64.le_refl _), fun now' again => ?_⟩
  have sent : p ∈ (c.retry ⟨5000⟩).1 := by
    rw [first]
    exact List.mem_singleton_self p
  refine spaced _ ?_ now' p sent p again rfl
  simp only [List.forall_mem_cons, Call.time?, Option.some.injEq, forall_eq']
  exact ⟨by decide, nofun, List.forall_mem_nil _⟩

end Courier
end MqttClient
