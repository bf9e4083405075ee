import MqttClient.Proofs.Delivery.Discipline
import Mathlib.Tactic.Common

/-!
# How much is held

A courier has room for a number of packets in flight and for a number of messages altogether. What
it takes up from the archive of an earlier courier may be more than either, and then nothing is
added until enough of it has left. So what is held is never more than there is room for or than was
taken up.
-/

namespace MqttClient.Courier
variable {σ : Type} {c c' : Courier σ} {out : Finset UInt16} {now : Instant} {es es' : List Event}

/-- The packet of the archive that is taken up. -/
def Event.adoption? : Event → Option Packet
  | takenUp p => some p
  | _ => none

/-- The packets of the archive that are taken up in the course of events. -/
def adoptions (es : List Event) : List Packet :=
  es.filterMap Event.adoption?

/-- What is taken up in two parts of the history comes one after the other. -/
@[simp]
lemma adoptions_append (es es' : List Event) :
    adoptions (es ++ es') = adoptions es ++ adoptions es' :=
  List.filterMap_append

/-- Packets that are taken up are all told. -/
@[simp]
lemma adoptions_takenUp (ps : List Packet) : adoptions (ps.map .takenUp) = ps := by
  rw [adoptions, List.filterMap_map]
  exact List.filterMap_some

/-- Packets that are sent are not taken up. -/
@[simp]
lemma adoptions_sent (ps : List Packet) : adoptions (ps.map .sent) = [] := by
  rw [adoptions, List.filterMap_map]
  exact List.filterMap_eq_nil_iff.mpr fun _ _ => rfl

/-- There is always room for one packet in flight. -/
lemma capacity_eq_max (settings : Settings) :
    capacity settings = max settings.inflightWindow.toNat 1 :=
  UInt16.toNat_max ..

/-- What is in flight after packets are taken up is what was in flight before, and then packets that
are among them, in their order. -/
lemma exists_foldl_takeUp (now : Instant) (ps : List Packet) (c : Courier σ) :
    ∃ taken : List Packet, taken.Sublist ps ∧
      (ps.foldl (takeUp now) c).window.toList.map Inflight.packet =
        c.window.toList.map Inflight.packet ++ taken := by
  induction ps generalizing c with
  | nil => exact ⟨[], .slnil, (List.append_nil _).symm⟩
  | cons p ps ih =>
    obtain ⟨taken, sub, window⟩ := ih (takeUp now c p)
    rw [List.foldl_cons, window]
    unfold takeUp
    split
    · exact ⟨taken, sub.cons p, rfl⟩
    · refine ⟨p :: taken, sub.cons_cons p, ?_⟩
      rw [Fifo.toList_push, List.map_append, List.append_assoc]
      rfl

/-- Whether a courier holds no more than it has room for or than it took up. -/
structure Bounded (c : Courier σ) (es : List Event) : Prop where
  window_le : c.window.size ≤ max (capacity c.settings) (adoptions es).length
  pending_le : c.pending ≤ max c.settings.queueCapacity.toNat (adoptions es).length

namespace Bounded

/-- What adds something only where there is room keeps the bounds. -/
lemma mono (h : c.Bounded es) (settings : c'.settings = c.settings)
    (window : c'.window.size ≤ max (capacity c.settings) c.window.size)
    (pending : c'.pending ≤ max c.settings.queueCapacity.toNat c.pending)
    (quiet : adoptions es' = []) : c'.Bounded (es ++ es') := by
  refine ⟨?_, ?_⟩
  · rw [settings, adoptions_append, quiet, List.append_nil]
    exact window.trans (max_le (le_max_left ..) h.window_le)
  · rw [settings, adoptions_append, quiet, List.append_nil]
    exact pending.trans (max_le (le_max_left ..) h.pending_le)

/-- What does not add to the window or the queue keeps the bounds. -/
lemma of_window_le (h : c.Bounded es) (settings : c'.settings = c.settings)
    (window : c'.window.toList.length ≤ c.window.toList.length) (queue : c'.queue = c.queue)
    (quiet : adoptions es' = []) : c'.Bounded (es ++ es') := by
  rw [← Fifo.size_eq_length, ← Fifo.size_eq_length] at window
  refine h.mono settings (le_max_of_le_right window) (le_max_of_le_right ?_) quiet
  rw [pending, pending, queue]
  exact Nat.add_le_add_left window _

variable [RecordStore σ]

/-- What is taken up is all that a courier holds then. -/
lemma of_restore (d : c.Disciplined out) (fresh : c.restored = false) (now : Instant)
    (es : List Event) :
    (c.restore now).Bounded
      (es ++ ((c.restore now).window.toList.map Inflight.packet).map .takenUp) := by
  have queue : (c.restore now).queue.size = 0 := by
    rw [queue_restore, Fifo.size_eq_length, (d.idle fresh).queue]
    rfl
  have size : (adoptions
      (es ++ ((c.restore now).window.toList.map Inflight.packet).map .takenUp)).length =
      (adoptions es).length + (c.restore now).window.size := by
    rw [adoptions_append, adoptions_takenUp, List.length_append, List.length_map,
      Fifo.size_eq_length]
  refine ⟨?_, ?_⟩
  · rw [size]
    omega
  · rw [size, pending, queue]
    omega

/-- Every step keeps the bounds. -/
lemma step (h : c.Bounded es) (d : c.Disciplined out) (step : Step now c es' c') :
    c'.Bounded (es ++ es') := by
  cases step with
  | restore fresh => exact of_restore d fresh now es
  | pass => exact h.of_window_le rfl le_rfl rfl rfl
  | @accept m _ room =>
    have more : (c.queue.push m).size + c.window.size = c.pending + 1 :=
      Nat.add_right_comm ..
    exact h.mono rfl (le_max_right ..) (le_max_of_le_left (more.trans_le room)) rfl
  | @send m queue id ids _ room _ first =>
    -- what enters the window leaves the queue
    have same : queue.size + (c.window.size + 1) = c.pending := by
      rw [pending, c.queue.size_eq_length, Fifo.toList_of_pop? first, List.length_cons,
        ← queue.size_eq_length]
      omega
    exact h.mono rfl (le_max_of_le_left room) (le_max_of_le_right same.le) rfl
  | release _ found =>
    obtain ⟨window, -⟩ := splitAt?_eq_some found
    refine h.of_window_le rfl (le_of_eq ?_) rfl rfl
    rw [window, Fifo.toList_ofList, List.length_append, List.length_append]
    rfl
  | complete _ _ found =>
    obtain ⟨window, -⟩ := splitAt?_eq_some found
    refine h.of_window_le rfl ?_ rfl rfl
    rw [window, Fifo.toList_ofList]
    exact ((List.sublist_cons_self ..).append_left _).length_le
  | resend _ window =>
    refine h.of_window_le rfl (le_of_eq ?_) rfl rfl
    rw [window, Fifo.toList_ofList, List.length_append, List.length_append]
    rfl
  | replay =>
    refine h.of_window_le rfl (le_of_eq ?_) rfl (adoptions_sent _)
    rw [Fifo.toList_ofList, List.length_map]
  | settle same => exact h.of_window_le rfl (congrArg List.length same).le rfl rfl
  | clean => exact ⟨Nat.zero_le _, Nat.zero_le _⟩
  | take | giveBack | retain => exact h.of_window_le rfl le_rfl rfl rfl

end Bounded

variable [RecordStore σ]

/-- Whether all that was taken up is of an archive, the one with which the courier began, and none
was before that archive was read. -/
structure Adopts (a : Archive σ) (c : Courier σ) (es : List Event) : Prop where
  fresh : c.restored = false → c.archive = a ∧ adoptions es = []
  sublist : (adoptions es).Sublist a.readAll.1

namespace Adopts
variable {a : Archive σ}

/-- As long as nothing more is taken up, what was taken up stays of the archive. -/
lemma congr (h : Adopts a c es)
    (fresh : c'.restored = false → c.restored = false ∧ c'.archive = c.archive)
    (quiet : adoptions es' = []) : Adopts a c' (es ++ es') := by
  have same : adoptions (es ++ es') = adoptions es := by
    rw [adoptions_append, quiet, List.append_nil]
  refine ⟨fun fresh' => ?_, same ▸ h.sublist⟩
  obtain ⟨begun, archive⟩ := fresh fresh'
  rw [same, archive]
  exact h.fresh begun

/-- The packets that are taken up are those of the archive. -/
lemma restore (h : Adopts a c es) (d : c.Disciplined out) (fresh : c.restored = false)
    (now : Instant) :
    Adopts a (c.restore now)
      (es ++ ((c.restore now).window.toList.map Inflight.packet).map .takenUp) := by
  obtain ⟨archive, none⟩ := h.fresh fresh
  obtain ⟨taken, sub, window⟩ := exists_foldl_takeUp now c.archive.readAll.1
    { c with archive := c.archive.readAll.2, restored := true }
  have restored : (c.restore now).window.toList.map Inflight.packet = taken := by
    rw [Courier.restore, fresh]
    refine window.trans ?_
    rw [(d.idle fresh).window]
    rfl
  refine ⟨fun fresh' => Bool.noConfusion ((restored_restore c now).symm.trans fresh'), ?_⟩
  rw [adoptions_append, none, adoptions_takenUp, restored, List.nil_append, ← archive]
  exact sub

/-- The archive is read in one step only. -/
lemma step (h : Adopts a c es) (d : c.Disciplined out) (step : Step now c es' c') :
    Adopts a c' (es ++ es') := by
  cases step with
  | restore fresh => exact h.restore d fresh now
  | clean => exact h.congr (fun fresh => Bool.noConfusion fresh) rfl
  | replay => exact h.congr (fun fresh => ⟨fresh, rfl⟩) (adoptions_sent _)
  | send restored | release restored | complete restored | resend restored =>
    exact h.congr (fun fresh => Bool.noConfusion (restored.symm.trans fresh)) rfl
  | _ => exact h.congr (fun fresh => ⟨fresh, rfl⟩) rfl

end Adopts

/-- What is moved enters the window at its end, and no more is moved than there is room for. -/
lemma drain_spec (c : Courier σ) (now : Instant) :
    (c.drain now).2.window.toList = c.window.toList ++ (c.drain now).1.map (⟨·, now⟩) ∧
      (c.drain now).1.length ≤ capacity c.settings - c.window.size := by
  refine ⟨?_, length_fill_le ..⟩
  obtain ⟨queue, ids, archive, moved⟩ := fill_snd now (capacity c.settings - c.window.size) c
  rw [drain, moved, Fifo.toList_pushAll]

/-- A message with a topic is refused for want of room exactly if as many are held as there is room
for, whether it would wait for an acknowledgment or not. -/
lemma enqueue_eq_queueFull_iff (c : Courier σ) (now : Instant) {m : Publish}
    (named : m.topic ≠ "") :
    (c.enqueue m now).1 = .error .queueFull ↔
      c.settings.queueCapacity.toNat ≤ (c.restore now).pending := by
  have named' : ¬ m.topic.isEmpty = true := by simpa using named
  constructor
  · intro refused
    obtain ⟨-, wrong, -⟩ | ⟨full, -⟩ := enqueue_of_error (Prod.ext refused rfl)
    · cases wrong
    · rwa [settings_restore] at full
  · intro full
    rw [enqueue_of_full named' (by rwa [settings_restore])]

/-- In every state of a courier, what is in flight and what is held altogether are within the
settings or no more than was taken up of the archive of an earlier courier. What was taken up is of
that archive, and it is nothing without a journal. A message with a topic is refused for want of
room exactly if as many are held as the settings allow, and no more messages enter the window than
it has room for, none where it is full or more than full. -/
theorem pending_le_max_adoptions (settings : Settings) (session : Option (Journal × σ))
    (ops : List Call) :
    let c₀ := initial settings session
    let c := c₀.after ops
    let stored := adoptions (c₀.trace ops)
    (stored.Sublist c₀.archive.readAll.1 ∧ (session = none → stored = [])) ∧
      c.window.size ≤ max (max settings.inflightWindow.toNat 1) stored.length ∧
      c.queue.size + c.window.size ≤ max settings.queueCapacity.toNat stored.length ∧
      (∀ m now, m.topic ≠ "" →
        ((c.enqueue m now).1 = .error .queueFull ↔
          settings.queueCapacity.toNat ≤
            (c.restore now).queue.size + (c.restore now).window.size)) ∧
      ∀ (d : Courier σ) now,
        (d.drain now).2.window.toList = d.window.toList ++ (d.drain now).1.map (⟨·, now⟩) ∧
          (d.drain now).1.length ≤ max d.settings.inflightWindow.toNat 1 - d.window.size := by
  intro c₀ c stored
  have d : c₀.Disciplined ∅ := disciplined_initial settings session
  have same : c.settings = settings := by
    refine (settings_after _ ops).trans ?_
    cases session <;> rfl
  -- both invariants hold before the first call and are kept by each step
  have bounded : c.Bounded ([] ++ c₀.trace ops) := by
    refine d.trace_induction [] ⟨?_, ?_⟩ (fun d h step => h.step d step) ops
    · cases session <;> exact Nat.zero_le _
    · cases session <;> exact Nat.zero_le _
  have adopts : Adopts c₀.archive c ([] ++ c₀.trace ops) :=
    d.trace_induction [] ⟨fun _ => ⟨rfl, rfl⟩, List.nil_sublist _⟩ (fun d h step => h.step d step)
      ops
  rw [List.nil_append] at bounded adopts
  refine ⟨⟨adopts.sublist, ?_⟩, ?_, ?_, fun m now named => ?_, fun d now => ?_⟩
  · rintro rfl
    exact List.sublist_nil.mp adopts.sublist
  · rw [← capacity_eq_max, ← same]
    exact bounded.window_le
  · rw [← same]
    exact bounded.pending_le
  · rw [enqueue_eq_queueFull_iff c now named, same]
    rfl
  · rw [← capacity_eq_max]
    exact drain_spec d now

end MqttClient.Courier
