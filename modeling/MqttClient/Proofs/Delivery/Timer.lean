import MqttClient.Proofs.Delivery.Discipline
import MqttClient.Delivery.Dispatcher
import MqttClient.Store.Table

/-!
# The timer and the window

The timer of a dispatcher runs only while packets are in flight. While they are it runs as well,
with one exception: a call may take up the packets of an archive without setting the timer. It is
one that takes an identifier for a subscription, or one that offers a message which is refused.
Nothing is sent again then, until a call comes that sets the timer.
-/

namespace MqttClient

namespace Courier
variable {σ : Type} {c : Courier σ} {now : Instant}

/-- Whether packets are in flight is told by their number. -/
lemma isArmed_congr {c' : Courier σ} (same : c'.window.toList.length = c.window.toList.length) :
    c'.isArmed = c.isArmed := by
  unfold isArmed Fifo.isEmpty
  rw [Fifo.size_eq_length, Fifo.size_eq_length, same]

/-- A courier is armed exactly if packets are in flight. -/
lemma isArmed_eq_true_iff : c.isArmed = true ↔ c.window.toList ≠ [] := by
  rw [isArmed, Bool.not_eq_true', ← Bool.not_eq_true, Fifo.isEmpty_iff]

variable [RecordStore σ]

/-- Whether packets of the archive are taken up when it is asked for. -/
def takesUp (c : Courier σ) (now : Instant) : Bool :=
  !c.restored && (c.restore now).isArmed

/-- Sending again leaves as many packets in flight. -/
lemma length_resend (now : Instant) (interval : UInt64) (window : List Inflight)
    (archive : Archive σ) :
    (resend now interval window archive).2.1.length = window.length := by
  induction window generalizing archive with
  | nil => rfl
  | cons e window ih =>
    unfold resend
    split <;> exact congrArg (· + 1) (ih _)

/-- Sending again leaves a courier armed if it was. -/
lemma isArmed_retry (restored : c.restored = true) : (c.retry now).2.isArmed = c.isArmed := by
  have same : c.restore now = c := if_pos restored
  apply isArmed_congr
  rw [retry, same]
  change (Fifo.ofList _).toList.length = _
  rw [Fifo.toList_ofList, length_resend]

/-- Lending an identifier takes up the archive and changes the identifiers only. -/
lemma nextPacketId_snd (c : Courier σ) :
    ∃ ids, c.nextPacketId.2 = { c.restore .origin with ids } := by
  cases free : (c.restore .origin).ids.allocate? with
  | none => exact ⟨(c.restore .origin).ids, by rw [nextPacketId, free]⟩
  | some taken => exact ⟨taken.2, by rw [nextPacketId, free]⟩

end Courier

namespace Dispatcher
variable {σ : Type} {d : Dispatcher σ} {lapsed : Bool}

/-- What is asked of a dispatcher, and what happens to it. -/
inductive Request where
  | enqueue (m : Publish) (now : Instant) (time : Nat)
  | acknowledge (id : UInt16) (kind : AckKind) (now : Instant) (time : Nat)
  | connected (cleanSession : Bool) (now : Instant) (time : Nat)
  | recover (now : Instant) (time : Nat)
  | cleanAll (time : Nat)
  | nextPacketId
  | releasePacketId (id : UInt16)
  /-- The timer ticks, if it runs. -/
  | tick (now : Instant)
  /-- A timer ticks that was stopped when the tick had begun. -/
  | lateTick (timer : RetryTimer) (now : Instant)
  | takeOutbox
  | closeOutbox

/-- Sending leaves the courier as it is. -/
@[simp]
lemma send_courier (d : Dispatcher σ) (ps : List Packet) : (d.send ps).courier = d.courier := by
  unfold send
  split <;> rfl

/-- Sending leaves the timer as it is. -/
@[simp]
lemma send_timer (d : Dispatcher σ) (ps : List Packet) : (d.send ps).timer = d.timer := by
  unfold send
  split <;> rfl

/-- Sending does not change whether there are timers. -/
@[simp]
lemma send_hasTimers (d : Dispatcher σ) (ps : List Packet) :
    (d.send ps).hasTimers = d.hasTimers := by
  unfold send
  split <;> rfl

/-- Setting the timer leaves the courier as it is. -/
@[simp]
lemma rearm_courier (d : Dispatcher σ) (time : Nat) : (d.rearm time).courier = d.courier := by
  unfold rearm
  split
  · rfl
  · split <;> rfl

/-- Setting the timer does not change whether there are timers. -/
@[simp]
lemma rearm_hasTimers (d : Dispatcher σ) (time : Nat) :
    (d.rearm time).hasTimers = d.hasTimers := by
  unfold rearm
  split
  · rfl
  · split <;> rfl

/-- A timer that is set runs exactly if packets are in flight. -/
lemma isSome_timer_rearm (timers : d.hasTimers = true) (time : Nat) :
    (d.rearm time).timer.isSome = d.courier.isArmed := by
  unfold rearm
  split
  · rename_i idle
    exact ((Bool.not_eq_true' _).mp idle).symm
  · rename_i armed
    rw [Bool.not_eq_true, Bool.not_eq_false'] at armed
    split
    · rename_i runs
      rw [timers, Bool.not_true, Bool.or_false] at runs
      rw [runs, armed]
    · exact armed.symm

variable [RecordStore σ]

/-- The dispatcher after a request. -/
def handle (d : Dispatcher σ) : Request → Dispatcher σ
  | .enqueue m now time => (d.enqueue m now time).2
  | .acknowledge id kind now time => d.acknowledge id kind now time
  | .connected cleanSession now time => d.connected cleanSession now time
  | .recover now time => d.recover now time
  | .cleanAll time => d.cleanAll time
  | .nextPacketId => d.nextPacketId.2
  | .releasePacketId id => d.releasePacketId id
  | .tick now =>
    match d.timer with
    | some timer => d.tick timer now
    | none => d
  | .lateTick timer now =>
    { d.tick timer now with timer := if d.courier.isArmed then d.timer else none }
  | .takeOutbox => d.takeOutbox.2
  | .closeOutbox => d.closeOutbox

/-- The dispatcher after requests. -/
def handleAll (d : Dispatcher σ) (rs : List Request) : Dispatcher σ :=
  rs.foldl handle d

/-- Whether the timer is set after a request. -/
def rearms (d : Dispatcher σ) : Request → Bool
  | .enqueue m now _ => (d.courier.enqueue m now).1.isOk
  | .acknowledge .. | .connected .. | .recover .. | .cleanAll _ => true
  | _ => false

/-- Whether a request takes up packets of the archive, and the timer is not set after it. -/
def strands (d : Dispatcher σ) : Request → Bool
  | .enqueue m now _ =>
    match (d.courier.enqueue m now).1 with
    | .error .queueFull => d.courier.takesUp now
    | _ => false
  | .nextPacketId => d.courier.takesUp .origin
  | _ => false

/-- Whether the timer has lapsed after a request, if it is known for before. -/
def lapses (d : Dispatcher σ) (lapsed : Bool) (r : Request) : Bool :=
  !d.rearms r && (lapsed || d.strands r)

/-- Whether the timer has lapsed after requests, if it is known for before. -/
def lapsesIn (d : Dispatcher σ) (lapsed : Bool) : List Request → Bool
  | [] => lapsed
  | r :: rs => (d.handle r).lapsesIn (d.lapses lapsed r) rs

/-- The timer has not lapsed behind a request that sets it. -/
lemma lapses_of_rearms {r : Request} (rearms : d.rearms r = true) (lapsed : Bool) :
    d.lapses lapsed r = false := by
  rw [lapses, rearms]
  rfl

/-- A request that neither sets the timer nor strands packets leaves it as it was. -/
lemma lapses_of_keeps {r : Request} (keeps : d.rearms r = false) (still : d.strands r = false)
    (lapsed : Bool) : d.lapses lapsed r = lapsed := by
  rw [lapses, keeps, still, Bool.or_false]
  rfl

/-- Letting time pass, within bounds, is a sequence of ticks. -/
lemma exists_ticks_elapseWithin (d : Dispatcher σ) (clock : Nat → Instant) (limit fuel : Nat) :
    ∃ nows : List Instant, d.elapseWithin clock limit fuel = d.handleAll (nows.map .tick) := by
  induction fuel generalizing d with
  | zero => exact ⟨[], rfl⟩
  | succ fuel ih =>
    unfold elapseWithin
    split
    · exact ⟨[], rfl⟩
    · rename_i timer runs
      split
      · exact ⟨[], rfl⟩
      · obtain ⟨nows, same⟩ := ih (d.tick timer (clock timer.next))
        have ticks : d.handle (.tick (clock timer.next)) = d.tick timer (clock timer.next) := by
          rw [handle, runs]
        refine ⟨clock timer.next :: nows, ?_⟩
        rw [same, List.map_cons, handleAll, handleAll, List.foldl_cons, ticks]

/-- Time that passes is a number of ticks. -/
theorem exists_ticks_elapse (d : Dispatcher σ) (clock : Nat → Instant) (start limit : Nat) :
    ∃ nows : List Instant, d.elapse clock start limit = d.handleAll (nows.map .tick) :=
  exists_ticks_elapseWithin d clock limit _

/-- Without a timer nothing happens when time passes. -/
lemma elapse_of_timer_none (stopped : d.timer = none) (clock : Nat → Instant)
    (start limit : Nat) : d.elapse clock start limit = d := by
  rw [elapse, elapseWithin, stopped]

section
variable {m : Publish} {now : Instant} {c : Courier σ}

/-- A message that is taken is sent on, and the timer is set. -/
lemma enqueue_of_ok {sent : List Packet} (taken : d.courier.enqueue m now = (.ok sent, c))
    (time : Nat) : d.enqueue m now time = (.ok (), d.proceed time (sent, c)) := by
  rw [enqueue, taken]

/-- A message that is refused leaves the timer as it is. -/
lemma enqueue_of_error {e : DeliveryError} (refused : d.courier.enqueue m now = (.error e, c))
    (time : Nat) : d.enqueue m now time = (.error e, { d with courier := c }) := by
  rw [enqueue, refused]

end

/-- A request is at most one call of the courier. -/
lemma courier_handle (d : Dispatcher σ) (r : Request) :
    (d.handle r).courier = d.courier ∨ ∃ op, (d.handle r).courier = (d.courier.call op).2 := by
  have proceeds (time : Nat) (next : List Packet × Courier σ) :
      (d.proceed time next).courier = next.2 := by
    rw [proceed, rearm_courier, send_courier]
  have ticks (timer : RetryTimer) (now : Instant) : (d.tick timer now).courier = d.courier ∨
      (d.tick timer now).courier = (d.courier.retry now).2 := by
    unfold tick
    split
    · exact .inl rfl
    · exact .inr (send_courier ..)
  -- every request is a call of the courier, or leaves it as it is
  cases r with
  | enqueue m now time =>
    refine .inr ⟨.enqueue m now, ?_⟩
    change (d.enqueue m now time).2.courier = _
    rcases answer : d.courier.enqueue m now with ⟨e | sent, c⟩
    · rw [enqueue_of_error answer, Courier.call, answer]
    · rw [enqueue_of_ok answer, Courier.call, answer]
      exact proceeds ..
  | acknowledge id kind now => exact .inr ⟨.acknowledge id kind now, proceeds ..⟩
  | connected cleanSession now => exact .inr ⟨.connected cleanSession now, proceeds ..⟩
  | recover now => exact .inr ⟨.recover now, proceeds ..⟩
  | cleanAll => exact .inr ⟨.cleanAll, rearm_courier ..⟩
  | nextPacketId => exact .inr ⟨.nextPacketId, rfl⟩
  | releasePacketId id => exact .inr ⟨.releasePacketId id, rfl⟩
  | tick now =>
    cases runs : d.timer with
    | none =>
      rw [handle, runs]
      exact .inl rfl
    | some timer =>
      rw [handle, runs]
      exact (ticks timer now).imp_right fun same => ⟨.retry now, same⟩
  | lateTick timer now => exact (ticks timer now).imp_right fun same => ⟨.retry now, same⟩
  | takeOutbox | closeOutbox => exact .inl rfl

/-- Every request keeps the owners of identifiers apart. -/
lemma disciplined_handle {out : Finset UInt16} (h : d.courier.Disciplined out) (r : Request) :
    ∃ out, (d.handle r).courier.Disciplined out := by
  obtain same | ⟨op, same⟩ := courier_handle d r
  · rw [same]
    exact ⟨out, h⟩
  · rw [same]
    exact ⟨_, (h.run (Courier.run_call d.courier op).2).2⟩

section
omit [RecordStore σ]

/-- Whether the timer runs exactly while packets are in flight, if it has not lapsed. -/
structure Keeps (d : Dispatcher σ) (lapsed : Bool) : Prop where
  timers : d.hasTimers = true
  armed : lapsed = true → d.courier.isArmed = true
  timer : d.timer.isSome = (d.courier.isArmed && !lapsed)

/-- What the timer keeps depends on the timer and on whether packets are in flight only. -/
lemma Keeps.congr {d' : Dispatcher σ} (k : d.Keeps lapsed) (timers : d'.hasTimers = d.hasTimers)
    (armed : d'.courier.isArmed = d.courier.isArmed)
    (timer : d'.timer.isSome = d.timer.isSome) : d'.Keeps lapsed := by
  refine ⟨timers.trans k.timers, ?_, ?_⟩
  · rw [armed]
    exact k.armed
  · rw [armed, timer]
    exact k.timer

/-- Behind a setting the timer keeps to the packets in flight. -/
lemma keeps_rearm (timers : d.hasTimers = true) (time : Nat) : (d.rearm time).Keeps false := by
  refine ⟨?_, nofun, ?_⟩
  · rw [rearm_hasTimers, timers]
  · rw [rearm_courier, isSome_timer_rearm timers, Bool.not_false, Bool.and_true]

/-- Behind a request that proceeds the timer keeps to the packets in flight. -/
lemma keeps_proceed (timers : d.hasTimers = true) (time : Nat) (next : List Packet × Courier σ) :
    (d.proceed time next).Keeps false :=
  keeps_rearm (d := Dispatcher.send { d with courier := next.2 } next.1)
    ((send_hasTimers ..).trans timers) time

end

/-- Taking up the packets of the archive lets the timer lapse, if there are any. -/
lemma Keeps.takeUp (k : d.Keeps lapsed)
    (fresh : d.courier.restored = false → d.courier.isArmed = false) (now : Instant)
    (ids : IdPool) : Keeps { d with courier := { d.courier.restore now with ids } }
      (lapsed || d.courier.takesUp now) := by
  cases before : d.courier.restored with
  | true =>
    have same : d.courier.restore now = d.courier := if_pos before
    rw [Courier.takesUp, before, Bool.not_true, Bool.false_and, Bool.or_false, same]
    exact k.congr rfl rfl rfl
  | false =>
    have idle := fresh before
    have runs : lapsed = false := by
      rw [← Bool.not_eq_true]
      exact fun lapsed => Bool.noConfusion (idle.symm.trans (k.armed lapsed))
    have stopped : d.timer.isSome = false := by
      rw [k.timer, idle, Bool.false_and]
    rw [runs, Bool.false_or, Courier.takesUp, before, Bool.not_false, Bool.true_and]
    exact ⟨k.timers, id, stopped.trans (Bool.and_not_self _).symm⟩

/-- A tick without packets in flight ends the timer. -/
lemma tick_of_idle (idle : d.courier.isArmed = false) (timer : RetryTimer) (now : Instant) :
    d.tick timer now = { d with timer := none } := by
  rw [tick, idle]
  rfl

/-- A tick with packets in flight sends what is due, and the timer goes on. -/
lemma tick_of_armed (armed : d.courier.isArmed = true) (timer : RetryTimer) (now : Instant) :
    d.tick timer now = Dispatcher.send { d with
      courier := (d.courier.retry now).2
      timer := some { timer with next := timer.next + timer.period } } (d.courier.retry now).1 := by
  rw [tick, armed]
  rfl

/-- The next tick is a period later. -/
lemma timer_tick (armed : d.courier.isArmed = true) (timer : RetryTimer) (now : Instant) :
    (d.tick timer now).timer = some { timer with next := timer.next + timer.period } := by
  rw [tick_of_armed armed, send_timer]

/-- A tick changes neither whether packets are in flight nor whether the timer runs. -/
lemma Keeps.tick (k : d.Keeps lapsed)
    (fresh : d.courier.restored = false → d.courier.isArmed = false) (timer : RetryTimer)
    (now : Instant) (next : Option RetryTimer)
    (same : d.courier.isArmed = true → next.isSome = d.timer.isSome)
    (stops : d.courier.isArmed = false → next = none) :
    Keeps { d.tick timer now with timer := next } lapsed := by
  cases armed : d.courier.isArmed with
  | false =>
    rw [tick_of_idle armed]
    refine k.congr rfl rfl ?_
    rw [stops armed, k.timer, armed]
    rfl
  | true =>
    have restored : d.courier.restored = true := by
      rw [← Bool.not_eq_false]
      exact fun before => Bool.noConfusion (armed.symm.trans (fresh before))
    rw [tick_of_armed armed]
    refine k.congr (send_hasTimers ..) ?_ (same armed)
    exact (congrArg Courier.isArmed (send_courier ..)).trans (Courier.isArmed_retry restored)

/-- Every request keeps the timer as it should be, or lets it lapse. -/
lemma Keeps.handle (k : d.Keeps lapsed)
    (fresh : d.courier.restored = false → d.courier.isArmed = false) (r : Request) :
    (d.handle r).Keeps (d.lapses lapsed r) := by
  cases r with
  | enqueue m now time =>
    change (d.enqueue m now time).2.Keeps _
    rcases answer : d.courier.enqueue m now with ⟨e | sent, c⟩
    · rw [enqueue_of_error answer, lapses, rearms, strands, answer]
      -- without a topic nothing is taken up; without room it is, and the timer is not set
      obtain ⟨-, rfl, rfl⟩ | ⟨-, rfl, rfl⟩ := Courier.enqueue_of_error answer
      · change Keeps d (lapsed || false)
        rw [Bool.or_false]
        exact k
      · exact k.takeUp fresh now _
    · rw [enqueue_of_ok answer, lapses_of_rearms (by rw [rearms, answer]; rfl)]
      exact keeps_proceed k.timers time (sent, c)
  | acknowledge id kind now time =>
    rw [lapses_of_rearms rfl]
    exact keeps_proceed k.timers time (d.courier.acknowledge id kind now)
  | connected cleanSession now time =>
    rw [lapses_of_rearms rfl]
    exact keeps_proceed k.timers time (d.courier.connected cleanSession now)
  | recover now time =>
    rw [lapses_of_rearms rfl]
    exact keeps_proceed k.timers time (d.courier.recover now)
  | cleanAll time =>
    rw [lapses_of_rearms rfl]
    exact keeps_rearm (d := { d with courier := d.courier.cleanAll }) k.timers time
  | nextPacketId =>
    obtain ⟨ids, same⟩ := Courier.nextPacketId_snd d.courier
    change Keeps { d with courier := d.courier.nextPacketId.2 } _
    rw [same]
    exact k.takeUp fresh .origin ids
  | releasePacketId id =>
    rw [lapses_of_keeps rfl rfl]
    change Keeps { d with courier := d.courier.releasePacketId id } lapsed
    unfold Courier.releasePacketId
    split <;> exact k.congr rfl rfl rfl
  | tick now =>
    rw [lapses_of_keeps rfl rfl]
    cases runs : d.timer with
    | none =>
      rw [Dispatcher.handle, runs]
      exact k
    | some timer =>
      rw [Dispatcher.handle, runs]
      refine k.tick fresh timer now (d.tick timer now).timer (fun armed => ?_) fun idle => ?_
      · rw [timer_tick armed, runs]
        rfl
      · rw [tick_of_idle idle]
  | lateTick timer now =>
    rw [lapses_of_keeps rfl rfl]
    refine k.tick fresh timer now _ (fun armed => ?_) fun idle => ?_
    · rw [if_pos armed]
    · rw [idle]
      rfl
  | takeOutbox | closeOutbox =>
    rw [lapses_of_keeps rfl rfl]
    exact k.congr rfl rfl rfl

/-- The timer of a courier with packets in flight runs exactly if it has not lapsed. -/
lemma Keeps.handleAll {out : Finset UInt16} (k : d.Keeps lapsed) (h : d.courier.Disciplined out)
    (rs : List Request) : (d.handleAll rs).Keeps (d.lapsesIn lapsed rs) := by
  induction rs generalizing d lapsed out with
  | nil => exact k
  | cons r rs ih =>
    obtain ⟨out, h'⟩ := disciplined_handle h r
    refine ih (k.handle (fun fresh => ?_) r) h'
    have empty := (h.idle fresh).window
    rw [← Bool.not_eq_true, Courier.isArmed_eq_true_iff, not_not]
    exact empty

/-- After every sequence of requests the timer runs only if packets are in flight. It runs exactly
if they are, unless it has lapsed: unless the packets of the archive were taken up by a request that
asked for an identifier, or offered a message which was refused, and no message was accepted, no
acknowledgment came and no connection began or was cleaned since. -/
theorem timer_isSome_iff (settings : Settings) (session : Option (Journal × σ))
    (rs : List Request) :
    let d₀ : Dispatcher σ := { courier := Courier.initial settings session }
    let d := d₀.handleAll rs
    (d.timer.isSome = true → d.courier.window.toList ≠ []) ∧
      ((d.timer.isSome = true ↔ d.courier.window.toList ≠ []) ↔ d₀.lapsesIn false rs = false) := by
  intro d₀ d
  have idle : d₀.courier.isArmed = false := by
    cases session <;> rfl
  have k₀ : d₀.Keeps false := by
    refine ⟨rfl, nofun, ?_⟩
    rw [idle]
    rfl
  have k := k₀.handleAll (Courier.disciplined_initial settings session) rs
  have runs : d.timer.isSome = (d.courier.isArmed && !d₀.lapsesIn false rs) := k.timer
  rw [← Courier.isArmed_eq_true_iff, runs]
  cases lapsed : d₀.lapsesIn false rs with
  | false => simp
  | true =>
    have armed : d.courier.isArmed = true := k.armed lapsed
    simp [armed]

/-- What was in flight when another dispatcher stopped is taken up for an identifier, or for a
message that is refused. No timer runs then, so that it is not sent again however much time
passes. -/
theorem not_timer_isSome_of_restart :
    let settings : Settings := { queueCapacity := 1 }
    let m : Publish := { qos := .atLeastOnce, topic := "a", payload := [1] }
    let stored := (Courier.initial settings (some (⟨[0, 1, 97], .v311, 0⟩, Table.empty))).after
      [.enqueue m .origin]
    let session := stored.archive.store?.bind fun s =>
      match Journal.openFor "a" .v311 s with
      | (.ok j, s) => some (j, s)
      | (.error _, _) => none
    let d₀ : Dispatcher Table := { courier := Courier.initial settings session }
    ∀ r ∈ [Request.nextPacketId, .enqueue m .origin 0],
      let d := d₀.handleAll [r]
      d.courier.window.toList = [⟨.publish { m with packetId := 1 }, .origin⟩] ∧
        d.timer = none ∧ ∀ clock start limit, d.elapse clock start limit = d := by
  intro settings m stored session d₀ r mem d
  have stopped : d.timer = none := by
    revert r
    decide +kernel
  refine ⟨?_, stopped, elapse_of_timer_none stopped⟩
  revert r
  decide +kernel

end Dispatcher
end MqttClient
