import MqttClient.Proofs.Delivery.Step
import Mathlib.Data.Finset.Erase
import Mathlib.Data.Finset.Insert

/-!
# Owners of packet identifiers

A packet identifier is taken exactly if a packet is in flight under it or it is lent for a
subscription, and never for both. This holds in every state of a courier, whatever its archive
holds and however it fails.
-/

namespace MqttClient.Courier
variable {σ : Type}

/-- The identifiers of the packets in flight. -/
def flying (c : Courier σ) : List UInt16 :=
  c.window.toList.map Inflight.packetId

/-- The identifiers that are lent after an event. -/
def Event.lend (out : Finset UInt16) : Event → Finset UInt16
  | lent id => insert id out
  | returned id => out.erase id
  | cleaned => ∅
  | _ => out

/-- The identifiers that are lent after events. -/
def outstanding (out : Finset UInt16) (es : List Event) : Finset UInt16 :=
  es.foldl Event.lend out

/-- The identifier that is taken in an event. -/
def Event.given? : Event → Option UInt16
  | takenUp p | entered p => p.packetId?
  | lent id => some id
  | _ => none

/-- Whether every identifier that is taken in the course of events is one that is not lent. -/
def Spares (out : Finset UInt16) : List Event → Prop
  | [] => True
  | e :: es => (∀ id, e.given? = some id → id ≠ 0 ∧ id ∉ out) ∧ Spares (e.lend out) es

/-- Whether every identifier that is taken has one owner. -/
structure Disciplined (c : Courier σ) (out : Finset UInt16) : Prop where
  /-- No two packets in flight share an identifier. -/
  apart : c.flying.Nodup
  /-- What is taken is in flight or lent. -/
  taken : ∀ id, c.ids.contains id = true ↔ id ∈ c.flying ∨ id ∈ out
  /-- What is lent is not in flight. -/
  disjoint : ∀ id ∈ out, id ∉ c.flying
  ids : c.ids.IsSound
  idle : c.restored = false → c.IsIdle

variable {c c' : Courier σ} {out : Finset UInt16} {now : Instant} {es es' : List Event}

/-- What is lent behind two parts of the history is counted on from the first. -/
@[simp]
lemma outstanding_append (out : Finset UInt16) (es es' : List Event) :
    outstanding out (es ++ es') = outstanding (outstanding out es) es' :=
  List.foldl_append

/-- Two parts of the history spare what is lent if each does from where it begins. -/
lemma spares_append : Spares out (es ++ es') ↔ Spares out es ∧ Spares (outstanding out es) es' := by
  induction es generalizing out with
  | nil => exact (and_iff_right trivial).symm
  | cons e es ih =>
    rw [List.cons_append, Spares, ih, ← and_assoc]
    rfl

/-- Events that take nothing lend nothing. -/
lemma spares_of_forall (idle : ∀ e ∈ es, e.given? = none) : Spares out es := by
  induction es generalizing out with
  | nil => trivial
  | cons e es ih =>
    rw [List.forall_mem_cons] at idle
    refine ⟨fun id given => ?_, ih idle.2⟩
    rw [idle.1] at given
    cases given

/-- Taking packets up lends nothing and takes nothing back. -/
lemma outstanding_takenUp (out : Finset UInt16) (ps : List Packet) :
    outstanding out (ps.map .takenUp) = out := by
  induction ps with
  | nil => rfl
  | cons p ps ih => exact ih

/-- Sending packets lends nothing and takes nothing back. -/
lemma outstanding_sent (out : Finset UInt16) (ps : List Packet) :
    outstanding out (ps.map .sent) = out := by
  induction ps with
  | nil => rfl
  | cons p ps ih => exact ih

namespace Disciplined

/-- An identifier that has an owner is not zero. -/
lemma ne_zero (h : c.Disciplined out) {id : UInt16} (owned : id ∈ c.flying ∨ id ∈ out) : id ≠ 0 :=
  h.ids.ne_zero ((h.taken id).mpr owned)

/-- A packet in flight has an identifier that is not zero. -/
lemma packetId_ne_zero (h : c.Disciplined out) {e : Inflight} (mem : e ∈ c.window.toList) :
    e.packetId ≠ 0 :=
  h.ne_zero (.inl (List.mem_map_of_mem mem))

/-- Every packet in flight names its identifier. -/
lemma packetId? (h : c.Disciplined out) {e : Inflight} (mem : e ∈ c.window.toList) :
    e.packet.packetId? = some e.packetId := by
  have ne := h.packetId_ne_zero mem
  cases named : e.packet.packetId? with
  | none =>
    rw [Inflight.packetId, named] at ne
    exact absurd rfl ne
  | some id => rw [Inflight.packetId_of_packet named]

/-- Packets in flight are told apart by their identifiers. -/
lemma eq_of_packetId (h : c.Disciplined out) {e f : Inflight} (he : e ∈ c.window.toList)
    (hf : f ∈ c.window.toList) (same : e.packetId = f.packetId) : e = f :=
  List.inj_on_of_nodup_map h.apart he hf same

/-- No other packet in flight has the identifier of a packet in flight. -/
lemma others_ne (h : c.Disciplined out) {before after : List Inflight} {e : Inflight}
    (window : c.window.toList = before ++ e :: after) :
    ∀ f ∈ before ++ after, f.packetId ≠ e.packetId := by
  have apart := h.apart
  rw [flying, window] at apart
  exact (Inflight.others_ne apart).1

/-- A courier that was not used yet lends nothing. -/
lemma eq_empty (h : c.Disciplined out) (fresh : c.restored = false) : out = ∅ := by
  rw [Finset.eq_empty_iff_forall_notMem]
  intro id mem
  have taken := (h.taken id).mpr (.inr mem)
  rw [(h.idle fresh).free id] at taken
  cases taken

/-- What is not taken has no owner. -/
lemma unowned (h : c.Disciplined out) {id : UInt16} (free : c.ids.contains id = false) :
    id ∉ c.flying ∧ id ∉ out := by
  rw [← not_or, ← h.taken, free]
  exact Bool.false_ne_true

/-- What goes on under the same identifiers changes no owner. -/
lemma congr (h : c.Disciplined out) (flying : c'.flying = c.flying) (ids : c'.ids = c.ids)
    (idle : c'.restored = false → c'.IsIdle) : c'.Disciplined out := by
  refine ⟨?_, ?_, ?_, ?_, idle⟩
  · rw [flying]
    exact h.apart
  · rw [flying, ids]
    exact h.taken
  · rw [flying]
    exact h.disjoint
  · rw [ids]
    exact h.ids

/-- A packet goes in flight under an identifier that was free. -/
lemma push (h : c.Disciplined out) {e : Inflight} {ids : IdPool} (sound : ids.IsSound)
    (free : c.ids.contains e.packetId = false)
    (contains : ∀ i, ids.contains i = true ↔ i = e.packetId ∨ c.ids.contains i = true)
    (flying : c'.flying = c.flying ++ [e.packetId]) (ids' : c'.ids = ids)
    (restored : c'.restored = true) : c'.Disciplined out := by
  obtain ⟨grounded, unlent⟩ := h.unowned free
  refine ⟨?_, ?_, ?_, ids' ▸ sound, idle_of_restored restored⟩
  · rw [flying, List.nodup_append]
    refine ⟨h.apart, List.nodup_singleton _, ?_⟩
    rintro i mem _ mem' rfl
    rw [List.mem_singleton.mp mem'] at mem
    exact grounded mem
  · intro i
    rw [ids', contains, h.taken, flying, List.mem_append, List.mem_singleton]
    tauto
  · intro i lent mem
    rw [flying, List.mem_append, List.mem_singleton] at mem
    rcases mem with mem | rfl
    · exact h.disjoint i lent mem
    · exact unlent lent

/-- A packet that is taken up owns its identifier. -/
lemma takeUp (h : c.Disciplined out) (restored : c.restored = true) (now : Instant) (p : Packet) :
    (takeUp now c p).Disciplined out ∧ (Courier.takeUp now c p).restored = true := by
  unfold Courier.takeUp
  split
  · exact ⟨h, restored⟩
  · rename_i ids taken
    obtain ⟨id, hid, taken⟩ := Option.bind_eq_some_iff.mp taken
    obtain ⟨-, free, -, contains⟩ := IdPool.reserve?_eq_some taken
    have under : (Inflight.mk p now).packetId = id := Inflight.packetId_of_packet hid
    refine ⟨h.push (e := ⟨p, now⟩) (h.ids.reserve? taken) ?_ ?_ ?_ rfl restored, restored⟩
    · rw [under]
      exact free
    · rw [under]
      exact contains
    · rw [flying, Fifo.toList_push, List.map_append]
      rfl

/-- A handshake ends, and its identifier is free again. -/
lemma remove (h : c.Disciplined out) {before after : List Inflight} {e : Inflight}
    (window : c.window.toList = before ++ e :: after) (restored : c.restored = true)
    (archive : Archive σ) :
    Courier.Disciplined { c with
      window := .ofList (before ++ after)
      archive
      ids := c.ids.release e.packetId } out := by
  have left : flying { c with
      window := .ofList (before ++ after)
      archive
      ids := c.ids.release e.packetId } = (before ++ after).map Inflight.packetId := by
    rw [flying, Fifo.toList_ofList]
  have present (i : UInt16) :
      i ∈ c.flying ↔ i = e.packetId ∨ i ∈ (before ++ after).map Inflight.packetId := by
    rw [flying, window, List.map_append, List.map_cons, List.map_append, List.mem_append,
      List.mem_append, List.mem_cons, or_left_comm]
  have apart := h.apart
  rw [flying, window] at apart
  obtain ⟨others, apart⟩ := Inflight.others_ne apart
  refine ⟨left.symm ▸ apart, ?_, ?_, h.ids.release _, idle_of_restored restored⟩
  · intro i
    rw [left, IdPool.contains_release, h.taken, present]
    constructor
    · tauto
    -- neither the other packets in flight nor the lent identifiers lose their owner
    · intro owned
      refine ⟨?_, by tauto⟩
      rintro rfl
      rcases owned with mem | lent
      · obtain ⟨f, mem, same⟩ := List.mem_map.mp mem
        exact others f mem same
      · exact h.disjoint _ lent ((present _).mpr (.inl rfl))
  · intro i lent mem
    rw [left] at mem
    exact h.disjoint i lent ((present i).mpr (.inr mem))

/-- An identifier that is lent had no owner, and is lent from then on. -/
lemma lend (h : c.Disciplined out) {id : UInt16} {ids : IdPool}
    (free : c.ids.allocate? = some (id, ids)) (restored : c.restored = true) :
    id ∉ out ∧ Courier.Disciplined { c with ids } (insert id out) := by
  obtain ⟨unused, contains⟩ := IdPool.allocate?_eq_some free
  obtain ⟨grounded, unlent⟩ := h.unowned unused
  refine ⟨unlent, h.apart, ?_, ?_, (h.ids.allocate? free).2, idle_of_restored restored⟩
  · intro i
    show ids.contains i = true ↔ i ∈ c.flying ∨ i ∈ insert id out
    rw [contains, h.taken, Finset.mem_insert]
    tauto
  · intro i lent
    rcases Finset.mem_insert.mp lent with rfl | lent
    · exact grounded
    · exact h.disjoint i lent

/-- An identifier that is given back has no owner, unless a packet is in flight under it. -/
lemma giveBack (h : c.Disciplined out) {id : UInt16} (unused : id ∉ c.flying) :
    Courier.Disciplined { c with ids := c.ids.release id } (out.erase id) := by
  refine ⟨h.apart, ?_, ?_, h.ids.release id, ?_⟩
  · intro i
    show (c.ids.release id).contains i = true ↔ i ∈ c.flying ∨ i ∈ out.erase id
    rw [IdPool.contains_release, h.taken, Finset.mem_erase]
    have ne (mem : i ∈ c.flying) : i ≠ id := fun e => unused (e ▸ mem)
    tauto
  · intro i lent
    exact h.disjoint i (Finset.mem_of_mem_erase lent)
  · intro fresh
    exact ⟨(h.idle fresh).window, (h.idle fresh).queue,
      fun i => IdPool.contains_release_of_free ((h.idle fresh).free i) id⟩

/-- Packets that are taken up own their identifiers. -/
lemma foldl_takeUp (h : c.Disciplined out) (restored : c.restored = true) (now : Instant)
    (ps : List Packet) : (ps.foldl (Courier.takeUp now) c).Disciplined out := by
  induction ps generalizing c with
  | nil => exact h
  | cons p ps ih =>
    obtain ⟨h', restored'⟩ := h.takeUp restored now p
    exact ih h' restored'

variable [RecordStore σ]

/-- Whatever packets the archive holds, those that are taken up have identifiers of their own. -/
lemma restore (h : c.Disciplined out) (fresh : c.restored = false) (now : Instant) :
    (c.restore now).Disciplined out := by
  unfold Courier.restore
  rw [fresh]
  have begun : Courier.Disciplined
      { c with archive := c.archive.readAll.2, restored := true } out :=
    h.congr rfl rfl (fun fresh => Bool.noConfusion fresh)
  exact begun.foldl_takeUp rfl now c.archive.readAll.1

/-- Behind a cleaning no identifier has an owner. -/
lemma cleanAll (h : c.Disciplined out) : c.cleanAll.Disciplined ∅ := by
  refine ⟨List.nodup_nil, ?_, ?_, h.ids.clear, idle_of_restored rfl⟩
  · intro id
    show c.ids.clear.contains id = true ↔ id ∈ [] ∨ id ∈ ∅
    simp [IdPool.contains_clear]
  · intro id lent
    exact absurd lent (Finset.notMem_empty id)

/-- What is taken up has an identifier other than zero, and nothing is lent yet. -/
lemma spares_takenUp (h : c.Disciplined out) (fresh : c.restored = false) (now : Instant) :
    Spares out (((c.restore now).window.toList.map Inflight.packet).map .takenUp) := by
  have h' := h.restore fresh now
  rw [h.eq_empty fresh] at h' ⊢
  have named : ∀ p ∈ (c.restore now).window.toList.map Inflight.packet, ∀ id,
      p.packetId? = some id → id ≠ 0 := by
    intro p mem id hid
    obtain ⟨e, he, rfl⟩ := List.mem_map.mp mem
    apply h'.ne_zero
    exact .inl (List.mem_map.mpr ⟨e, he, Inflight.packetId_of_packet hid⟩)
  generalize (c.restore now).window.toList.map Inflight.packet = ps at named
  induction ps with
  | nil => trivial
  | cons p ps ih =>
    rw [List.forall_mem_cons] at named
    exact ⟨fun id hid => ⟨named.1 id hid, Finset.notMem_empty id⟩, ih named.2⟩

/-- Every step keeps the owners of identifiers apart, and what it takes was free. -/
theorem step (h : c.Disciplined out) (step : Step now c es c') :
    Spares out es ∧ c'.Disciplined (outstanding out es) := by
  cases step with
  | restore fresh =>
    rw [outstanding_takenUp]
    exact ⟨h.spares_takenUp fresh now, h.restore fresh now⟩
  | pass => exact ⟨spares_of_forall (by simp [Event.given?]), h⟩
  | accept restored =>
    refine ⟨spares_of_forall (by simp [Event.given?]), ?_⟩
    exact h.congr rfl rfl (idle_of_restored restored)
  -- what is taken here is fresh off the pool, so neither in flight nor lent
  | @send m queue id ids restored _ free =>
    obtain ⟨unused, contains⟩ := IdPool.allocate?_eq_some free
    obtain ⟨ne, sound⟩ := h.ids.allocate? free
    have named : Packet.packetId? (.publish { m with packetId := id }) = some id := if_neg ne
    have under : (Inflight.mk (.publish { m with packetId := id }) now).packetId = id :=
      Inflight.packetId_of_packet named
    refine ⟨⟨?_, trivial⟩, ?_⟩
    · intro i given
      obtain rfl : id = i := Option.some_inj.mp (named.symm.trans given)
      exact ⟨ne, (h.lend free restored).1⟩
    · refine h.push (e := ⟨.publish { m with packetId := id }, now⟩) sound ?_ ?_ ?_ rfl restored
      · rw [under]
        exact unused
      · rw [under]
        exact contains
      · rw [flying, Fifo.toList_push, List.map_append]
        rfl
  | release restored found =>
    obtain ⟨window, rfl, -⟩ := splitAt?_eq_some found
    refine ⟨spares_of_forall (by simp [Event.given?]), ?_⟩
    refine h.congr ?_ rfl (idle_of_restored restored)
    simp only [flying, window, Fifo.toList_ofList, List.map_append, List.map_cons]
    rfl
  | complete restored _ found =>
    obtain ⟨window, rfl, -⟩ := splitAt?_eq_some found
    exact ⟨spares_of_forall (by simp [Event.given?]), h.remove window restored _⟩
  | resend restored window =>
    refine ⟨spares_of_forall (by simp [Event.given?]), ?_⟩
    refine h.congr ?_ rfl (idle_of_restored restored)
    simp only [flying, window, Fifo.toList_ofList, List.map_append, List.map_cons,
      Inflight.packetId_again]
  | replay restored =>
    rw [outstanding_sent]
    refine ⟨spares_of_forall (by simp [Event.given?]), ?_⟩
    refine h.congr ?_ rfl (idle_of_restored restored)
    rw [flying, Fifo.toList_ofList, List.map_map]
    rfl
  | settle same =>
    refine ⟨trivial, h.congr ?_ rfl fun fresh => ?_⟩
    · rw [flying, same]
      rfl
    · exact ⟨same.trans (h.idle fresh).window, (h.idle fresh).queue, (h.idle fresh).free⟩
  | clean => exact ⟨spares_of_forall (by simp [Event.given?]), h.cleanAll⟩
  | @take id ids restored free =>
    obtain ⟨unowned, lent⟩ := h.lend free restored
    refine ⟨⟨?_, trivial⟩, lent⟩
    intro i given
    obtain rfl := Option.some_inj.mp given
    exact ⟨(h.ids.allocate? free).1, unowned⟩
  | giveBack absent =>
    refine ⟨spares_of_forall (by simp [Event.given?]), h.giveBack ?_⟩
    intro mem
    obtain ⟨e, he, under⟩ := List.mem_map.mp mem
    exact absent e he under
  -- an identifier that is in flight was not lent, so there is nothing to give back
  | @retain id present =>
    have flying : id ∈ c.flying := List.mem_map.mpr present
    refine ⟨spares_of_forall (by simp [Event.given?]), ?_⟩
    show c.Disciplined (out.erase id)
    rw [Finset.erase_eq_of_notMem fun lent => h.disjoint id lent flying]
    exact h

/-- Every run of steps keeps the owners of identifiers apart. -/
theorem run (h : c.Disciplined out) (run : Run now c es c') :
    Spares out es ∧ c'.Disciplined (outstanding out es) := by
  induction run generalizing out with
  | refl => exact ⟨trivial, h⟩
  | step first _ ih =>
    obtain ⟨spares, h'⟩ := h.step first
    obtain ⟨spares', h''⟩ := ih h'
    rw [outstanding_append]
    exact ⟨spares_append.mpr ⟨spares, spares'⟩, h''⟩

/-- In every run the identifiers have one owner, and those that are lent are spared. -/
theorem trace (h : c.Disciplined out) (ops : List Call) :
    Spares out (c.trace ops) ∧ (c.after ops).Disciplined (outstanding out (c.trace ops)) := by
  induction ops generalizing c out with
  | nil => exact ⟨trivial, h⟩
  | cons op ops ih =>
    obtain ⟨spares, h'⟩ := h.run (run_call c op).2
    obtain ⟨spares', h''⟩ := ih h'
    rw [Courier.trace, outstanding_append]
    exact ⟨spares_append.mpr ⟨spares, spares'⟩, h''⟩

/-- What every step keeps is kept by a run, for steps from disciplined states. -/
lemma run_induction {motive : Courier σ → List Event → Prop} (h : c.Disciplined out)
    (begun : motive c es)
    (step : ∀ {c c' : Courier σ} {out : Finset UInt16} {now : Instant} {es es' : List Event},
      c.Disciplined out → motive c es → Step now c es' c' → motive c' (es ++ es'))
    (run : Run now c es' c') : motive c' (es ++ es') := by
  induction run generalizing out es with
  | refl =>
    rw [List.append_nil]
    exact begun
  | step first _ ih =>
    rw [← List.append_assoc]
    exact ih (h.step first).2 (step h begun first)

/-- What every step keeps, of the courier and of all that happened to it, is kept by calls. A step
may rely on the owners of identifiers being kept apart. -/
theorem trace_induction {motive : Courier σ → List Event → Prop} (h : c.Disciplined out)
    (es : List Event) (begun : motive c es)
    (step : ∀ {c c' : Courier σ} {out : Finset UInt16} {now : Instant} {es es' : List Event},
      c.Disciplined out → motive c es → Step now c es' c' → motive c' (es ++ es'))
    (ops : List Call) : motive (c.after ops) (es ++ c.trace ops) := by
  induction ops generalizing c out es with
  | nil =>
    rw [Courier.trace, List.append_nil]
    exact begun
  | cons op ops ih =>
    have run := (run_call c op).2
    rw [Courier.trace, ← List.append_assoc]
    exact ih (h.run run).2 _ (h.run_induction begun step run)

end Disciplined

variable [RecordStore σ]

omit [RecordStore σ] in
/-- Before the first call no identifier is taken. -/
lemma contains_initial (settings : Settings) (session : Option (Journal × σ)) (id : UInt16) :
    (initial settings session).ids.contains id = false := by
  cases session <;> simp [initial, volatile, withJournal, IdPool.contains]

omit [RecordStore σ] in
/-- Before the first call no identifier has an owner. -/
lemma disciplined_initial (settings : Settings) (session : Option (Journal × σ)) :
    (initial settings session).Disciplined ∅ := by
  have free := contains_initial settings session
  have flying : (initial settings session).flying = [] := by
    cases session <;> rfl
  refine ⟨?_, fun id => ?_, ?_, ⟨?_, free 0⟩, fun _ => ⟨?_, ?_, free⟩⟩
  · rw [flying]
    exact List.nodup_nil
  · rw [flying, free]
    simp
  · intro id lent
    exact absurd lent (Finset.notMem_empty id)
  · cases session <;> exact (by decide : (1 : UInt16) ≠ 0)
  · cases session <;> rfl
  · cases session <;> rfl

/-- In every state of a courier, the packets in flight have identifiers of their own, and an
identifier is taken exactly if it is one of theirs or lent, but never both. Whatever is taken was
not lent, what is handed out is not in flight either, and giving back what is in flight is in
vain. -/
theorem taken_iff_flying_or_outstanding (settings : Settings) (session : Option (Journal × σ))
    (ops : List Call) :
    let c := (initial settings session).after ops
    let out := outstanding ∅ ((initial settings session).trace ops)
    c.flying.Nodup ∧ (∀ id ∈ c.flying, id ≠ 0) ∧
      (∀ id, c.ids.contains id = true ↔ id ∈ c.flying ∨ id ∈ out) ∧
      (∀ id ∈ out, id ∉ c.flying) ∧
      Spares ∅ ((initial settings session).trace ops) ∧
      (∀ id, c.nextPacketId.1 = .ok id → id ≠ 0 ∧ id ∉ out ∧ id ∉ c.nextPacketId.2.flying) ∧
      ∀ id ∈ c.flying, (c.releasePacketId id).ids.contains id = true := by
  intro c out
  obtain ⟨spares, h⟩ := (disciplined_initial settings session).trace ops
  change c.Disciplined out at h
  refine ⟨h.apart, fun id mem => h.ne_zero (.inl mem), h.taken, h.disjoint, spares, ?_, ?_⟩
  · intro id given
    obtain ⟨spares', h'⟩ := h.run (run_call c .nextPacketId).2
    have happened : c.events .nextPacketId =
        (c.takenUp .nextPacketId).map .takenUp ++ [.lent id] := by
      simp only [events, prompts, resent, entered, given, List.map_nil, List.append_nil]
    rw [happened, spares_append, outstanding_takenUp] at spares'
    rw [happened, outstanding_append, outstanding_takenUp] at h'
    obtain ⟨ne, unowned⟩ := spares'.2.1 id rfl
    exact ⟨ne, unowned, h'.disjoint id (Finset.mem_insert_self ..)⟩
  · intro id mem
    have kept : c.releasePacketId id = c := by
      apply if_pos
      simpa [flying] using mem
    rw [kept]
    exact (h.taken id).mpr (.inl mem)

end MqttClient.Courier
