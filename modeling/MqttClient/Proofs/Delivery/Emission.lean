import MqttClient.Proofs.Delivery.Discipline
import MqttClient.Proofs.Delivery.Phase

/-!
# What is sent under an identifier

The trace of every run of a courier, as far as it concerns an identifier, is a path of the automaton
of its phases, and the phase at its end tells which packet is in flight under the identifier. So
what is sent of a message has the order that its handshake asks for.
-/

namespace MqttClient.Courier
variable {σ : Type}

/-- Whether a phase is that of an identifier in a state of the courier. -/
def Phase.Fits (c : Courier σ) (out : Finset UInt16) (id : UInt16) : Phase → Prop
  | untouched => c.ids.contains id = false
  | idle => c.restored = true ∧ c.ids.contains id = false
  | lent => c.restored = true ∧ id ∈ out
  | flying p => c.restored = true ∧ ∃ e ∈ c.window.toList, e.packetId = id ∧ e.packet = p

/-- Whether events lead an identifier on from a phase to one that fits a state of the courier. -/
def Unfolds (c : Courier σ) (out : Finset UInt16) (id : UInt16) (φ : Phase) (es : List Event) :
    Prop :=
  ∃ φ', Follows id φ (es.filter (Event.concerns id)) φ' ∧ φ'.Fits c out id

/-- Whether the messages that wait are as they were taken for delivery. -/
def Prepared (c : Courier σ) : Prop :=
  ∀ m ∈ c.queue.toList, m.isAcknowledged = true ∧ m.dup = false

variable {c c' : Courier σ} {out : Finset UInt16} {id : UInt16} {φ φ' : Phase} {now : Instant}
  {es : List Event}

/-- Nothing is sent under an identifier that no packet has. -/
lemma filter_packets_eq_nil {window : List Inflight}
    (named : ∀ e ∈ window, e.packet.packetId? = some e.packetId)
    (absent : id ∉ window.map Inflight.packetId) :
    (window.map Inflight.packet).filter (fun p => p.packetId? = some id) = [] := by
  rw [List.filter_eq_nil_iff]
  intro p hp same
  obtain ⟨e, mem, rfl⟩ := List.mem_map.mp hp
  rw [decide_eq_true_eq, named e mem, Option.some_inj] at same
  apply absent
  rw [← same]
  exact List.mem_map_of_mem mem

/-- Of the packets in flight, one is sent under an identifier that is in flight. -/
lemma Disciplined.filter_packets (h : c.Disciplined out) {e : Inflight}
    (mem : e ∈ c.window.toList) :
    (c.window.toList.map Inflight.packet).filter (fun p => p.packetId? = some e.packetId) =
      [e.packet] := by
  have named : ∀ f ∈ c.window.toList, f.packet.packetId? = some f.packetId :=
    fun f => h.packetId?
  have apart := h.apart
  obtain ⟨before, after, split⟩ := List.append_of_mem mem
  rw [flying, split, List.map_append, List.map_cons, List.nodup_middle, List.nodup_cons,
    List.mem_append, not_or] at apart
  rw [split, List.forall_mem_append, List.forall_mem_cons] at named
  rw [split, List.map_append, List.map_cons, List.filter_append, List.filter_cons,
    filter_packets_eq_nil named.1 apart.1.1, filter_packets_eq_nil named.2.2 apart.1.2, named.2.1]
  simp

namespace Phase.Fits

/-- Before packets are taken up, no identifier was touched. -/
lemma eq_untouched (fits : φ.Fits c out id) (fresh : c.restored = false) : φ = .untouched := by
  cases φ with
  | untouched => rfl
  | _ => exact Bool.noConfusion (fits.1.symm.trans fresh)

/-- An identifier that is not taken is in a phase in which it is free. -/
lemma isFree (h : c.Disciplined out) (fits : φ.Fits c out id) (free : c.ids.contains id = false) :
    φ.IsFree := by
  obtain ⟨grounded, unlent⟩ := h.unowned free
  cases φ with
  | untouched => trivial
  | idle => trivial
  | lent => exact unlent fits.2
  | flying p =>
    obtain ⟨-, e, mem, under, -⟩ := fits
    exact grounded (List.mem_map.mpr ⟨e, mem, under⟩)

/-- An identifier with a packet in flight is in the phase of this packet. -/
lemma eq_flying (h : c.Disciplined out) {e : Inflight} (fits : φ.Fits c out e.packetId)
    (mem : e ∈ c.window.toList) : φ = .flying e.packet := by
  have flying : e.packetId ∈ c.flying := List.mem_map_of_mem mem
  have taken := (h.taken e.packetId).mpr (.inl flying)
  cases φ with
  | untouched => exact Bool.noConfusion (fits.symm.trans taken)
  | idle => exact Bool.noConfusion (fits.2.symm.trans taken)
  | lent => exact absurd flying (h.disjoint _ fits.2)
  | flying p =>
    obtain ⟨-, f, hf, same, rfl⟩ := fits
    rw [h.eq_of_packetId hf mem same]

/-- What is about other identifiers leaves the phase as it is. -/
lemma congr (fits : φ.Fits c out id) (restored : c.restored = true → c'.restored = true)
    (contains : c'.ids.contains id = c.ids.contains id) {out' : Finset UInt16}
    (lent : id ∈ out → id ∈ out')
    (window : ∀ e ∈ c.window.toList, e.packetId = id →
      ∃ f ∈ c'.window.toList, f.packetId = id ∧ f.packet = e.packet) : φ.Fits c' out' id := by
  cases φ with
  | untouched => exact contains.trans fits
  | idle => exact ⟨restored fits.1, contains.trans fits.2⟩
  | lent => exact ⟨restored fits.1, lent fits.2⟩
  | flying p =>
    obtain ⟨hr, e, mem, under, rfl⟩ := fits
    exact ⟨restored hr, window e mem under⟩

/-- What takes the place of a packet under another identifier leaves the phase as it is. -/
lemma replace (fits : φ.Fits c out id) {before after : List Inflight} {e : Inflight}
    (mid : List Inflight) (restored : c.restored = true)
    (window : c.window.toList = before ++ e :: after) (other : e.packetId ≠ id) {ids : IdPool}
    (contains : ids.contains id = c.ids.contains id) (archive : Archive σ) :
    φ.Fits { c with window := .ofList (before ++ (mid ++ after)), ids, archive } out id := by
  apply fits.congr
  · exact fun _ => restored
  · exact contains
  · exact fun lent => lent
  · intro f hf under
    refine ⟨f, ?_, under, rfl⟩
    rw [window, List.mem_append, List.mem_cons] at hf
    rw [Fifo.toList_ofList, List.mem_append, List.mem_append]
    rcases hf with hf | rfl | hf
    · exact .inl hf
    · exact absurd under other
    · exact .inr (.inr hf)

end Phase.Fits

/-- Events about other identifiers keep the phase. -/
lemma Phase.Fits.unfolds (fits : φ.Fits c out id) (silent : ∀ e ∈ es, e.concerns id = false) :
    c.Unfolds out id φ es := by
  refine ⟨φ, ?_, fits⟩
  rw [List.filter_eq_nil_iff.mpr fun e mem => Bool.eq_false_iff.mp (silent e mem)]
  exact .nil

/-- An event shifts the phase. -/
lemma Shifts.unfolds {e : Event} (shift : Shifts id φ e φ') (fits : φ'.Fits c out id)
    (concerns : e.concerns id = true) : c.Unfolds out id φ [e] := by
  refine ⟨φ', ?_, fits⟩
  rw [List.filter_singleton, concerns]
  exact shift.follows

namespace Disciplined

/-- Packets of the archive are the first to go in flight. -/
lemma unfolds_restore [RecordStore σ] (h : c.Disciplined out) (fits : φ.Fits c out id)
    (fresh : c.restored = false) (now : Instant) :
    (c.restore now).Unfolds out id φ
      (((c.restore now).window.toList.map Inflight.packet).map .takenUp) := by
  have h' := h.restore fresh now
  have concerned : (((c.restore now).window.toList.map Inflight.packet).map Event.takenUp).filter
      (Event.concerns id) = (((c.restore now).window.toList.map Inflight.packet).filter
        (fun p => p.packetId? = some id)).map .takenUp :=
    List.filter_map
  rw [Unfolds, concerned, fits.eq_untouched fresh]
  by_cases mem : id ∈ (c.restore now).flying
  · obtain ⟨e, he, rfl⟩ := List.mem_map.mp mem
    rw [h'.filter_packets he]
    refine ⟨.flying e.packet, (Shifts.takeUp (h'.packetId? he)).follows, ?_⟩
    exact ⟨restored_restore c now, e, he, rfl, rfl⟩
  · rw [filter_packets_eq_nil (fun e => h'.packetId?) mem]
    refine ⟨.untouched, .nil, ?_⟩
    show (c.restore now).ids.contains id = false
    rw [Bool.eq_false_iff, Ne, h'.taken, h.eq_empty fresh]
    exact not_or.mpr ⟨mem, Finset.notMem_empty id⟩

/-- A message goes in flight under an identifier that is free. -/
lemma unfolds_send (h : c.Disciplined out) (ready : c.Prepared) (fits : φ.Fits c out id)
    {m : Publish} {queue : Fifo Publish} {i : UInt16} {ids : IdPool}
    (restored : c.restored = true) (free : c.ids.allocate? = some (i, ids))
    (first : c.queue.pop? = some (m, queue)) (archive : Archive σ) (now : Instant) :
    Courier.Unfolds { c with
      queue
      ids
      archive
      window := c.window.push ⟨.publish { m with packetId := i }, now⟩ } out id φ
      [.entered (.publish { m with packetId := i })] := by
  obtain ⟨unused, contains⟩ := IdPool.allocate?_eq_some free
  obtain ⟨ne, -⟩ := h.ids.allocate? free
  have named : Packet.packetId? (.publish { m with packetId := i }) = some i := if_neg ne
  -- the identifier gets a packet in flight if it is the one that was handed out, and stays else
  by_cases same : i = id
  · subst same
    have waited : m ∈ c.queue.toList := by
      rw [Fifo.toList_of_pop? first]
      exact List.mem_cons_self ..
    obtain ⟨acknowledged, unmarked⟩ := ready m waited
    have shift : Shifts i φ (.entered (.publish { m with packetId := i }))
        (.flying (.publish { m with packetId := i })) :=
      .enter (fits.isFree h unused) ne rfl acknowledged unmarked
    apply shift.unfolds
    · refine ⟨restored, ⟨.publish { m with packetId := i }, now⟩, ?_,
        Inflight.packetId_of_packet named, rfl⟩
      rw [Fifo.toList_push]
      exact List.mem_append_right _ (List.mem_singleton_self _)
    · simp [Event.concerns, named]
  · apply Phase.Fits.unfolds
    · apply fits.congr
      · exact fun _ => restored
      · rw [Bool.eq_iff_iff, contains]
        exact or_iff_right (Ne.symm same)
      · exact fun lent => lent
      · intro e mem under
        refine ⟨e, ?_, under, rfl⟩
        rw [Fifo.toList_push]
        exact List.mem_append_left _ mem
    · simp [Event.concerns, named, same]

/-- A release goes in flight in place of its message. -/
lemma unfolds_release (h : c.Disciplined out) (fits : φ.Fits c out id) {i : UInt16}
    {before after : List Inflight} {e : Inflight} (restored : c.restored = true)
    (found : splitAt? i .pubrec c.window.toList = some (before, e, after)) (archive : Archive σ)
    (now : Instant) :
    Courier.Unfolds { c with
      window := .ofList (before ++ ⟨.pubrel { packetId := i }, now⟩ :: after)
      archive } out id φ
      [.acknowledged i .pubrec, .sent (.pubrel { packetId := i })] := by
  obtain ⟨window, rfl, awaits⟩ := splitAt?_eq_some found
  have mem : e ∈ c.window.toList := window ▸ List.mem_append_cons_self
  by_cases same : e.packetId = id
  · subst same
    obtain ⟨m, packet, ⟨-, ⟨⟩⟩ | ⟨qos, -⟩⟩ | ⟨a, -, ⟨⟩⟩ := Inflight.awaits_eq_true_iff.mp awaits
    rw [fits.eq_flying h mem, packet]
    refine ⟨.flying (.pubrel { packetId := e.packetId }), ?_, restored,
      ⟨.pubrel { packetId := e.packetId }, now⟩, by simp, rfl, rfl⟩
    have concerned : [Event.acknowledged e.packetId .pubrec,
        .sent (.pubrel { packetId := e.packetId })].filter (Event.concerns e.packetId) =
        [.acknowledged e.packetId .pubrec, .sent (.pubrel { packetId := e.packetId })] := by
      simp [Event.concerns, Packet.packetId?]
    rw [concerned]
    exact .cons (.pubrec qos) Shifts.again.follows
  · apply Phase.Fits.unfolds
    · exact fits.replace [_] restored window same rfl archive
    · simp [Event.concerns, Packet.packetId?, same]

/-- The end of a handshake sets its identifier free. -/
lemma unfolds_complete (h : c.Disciplined out) (fits : φ.Fits c out id) {i : UInt16}
    {kind : AckKind} {before after : List Inflight} {e : Inflight} (restored : c.restored = true)
    (ends : kind ≠ .pubrec)
    (found : splitAt? i kind c.window.toList = some (before, e, after)) (archive : Archive σ) :
    Courier.Unfolds { c with
      window := .ofList (before ++ after)
      archive
      ids := c.ids.release i } out id φ [.acknowledged i kind] := by
  obtain ⟨window, rfl, awaits⟩ := splitAt?_eq_some found
  have mem : e ∈ c.window.toList := window ▸ List.mem_append_cons_self
  by_cases same : e.packetId = id
  · subst same
    rw [fits.eq_flying h mem]
    have shift : Shifts e.packetId (.flying e.packet) (.acknowledged e.packetId kind) .idle := by
      obtain ⟨m, packet, ⟨qos, rfl⟩ | ⟨-, rfl⟩⟩ | ⟨a, packet, rfl⟩ :=
        Inflight.awaits_eq_true_iff.mp awaits
      · rw [packet]
        exact .puback qos
      · exact absurd rfl ends
      · rw [packet]
        exact .pubcomp
    exact shift.unfolds ⟨restored, IdPool.contains_release_self ..⟩ (by simp [Event.concerns])
  · apply Phase.Fits.unfolds
    · have contains : (c.ids.release e.packetId).contains id = c.ids.contains id :=
        IdPool.contains_release_of_ne (Ne.symm same)
      exact fits.replace [] restored window same contains archive
    · simp [Event.concerns, same]

/-- What is sent once more is what is in flight, a message with its mark. -/
lemma unfolds_resend (h : c.Disciplined out) (fits : φ.Fits c out id)
    {before after : List Inflight} {e : Inflight} (restored : c.restored = true)
    (window : c.window.toList = before ++ e :: after) (archive : Archive σ) (now : Instant) :
    Courier.Unfolds { c with
      window := .ofList (before ++ e.again now :: after)
      archive } out id φ [.sent (e.again now).packet] := by
  have mem : e ∈ c.window.toList := window ▸ List.mem_append_cons_self
  have named : (e.again now).packet.packetId? = some e.packetId := by
    rw [← h.packetId? mem]
    unfold Inflight.again
    split
    · rename_i m packet
      rw [packet]
      rfl
    · rfl
  -- only the phase of the identifier of the packet is led on
  by_cases same : e.packetId = id
  · subst same
    rw [fits.eq_flying h mem]
    have shift : Shifts e.packetId (.flying e.packet) (.sent (e.again now).packet)
        (.flying (e.again now).packet) := by
      unfold Inflight.again
      split
      · rename_i m packet
        rw [packet]
        exact .mark
      · exact .again
    apply shift.unfolds
    · exact ⟨restored, e.again now, by simp, e.packetId_again now, rfl⟩
    · simp [Event.concerns, named]
  · apply Phase.Fits.unfolds
    · exact fits.replace [_] restored window same rfl archive
    · simp [Event.concerns, named, same]

/-- What is replayed is what is in flight. -/
lemma unfolds_replay (h : c.Disciplined out) (fits : φ.Fits c out id) (restored : c.restored = true)
    (now : Instant) :
    Courier.Unfolds { c with
      window := .ofList (c.window.toList.map fun e => { e with lastSent := now }) } out id φ
      ((c.window.toList.map Inflight.packet).map .sent) := by
  have concerned : ((c.window.toList.map Inflight.packet).map Event.sent).filter
      (Event.concerns id) = ((c.window.toList.map Inflight.packet).filter
        (fun p => p.packetId? = some id)).map .sent :=
    List.filter_map
  refine ⟨φ, ?_, ?_⟩
  · rw [concerned]
    by_cases mem : id ∈ c.flying
    · obtain ⟨e, he, rfl⟩ := List.mem_map.mp mem
      rw [h.filter_packets he, fits.eq_flying h he]
      exact Shifts.again.follows
    · rw [filter_packets_eq_nil (fun e => h.packetId?) mem]
      exact .nil
  · apply fits.congr
    · exact fun _ => restored
    · rfl
    · exact fun lent => lent
    · intro e mem under
      refine ⟨{ e with lastSent := now }, ?_, under, rfl⟩
      rw [Fifo.toList_ofList]
      exact List.mem_map_of_mem mem

/-- Lending is about an identifier that is free. -/
lemma unfolds_take (h : c.Disciplined out) (fits : φ.Fits c out id) {i : UInt16} {ids : IdPool}
    (restored : c.restored = true) (free : c.ids.allocate? = some (i, ids)) :
    Courier.Unfolds { c with ids } (insert i out) id φ [.lent i] := by
  obtain ⟨unused, contains⟩ := IdPool.allocate?_eq_some free
  by_cases same : i = id
  · subst same
    apply (Shifts.lend (fits.isFree h unused)).unfolds
    · exact ⟨restored, Finset.mem_insert_self ..⟩
    · simp [Event.concerns]
  · apply Phase.Fits.unfolds
    · apply fits.congr
      · exact fun _ => restored
      · rw [Bool.eq_iff_iff, contains]
        exact or_iff_right (Ne.symm same)
      · exact Finset.mem_insert_of_mem
      · exact fun e mem under => ⟨e, mem, under, rfl⟩
    · simp [Event.concerns, same]

/-- Giving back is about an identifier that is lent, or in vain. -/
lemma unfolds_giveBack (fits : φ.Fits c out id) {i : UInt16}
    (unused : i ∉ c.flying) :
    Courier.Unfolds { c with ids := c.ids.release i } (out.erase i) id φ [.returned i] := by
  by_cases same : i = id
  · subst same
    have free := IdPool.contains_release_self c.ids i
    have concerns : Event.concerns i (.returned i) = true := by
      simp [Event.concerns]
    cases φ with
    | untouched => exact (Shifts.keep Phase.noConfusion).unfolds free concerns
    | idle => exact (Shifts.keep Phase.noConfusion).unfolds ⟨fits.1, free⟩ concerns
    | lent => exact Shifts.giveBack.unfolds ⟨fits.1, free⟩ concerns
    | flying p =>
      obtain ⟨-, e, mem, under, -⟩ := fits
      exact absurd (List.mem_map.mpr ⟨e, mem, under⟩) unused
  · apply Phase.Fits.unfolds
    · apply fits.congr
      · exact fun restored => restored
      · exact IdPool.contains_release_of_ne (Ne.symm same)
      · exact fun lent => Finset.mem_erase.mpr ⟨Ne.symm same, lent⟩
      · exact fun e mem under => ⟨e, mem, under, rfl⟩
    · simp [Event.concerns, same]

/-- Every step moves the phase of an identifier along the automaton. -/
theorem unfolds_step [RecordStore σ] (h : c.Disciplined out) (ready : c.Prepared)
    (fits : φ.Fits c out id) (step : Step now c es c') :
    c'.Unfolds (outstanding out es) id φ es := by
  cases step with
  | restore fresh =>
    rw [outstanding_takenUp]
    exact h.unfolds_restore fits fresh now
  | pass _ _ unnamed =>
    apply fits.unfolds
    simp [Event.concerns, Packet.packetId?, unnamed]
  | accept restored =>
    apply Phase.Fits.unfolds
    · exact fits.congr (fun _ => restored) rfl (fun lent => lent)
        fun e mem under => ⟨e, mem, under, rfl⟩
    · simp [Event.concerns]
  | send restored _ free first => exact h.unfolds_send ready fits restored free first _ now
  | release restored found => exact h.unfolds_release fits restored found _ now
  | complete restored ends found => exact h.unfolds_complete fits restored ends found _
  | resend restored window => exact h.unfolds_resend fits restored window _ now
  | replay restored =>
    rw [outstanding_sent]
    exact h.unfolds_replay fits restored now
  | settle same =>
    apply Phase.Fits.unfolds
    · apply fits.congr
      · exact fun restored => restored
      · rfl
      · exact fun lent => lent
      · intro e mem under
        exact ⟨e, same ▸ mem, under, rfl⟩
    · exact List.forall_mem_nil _
  | clean => exact Shifts.clean.unfolds ⟨rfl, IdPool.contains_clear id⟩ rfl
  | take restored free => exact h.unfolds_take fits restored free
  | giveBack absent =>
    apply unfolds_giveBack fits
    intro mem
    obtain ⟨e, he, under⟩ := List.mem_map.mp mem
    exact absent e he under
  | @retain i present =>
    obtain ⟨e, mem, rfl⟩ := present
    have unowned : e.packetId ∉ out := fun lent => h.disjoint _ lent (List.mem_map_of_mem mem)
    show c.Unfolds (out.erase e.packetId) id φ [.returned e.packetId]
    rw [Finset.erase_eq_of_notMem unowned]
    by_cases same : e.packetId = id
    · subst same
      apply (Shifts.keep _).unfolds fits
      · simp [Event.concerns]
      · rw [fits.eq_flying h mem]
        exact Phase.noConfusion
    · apply fits.unfolds
      simp [Event.concerns, same]

end Disciplined

variable [RecordStore σ]

/-- Messages wait as they were taken for delivery. -/
lemma Prepared.step (ready : c.Prepared) (step : Step now c es c') : c'.Prepared := by
  cases step with
  | restore =>
    rw [Prepared, queue_restore]
    exact ready
  | accept _ _ acknowledged _ unmarked =>
    rw [Prepared, Fifo.toList_push, List.forall_mem_append, List.forall_mem_singleton]
    exact ⟨ready, acknowledged, unmarked⟩
  | send _ _ _ first =>
    rw [Prepared, Fifo.toList_of_pop? first, List.forall_mem_cons] at ready
    exact ready.2
  | clean => exact List.forall_mem_nil _
  | _ => exact ready

omit [RecordStore σ] in
/-- Before the first call no message waits. -/
lemma prepared_initial (settings : Settings) (session : Option (Journal × σ)) :
    (initial settings session).Prepared := by
  have empty : (initial settings session).queue.toList = [] := by
    cases session <;> rfl
  rw [Prepared, empty]
  exact List.forall_mem_nil _

/-- Every run moves the phase of an identifier along the automaton. -/
theorem Disciplined.unfolds_run (h : c.Disciplined out) (ready : c.Prepared)
    (fits : φ.Fits c out id) (run : Run now c es c') :
    c'.Prepared ∧ c'.Unfolds (outstanding out es) id φ es := by
  induction run generalizing out φ with
  | refl => exact ⟨ready, φ, .nil, fits⟩
  | step first _ ih =>
    obtain ⟨φ', path, fits'⟩ := h.unfolds_step ready fits first
    obtain ⟨ready', φ'', path', fits''⟩ := ih (h.step first).2 (ready.step first) fits'
    refine ⟨ready', φ'', ?_, ?_⟩
    · rw [List.filter_append]
      exact path.append path'
    · rw [outstanding_append]
      exact fits''

/-- The trace of every run leads an identifier on to the phase at its end. -/
theorem Disciplined.unfolds_trace (h : c.Disciplined out) (ready : c.Prepared)
    (fits : φ.Fits c out id) (ops : List Call) :
    (c.after ops).Unfolds (outstanding out (c.trace ops)) id φ (c.trace ops) := by
  induction ops generalizing c out φ with
  | nil => exact ⟨φ, .nil, fits⟩
  | cons op ops ih =>
    have run := (run_call c op).2
    obtain ⟨ready', φ', path, fits'⟩ := h.unfolds_run ready fits run
    obtain ⟨φ'', path', fits''⟩ := ih (h.run run).2 ready' fits'
    refine ⟨φ'', ?_, ?_⟩
    · rw [Courier.trace, List.filter_append]
      exact path.append path'
    · rw [Courier.trace, outstanding_append]
      exact fits''

/-- The packets that a courier returns are those of its trace, and what happens under an identifier
is a path of the automaton. It ends with a packet in flight exactly if the packet is in flight under
the identifier in the end. What is sent of a message that enters the window, until another one does
so under its identifier, is the message without the mark of being sent before, then copies of it
that keep the mark once they have it, and then its release, if the quality of service asks for
one. -/
theorem follows_trace (settings : Settings) (session : Option (Journal × σ)) (ops : List Call)
    (id : UInt16) :
    let c := initial settings session
    packets (c.trace ops) = c.returned ops ∧
      (∃ φ, Follows id .untouched ((c.trace ops).filter (Event.concerns id)) φ ∧
        ∀ p, φ = .flying p ↔
          ∃ e ∈ (c.after ops).window.toList, e.packetId = id ∧ e.packet = p) ∧
      ∀ before p es rest, (c.trace ops).filter (Event.concerns id) =
          before ++ .entered p :: (es ++ rest) → entries es = [] →
        ∃ (m : Publish) (marks : List Bool) (n : Nat), p = .publish m ∧ m.packetId = id ∧ id ≠ 0 ∧
          m.dup = false ∧ packets es = marks.map (fun dup => .publish { m with dup }) ++
            List.replicate n (.pubrel { packetId := id }) ∧
          marks.Pairwise (fun dup dup' => dup = true → dup' = true) ∧
          (n ≠ 0 → m.qos = .exactlyOnce) := by
  intro c
  have h : c.Disciplined ∅ := disciplined_initial settings session
  have fits : Phase.Fits c ∅ id .untouched := contains_initial settings session id
  obtain ⟨φ, path, fits'⟩ := h.unfolds_trace (prepared_initial settings session) fits ops
  refine ⟨packets_trace c ops, ⟨φ, path, fun p => ?_⟩, ?_⟩
  · constructor
    · rintro rfl
      exact fits'.2
    · rintro ⟨e, mem, rfl, rfl⟩
      exact fits'.eq_flying (h.trace ops).2 mem
  · intro before p es rest split same
    rw [split] at path
    obtain ⟨_, -, path⟩ := path.of_append
    cases path with
    | cons shift path =>
      obtain ⟨_, path, -⟩ := path.of_append
      cases shift with
      | enter _ ne named _ unmarked =>
        obtain ⟨marks, n, sent, marked, release⟩ := path.packets_publish same
        exact ⟨_, marks, n, rfl, named, ne, unmarked, sent, (List.pairwise_cons.mp marked).2,
          release⟩

end MqttClient.Courier
