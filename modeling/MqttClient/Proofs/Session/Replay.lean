import MqttClient.Proofs.Session.Journal
import Mathlib.Tactic.Common

/-!
# Reading records

Which packets are read from the records of a client: all but the messages under an identifier that
is released already. So no two packets that are read have one identifier.
-/

namespace MqttClient

namespace Slots
variable {v : Version} {recs : Slots} {kind : Record.Kind} {id : UInt16} {r : Record}

/-- The records whose packets are read: a message whose release has a record is hidden. -/
def visible (recs : Slots) : Slots := fun kind id =>
  if kind = .message ∧ (recs .release id).isSome then none else recs kind id

/-- A record is visible if it is in its slot and no release hides it. -/
lemma visible_eq_some_iff :
    recs.visible kind id = some r ↔
      recs kind id = some r ∧ (kind = .message → recs .release id = none) := by
  unfold visible
  rw [Option.ite_none_left_eq_some, not_and, Option.not_isSome_iff_eq_none, and_comm]

/-- Nothing is hidden where no message stands beside its release. -/
lemma visible_eq_self (alone : ∀ id, recs .release id = none ∨ recs .message id = none) :
    recs.visible = recs := by
  funext kind i
  unfold visible
  split
  · rename_i hidden
    obtain ⟨rfl, released⟩ := hidden
    obtain none | none := alone i
    · rw [none] at released
      cases released
    · exact none.symm
  · rfl

/-- A release that is put beside its message hides it. -/
lemma visible_set_release (recs : Slots) (id : UInt16) (r : Record) :
    (recs.set .release id (some r)).visible =
      (recs.visible.set .message id none).set .release id (some r) := by
  funext kind i
  unfold visible set
  by_cases same : i = id
  · cases kind <;> simp [same]
  · cases kind <;> simp [same]

end Slots

namespace Journal
variable {v : Version} {recs : Slots} {rs : List Record}

/-- Nothing is read of no records. -/
lemma replay_nil : replay [] = [] := by
  rw [replay, List.mergeSort_nil]
  rfl

/-- A single record is read. -/
lemma replay_singleton (r : Record) : replay [r] = [r.packet] := by
  obtain ⟨seq, p⟩ := r
  rw [replay, List.mergeSort_singleton]
  cases p <;> rfl

/-- A packet is read if it has a record, unless it is a message that is released. -/
lemma mem_replay {p : Packet} :
    p ∈ replay rs ↔ (∃ r ∈ rs, r.packet = p) ∧
      ∀ m, p = .publish m → ∀ r ∈ rs, ∀ a, r.packet = .pubrel a → a.packetId ≠ m.packetId := by
  unfold replay
  simp only [List.mem_filter, List.mem_map, List.mem_mergeSort]
  refine and_congr_right fun _ => ?_
  cases p with
  | publish m =>
    simp only [Bool.not_eq_true', List.contains_eq_mem, decide_eq_false_iff_not, List.mem_filterMap,
      List.mem_mergeSort]
    constructor
    · rintro shown _ ⟨⟩ r mem a released same
      exact shown ⟨r, mem, by rw [released]; exact congrArg some same⟩
    · rintro shown ⟨r, mem, released⟩
      split at released
      · rename_i a e
        exact shown m rfl r mem a e (Option.some_inj.mp released)
      · cases released
  | _ => simp

/-- A message whose release has a record is not read. -/
lemma not_mem_replay {r s : Record} {id : UInt16} (message : Record.Fits v .message id r.packet)
    (release : Record.Fits v .release id s.packet) (mem : s ∈ rs) : r.packet ∉ replay rs := by
  intro read
  obtain ⟨m, hm, -, -, hid⟩ | ⟨_, -, wrong, -⟩ := Record.slot?_eq_some_iff.mp message.slot
  · obtain ⟨_, -, -, wrong, -⟩ | ⟨a, ha, -, hid'⟩ := Record.slot?_eq_some_iff.mp release.slot
    · cases wrong
    · exact (mem_replay.mp read).2 m hm s mem a ha (hid'.trans hid.symm)
  · cases wrong

/-- No two packets that are read have one identifier. -/
lemma replay_apart (listed : recs.Lists rs)
    (fits : ∀ {kind id r}, recs kind id = some r → Record.Fits v kind id r.packet) :
    (replay rs).Pairwise fun p q => p.packetId? ≠ q.packetId? := by
  have nodup : (rs.mergeSort fun r s => r.seq ≤ s.seq).Nodup :=
    (List.mergeSort_perm rs _).nodup_iff.mpr listed.nodup
  have read {r : Record} (mem : r ∈ rs.mergeSort fun r s => r.seq ≤ s.seq)
      (shown : _ = true) : r.packet ∈ replay rs :=
    List.mem_filter.mpr ⟨List.mem_map_of_mem mem, shown⟩
  unfold replay
  rw [List.pairwise_filter, List.pairwise_map]
  -- two records under one identifier are a message and its release, and then the message is hidden
  refine nodup.imp_of_mem fun {r s} hr hs ne shown shown' same => ?_
  have readr := read hr shown
  have reads := read hs shown'
  rw [List.mem_mergeSort] at hr hs
  obtain ⟨kind, id, found⟩ := (listed.mem_iff r).mp hr
  obtain ⟨kind', id', found'⟩ := (listed.mem_iff s).mp hs
  rw [(fits found).packetId?, (fits found').packetId?] at same
  cases same
  cases kind with
  | message =>
    cases kind' with
    | message => exact ne (Option.some_inj.mp (found.symm.trans found'))
    | release => exact not_mem_replay (fits found) (fits found') hs readr
  | release =>
    cases kind' with
    | message => exact not_mem_replay (fits found') (fits found) hr reads
    | release => exact ne (Option.some_inj.mp (found.symm.trans found'))

/-- The packet of a record is read, unless it is a message whose release has a record. -/
lemma mem_replay_of_some (listed : recs.Lists rs)
    (fits : ∀ {kind id r}, recs kind id = some r → Record.Fits v kind id r.packet)
    {kind : Record.Kind} {id : UInt16} {r : Record} (found : recs kind id = some r)
    (visible : kind = .message → recs .release id = none) : r.packet ∈ replay rs := by
  refine mem_replay.mpr ⟨⟨r, (listed.mem_iff r).mpr ⟨kind, id, found⟩, rfl⟩, ?_⟩
  intro m hm s hs a ha same
  obtain ⟨kind', id', found'⟩ := (listed.mem_iff s).mp hs
  obtain ⟨_, e, -⟩ | ⟨_, e, rfl, rfl⟩ := Record.slot?_eq_some_iff.mp (fits found').slot
  · rw [ha] at e
    cases e
  · obtain ⟨_, e', -, rfl, rfl⟩ | ⟨_, e', -⟩ := Record.slot?_eq_some_iff.mp (fits found).slot
    · rw [ha] at e
      rw [hm] at e'
      cases e
      cases e'
      rw [same, visible rfl] at found'
      cases found'
    · rw [hm] at e'
      cases e'

/-- The packet of a record is read exactly if the record is not hidden. -/
lemma mem_replay_iff_visible (listed : recs.Lists rs)
    (fits : ∀ {kind id r}, recs kind id = some r → Record.Fits v kind id r.packet) {r : Record} :
    r ∈ rs ∧ r.packet ∈ replay rs ↔ ∃ kind id, recs.visible kind id = some r := by
  simp only [Slots.visible_eq_some_iff]
  constructor
  · rintro ⟨mem, read⟩
    obtain ⟨kind, id, found⟩ := (listed.mem_iff r).mp mem
    refine ⟨kind, id, found, ?_⟩
    rintro rfl
    cases released : recs .release id with
    | none => rfl
    | some s =>
      have hidden := not_mem_replay (fits found) (fits released)
        ((listed.mem_iff s).mpr ⟨_, _, released⟩)
      exact absurd read hidden
  · rintro ⟨kind, id, found, visible⟩
    exact ⟨(listed.mem_iff r).mpr ⟨kind, id, found⟩, mem_replay_of_some listed fits found visible⟩

end Journal
end MqttClient
