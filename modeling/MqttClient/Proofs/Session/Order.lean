import MqttClient.Proofs.Session.Replay
import Mathlib.Tactic.Common
import Mathlib.Data.List.Pairwise

/-!
# The order of records

The places of records keep the order in which packets were first sent. Whatever is done with the
packets, one by one, this order is the one in which they are read again.
-/

namespace MqttClient

namespace Slots
variable {v : Version} {recs : Slots} {kind kind' : Record.Kind} {id : UInt16}

/-- What a slot is set to last is what counts. -/
lemma set_set (recs : Slots) (kind : Record.Kind) (id : UInt16) (r r' : Option Record) :
    (recs.set kind id r).set kind id r' = recs.set kind id r' := by
  funext k i
  by_cases same : k = kind ∧ i = id
  · obtain ⟨rfl, rfl⟩ := same
    rw [set_self, set_self]
  · rw [set_of_ne same, set_of_ne same, set_of_ne same]

/-- Different slots are set in either order. -/
lemma set_comm {recs : Slots} {r r' : Option Record} (ne : kind ≠ kind') :
    (recs.set kind id r).set kind' id r' = (recs.set kind' id r').set kind id r := by
  funext k i
  by_cases same : k = kind ∧ i = id
  · obtain ⟨rfl, rfl⟩ := same
    rw [set_of_ne fun h => ne h.1, set_self, set_self]
  · rw [set_of_ne (r := r) same]
    by_cases same' : k = kind' ∧ i = id
    · obtain ⟨rfl, rfl⟩ := same'
      rw [set_self, set_self]
    · rw [set_of_ne same', set_of_ne same', set_of_ne same]

/-- A packet keeps the place of the record in its slot. -/
lemma place?_of_some {r : Record} (h : recs kind id = some r) :
    recs.place? kind id = some r.seq := by
  unfold place?
  rw [h]
  rfl

/-- A release without a record keeps the place of its message. -/
lemma place?_release (h : recs .release id = none) :
    recs.place? .release id = (recs .message id).map Record.seq := by
  unfold place?
  rw [h]
  rfl

/-- The record of a packet at a place. -/
def row (p : Nat × Packet) : Record :=
  ⟨.ofNat p.1, p.2⟩

/-- Whether packets at ascending places below `n` are those of all records. No two of them have one
identifier. -/
structure Ranks (v : Version) (recs : Slots) (ps : List (Nat × Packet)) (n : Nat) : Prop where
  sorted : ps.Pairwise fun p q => p.1 < q.1
  below : ∀ p ∈ ps, p.1 < n
  apart : ps.Pairwise fun p q => p.2.packetId? ≠ q.2.packetId?
  placed : ∀ p ∈ ps, ∃ kind id,
    Record.Fits v kind id p.2 ∧ recs kind id = some (row p)
  only : ∀ {kind id r}, recs kind id = some r → ∃ p ∈ ps, Record.Fits v kind id p.2 ∧ r = row p

namespace Ranks
variable {ps before after : List (Nat × Packet)} {n n' k : Nat} {p p' : Packet}

/-- Without packets there are no records. -/
lemma empty (n : Nat) : Ranks v Slots.empty [] n where
  sorted := .nil
  below := nofun
  apart := .nil
  placed := nofun
  only h := nomatch h

/-- Packets below a place are below a later one. -/
lemma mono (h : recs.Ranks v ps n) (le : n ≤ n') : recs.Ranks v ps n' :=
  ⟨h.sorted, fun p mem => Nat.lt_of_lt_of_le (h.below p mem) le, h.apart, h.placed, h.only⟩

/-- An identifier that no packet has leaves its slots empty. -/
lemma vacant (h : recs.Ranks v ps n) (free : ∀ p ∈ ps, p.2.packetId? ≠ some id)
    (kind : Record.Kind) : recs kind id = none := by
  cases e : recs kind id with
  | none => rfl
  | some r =>
    obtain ⟨p, mem, fits, -⟩ := h.only e
    exact absurd fits.packetId? (free p mem)

/-- A packet that is there fits the slot that it asks for. -/
lemma fits (h : recs.Ranks v ps n) (mem : (k, p) ∈ ps) (slot : Record.slot? p = some (kind, id)) :
    Record.Fits v kind id p := by
  obtain ⟨kind', id', fits, -⟩ := h.placed _ mem
  have slots := slot.symm.trans fits.slot
  cases slots
  exact fits

/-- The record of a packet is in the slot that it fits. -/
lemma slot (h : recs.Ranks v ps n) (mem : (k, p) ∈ ps) (fits : Record.Fits v kind id p) :
    recs kind id = some (row (k, p)) := by
  obtain ⟨kind', id', fits', e⟩ := h.placed _ mem
  have slots := fits.slot.symm.trans fits'.slot
  cases slots
  exact e

/-- No other packet has the identifier of a packet that is there. -/
lemma others (h : recs.Ranks v (before ++ (k, p) :: after) n) (hp : p.packetId? = some id) :
    ∀ q ∈ before ++ after, q.2.packetId? ≠ some id := by
  have apart := h.apart
  rw [List.pairwise_append, List.pairwise_cons] at apart
  obtain ⟨-, ⟨behind, -⟩, across⟩ := apart
  intro q mem same
  rw [List.mem_append] at mem
  obtain mem | mem := mem
  · exact across q mem (k, p) (by simp) (same.trans hp.symm)
  · exact behind q mem (hp.trans same.symm)

/-- A packet keeps its place when it is written again, and a release that of its message. -/
lemma place?_eq (h : recs.Ranks v (before ++ (k, p) :: after) n) (fits : Record.Fits v kind id p)
    (follows : kind' = kind ∨ kind' = .release) : recs.place? kind' id = some (.ofNat k) := by
  have found := h.slot (k := k) (by simp) fits
  obtain rfl | rfl := follows
  · exact place?_of_some found
  · cases kind with
    | release => exact place?_of_some found
    | message =>
      -- a release beside the message would be a packet with the same identifier
      have none : recs .release id = none := by
        cases e : recs .release id with
        | none => rfl
        | some r =>
          obtain ⟨q, mem, fits', -⟩ := h.only e
          rw [List.mem_append, List.mem_cons] at mem
          obtain mem | rfl | mem := mem
          · exact absurd fits'.packetId? (h.others fits.packetId? q (by simp [mem]))
          · have slots := fits.slot.symm.trans fits'.slot
            cases slots
          · exact absurd fits'.packetId? (h.others fits.packetId? q (by simp [mem]))
      rw [place?_release none, found]
      rfl

/-- An identifier that no packet has keeps no place. -/
lemma place?_eq_none (h : recs.Ranks v ps n) (free : ∀ p ∈ ps, p.2.packetId? ≠ some id) :
    recs.place? kind id = none := by
  unfold place?
  rw [h.vacant free kind, h.vacant free .message]
  cases kind <;> rfl

/-- A packet leaves with its record. -/
lemma remove (h : recs.Ranks v (before ++ (k, p) :: after) n) (fits : Record.Fits v kind id p) :
    (recs.set kind id none).Ranks v (before ++ after) n := by
  have sub : (before ++ after).Sublist (before ++ (k, p) :: after) :=
    (List.sublist_cons_self _ _).append_left before
  refine ⟨h.sorted.sublist sub, fun q mem => h.below q (sub.subset mem), h.apart.sublist sub,
    fun q mem => ?_, fun {kind' id' r} some => ?_⟩
  · obtain ⟨kind', id', fits', e⟩ := h.placed q (sub.subset mem)
    refine ⟨kind', id', fits', ?_⟩
    rw [set_of_ne, e]
    rintro ⟨rfl, rfl⟩
    exact h.others fits.packetId? q mem fits'.packetId?
  · obtain ⟨-, e⟩ | ⟨other, e⟩ := of_set_eq_some some
    · cases e
    · obtain ⟨q, mem, fits', rfl⟩ := h.only e
      refine ⟨q, ?_, fits', rfl⟩
      rw [List.mem_append, List.mem_cons] at mem
      obtain mem | rfl | mem := mem
      · exact List.mem_append_left _ mem
      · have slots := fits'.slot.symm.trans fits.slot
        cases slots
        exact absurd ⟨rfl, rfl⟩ other
      · exact List.mem_append_right _ mem

/-- A packet with a free identifier enters with its record. -/
lemma insert (h : recs.Ranks v (before ++ after) n) (fits : Record.Fits v kind id p)
    (free : ∀ q ∈ before ++ after, q.2.packetId? ≠ some id)
    (left : ∀ q ∈ before, q.1 < k) (right : ∀ q ∈ after, k < q.1) (lt : k < n') (le : n ≤ n') :
    (recs.set kind id (some (row (k, p)))).Ranks v (before ++ (k, p) :: after) n' := by
  have sorted := List.pairwise_append.mp h.sorted
  have apart := List.pairwise_append.mp h.apart
  refine ⟨?_, fun q mem => ?_, ?_, fun q mem => ?_, fun {kind' id' r} some => ?_⟩
  · rw [List.pairwise_append, List.pairwise_cons]
    refine ⟨sorted.1, ⟨right, sorted.2.1⟩, fun q mem q' mem' => ?_⟩
    rw [List.mem_cons] at mem'
    obtain rfl | mem' := mem'
    · exact left q mem
    · exact sorted.2.2 q mem q' mem'
  · rw [List.mem_append, List.mem_cons] at mem
    obtain mem | rfl | mem := mem
    · exact Nat.lt_of_lt_of_le (h.below q (List.mem_append_left _ mem)) le
    · exact lt
    · exact Nat.lt_of_lt_of_le (h.below q (List.mem_append_right _ mem)) le
  · rw [List.pairwise_append, List.pairwise_cons]
    refine ⟨apart.1, ⟨fun q mem => ?_, apart.2.1⟩, fun q mem q' mem' => ?_⟩
    · rw [fits.packetId?]
      exact (free q (List.mem_append_right _ mem)).symm
    · rw [List.mem_cons] at mem'
      obtain rfl | mem' := mem'
      · rw [fits.packetId?]
        exact free q (List.mem_append_left _ mem)
      · exact apart.2.2 q mem q' mem'
  -- the records that were there before stand in other slots
  · have old (mem : q ∈ before ++ after) : ∃ kind' id', Record.Fits v kind' id' q.2 ∧
        recs.set kind id (Option.some (row (k, p))) kind' id' = Option.some (row q) := by
      obtain ⟨kind', id', fits', e⟩ := h.placed q mem
      refine ⟨kind', id', fits', ?_⟩
      rw [set_of_ne, e]
      rintro ⟨rfl, rfl⟩
      exact free q mem fits'.packetId?
    rw [List.mem_append, List.mem_cons] at mem
    obtain mem | rfl | mem := mem
    · exact old (List.mem_append_left _ mem)
    · exact ⟨kind, id, fits, set_self ..⟩
    · exact old (List.mem_append_right _ mem)
  · obtain ⟨⟨rfl, rfl⟩, e⟩ | ⟨-, e⟩ := of_set_eq_some some
    · cases e
      exact ⟨(k, p), by simp, fits, rfl⟩
    · obtain ⟨q, mem, fits', rfl⟩ := h.only e
      refine ⟨q, ?_, fits', rfl⟩
      rw [List.mem_append] at mem
      rw [List.mem_append, List.mem_cons]
      exact mem.imp_right .inr

/-- A packet with a free identifier enters behind all others. -/
lemma push (h : recs.Ranks v ps n) (fits : Record.Fits v kind id p)
    (free : ∀ q ∈ ps, q.2.packetId? ≠ some id) :
    (recs.set kind id (some (row (n, p)))).Ranks v (ps ++ [(n, p)]) (n + 1) :=
  have h' : recs.Ranks v (ps ++ []) n := by rwa [List.append_nil]
  have free' : ∀ q ∈ ps ++ [], q.2.packetId? ≠ some id := by rwa [List.append_nil]
  h'.insert fits free' h.below nofun (Nat.lt_succ_self n) (Nat.le_succ n)

/-- A packet takes the place of another one with its identifier. -/
lemma replace (h : recs.Ranks v (before ++ (k, p) :: after) n) (fits : Record.Fits v kind id p)
    (fits' : Record.Fits v kind' id p') :
    ((recs.set kind id none).set kind' id (some (row (k, p')))).Ranks v
      (before ++ (k, p') :: after) n := by
  have sorted := h.sorted
  rw [List.pairwise_append, List.pairwise_cons] at sorted
  exact (h.remove fits).insert fits' (h.others fits.packetId?)
    (fun q mem => sorted.2.2 q mem (k, p) (by simp)) sorted.2.1.1 (h.below (k, p) (by simp))
    (Nat.le_refl n)

/-- The records are those of the packets. -/
lemma mem_map_row (h : recs.Ranks v ps n) (r : Record) :
    r ∈ ps.map row ↔ ∃ kind id, recs kind id = some r := by
  rw [List.mem_map]
  constructor
  · rintro ⟨p, mem, rfl⟩
    obtain ⟨kind, id, -, e⟩ := h.placed p mem
    exact ⟨kind, id, e⟩
  · rintro ⟨kind, id, e⟩
    obtain ⟨p, mem, -, rfl⟩ := h.only e
    exact ⟨p, mem, rfl⟩

/-- Unless places run over, the records ascend as their places do. -/
lemma map_row_sorted (h : recs.Ranks v ps n) (room : n ≤ 2 ^ 64) :
    (ps.map row).Pairwise fun r s => r.seq < s.seq := by
  have place : ∀ p ∈ ps, (row p).seq.toNat = p.1 := fun p mem =>
    UInt64.toNat_ofNat_of_lt' (Nat.lt_of_lt_of_le (h.below p mem) room)
  rw [List.pairwise_map]
  refine h.sorted.imp_of_mem fun hp hq lt => ?_
  rw [UInt64.lt_iff_toNat_lt, place _ hp, place _ hq]
  exact lt

end Ranks
end Slots

namespace Journal
variable {v : Version} {recs : Slots} {rs : List Record} {ps : List (Nat × Packet)} {n : Nat}

/-- Records are read in the order in which their packets were first sent, but for those that are
hidden. -/
theorem replay_eq_of_visible (listed : recs.Lists rs)
    (fits : ∀ {kind id r}, recs kind id = some r → Record.Fits v kind id r.packet)
    (ranks : recs.visible.Ranks v ps n) (room : n ≤ 2 ^ 64) : replay rs = ps.map Prod.snd := by
  have rows := ranks.map_row_sorted room
  have distinct : (ps.map Slots.row).Nodup :=
    rows.imp fun lt e => UInt64.ne_of_lt lt (congrArg Record.seq e)
  let sorted := rs.mergeSort fun r s => r.seq ≤ s.seq
  obtain ⟨shown, replayed⟩ : ∃ shown : Packet → Bool,
      replay rs = (sorted.map Record.packet).filter shown := ⟨_, rfl⟩
  have mem (r : Record) : r ∈ sorted.filter (shown ∘ Record.packet) ↔ r ∈ ps.map Slots.row := by
    rw [ranks.mem_map_row, ← mem_replay_iff_visible listed fits, replayed, List.mem_filter,
      List.mem_filter, List.mem_mergeSort]
    refine and_congr_right fun hr => ⟨fun shows => ⟨?_, shows⟩, fun read => read.2⟩
    exact List.mem_map_of_mem (List.mem_mergeSort.mpr hr)
  have nodup : (sorted.filter (shown ∘ Record.packet)).Nodup :=
    ((List.mergeSort_perm rs _).nodup_iff.mpr listed.nodup).filter _
  have ascending : sorted.Pairwise fun r s => decide (r.seq ≤ s.seq) = true :=
    List.pairwise_mergeSort (by simpa using fun _ _ _ => UInt64.le_trans)
      (by simpa using fun _ _ => UInt64.le_total _ _) rs
  -- sorted lists with the same members are the same, as no two places are equal
  have same : sorted.filter (shown ∘ Record.packet) = ps.map Slots.row := by
    have symm : Std.Symm fun r s : Record => r.seq ≠ s.seq := ⟨fun _ _ => Ne.symm⟩
    have places := (rows.imp UInt64.ne_of_lt).forall
    refine List.Perm.eq_of_pairwise (fun r s hr hs le ge => ?_) (ascending.filter _)
      (rows.imp fun lt => by simpa using UInt64.le_of_lt lt)
      ((List.perm_ext_iff_of_nodup nodup distinct).mpr mem)
    simp only [decide_eq_true_eq] at le ge
    by_contra other
    exact places ((mem r).mp hr) hs other (UInt64.le_antisymm le ge)
  rw [replayed, List.filter_map, same, List.map_map]
  rfl

end Journal

/-- Packets with different identifiers hide nothing. -/
lemma Slots.Ranks.visible_eq {v : Version} {recs : Slots} {ps : List (Nat × Packet)} {n : Nat}
    (h : recs.Ranks v ps n) : recs.visible = recs := by
  refine visible_eq_self fun id => or_iff_not_imp_left.mpr fun released => ?_
  obtain ⟨r, release⟩ := Option.ne_none_iff_exists'.mp released
  by_contra there
  obtain ⟨s, message⟩ := Option.ne_none_iff_exists'.mp there
  obtain ⟨p, hp, fits, -⟩ := h.only release
  obtain ⟨q, hq, fits', -⟩ := h.only message
  have symm : Std.Symm fun p q : Nat × Packet => p.2.packetId? ≠ q.2.packetId? :=
    ⟨fun _ _ => Ne.symm⟩
  refine h.apart.forall hp hq (fun same => ?_) (fits.packetId?.trans fits'.packetId?.symm)
  subst same
  have slots := fits.slot.symm.trans fits'.slot
  cases slots

/-- Records are read in the order in which their packets were first sent. -/
theorem Journal.replay_eq {v : Version} {recs : Slots} {rs : List Record}
    {ps : List (Nat × Packet)} {n : Nat} (listed : recs.Lists rs) (ranks : recs.Ranks v ps n)
    (room : n ≤ 2 ^ 64) : replay rs = ps.map Prod.snd := by
  refine replay_eq_of_visible listed (fun found => ?_) (ranks.visible_eq.symm ▸ ranks) room
  obtain ⟨p, -, fits, rfl⟩ := ranks.only found
  exact fits

end MqttClient
