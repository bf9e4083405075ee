import MqttClient.Session.Journal
import MqttClient.Proofs.Session.Record
import MqttClient.Proofs.Store.Lawful
import Mathlib.Tactic.Common

/-!
# The slots of a client

The records of a client are looked at by slot, that is by kind and packet identifier. Every slot has
a key of its own, and what is done to the value under a key is done to the slot.
-/

namespace MqttClient

/-- The records of a client by kind and packet identifier. -/
abbrev Slots := Record.Kind → UInt16 → Option Record

namespace Slots

/-- No records. -/
def empty : Slots := fun _ _ => none

/-- The slots with another record, or none, in one of them. -/
def set (recs : Slots) (kind : Record.Kind) (id : UInt16) (r : Option Record) : Slots :=
  fun k i => if k = kind ∧ i = id then r else recs k i

/-- The place that a record keeps: that of the record in its slot or, for a release, that of its
message. -/
def place? (recs : Slots) (kind : Record.Kind) (id : UInt16) : Option UInt64 :=
  match (recs kind id).map Record.seq, kind with
  | none, .release => (recs .message id).map Record.seq
  | seq, _ => seq

/-- Whether a list names all records, each of them once. -/
structure Lists (recs : Slots) (rs : List Record) : Prop where
  nodup : rs.Nodup
  mem_iff : ∀ r, r ∈ rs ↔ ∃ kind id, recs kind id = some r

/-- A slot that is set holds what it is set to. -/
@[simp]
lemma set_self (recs : Slots) (kind : Record.Kind) (id : UInt16) (r : Option Record) :
    recs.set kind id r kind id = r :=
  if_pos ⟨rfl, rfl⟩

/-- Setting a slot leaves the other ones. -/
lemma set_of_ne {recs : Slots} {kind k : Record.Kind} {id i : UInt16} {r : Option Record}
    (h : ¬ (k = kind ∧ i = id)) : recs.set kind id r k i = recs k i :=
  if_neg h

/-- Setting a slot leaves those of the other kind. -/
lemma set_of_kind_ne {recs : Slots} {kind k : Record.Kind} {id i : UInt16} {r : Option Record}
    (h : k ≠ kind) : recs.set kind id r k i = recs k i :=
  if_neg fun same => h same.1

/-- Records are those that were there or the one that was set. -/
lemma of_set_eq_some {recs : Slots} {kind k : Record.Kind} {id i : UInt16} {r : Option Record}
    {r' : Record} (h : recs.set kind id r k i = some r') :
    (k = kind ∧ i = id) ∧ r = some r' ∨ ¬ (k = kind ∧ i = id) ∧ recs k i = some r' := by
  by_cases same : k = kind ∧ i = id
  · obtain ⟨rfl, rfl⟩ := same
    rw [set_self] at h
    exact .inl ⟨⟨rfl, rfl⟩, h⟩
  · rw [set_of_ne same] at h
    exact .inr ⟨same, h⟩

/-- Records are those that were there or of the packet that was set, if it was. -/
lemma of_set {recs recs' : Slots} {kind k : Record.Kind} {id i : UInt16} {p : Packet} {r : Record}
    (h : recs' = recs ∨ ∃ seq, recs' = recs.set kind id (some ⟨seq, p⟩))
    (found : recs' k i = some r) : recs k i = some r ∨ r.packet = p := by
  obtain rfl | ⟨seq, rfl⟩ := h
  · exact .inl found
  · obtain ⟨-, e⟩ | ⟨-, e⟩ := of_set_eq_some found
    · cases e
      exact .inr rfl
    · exact .inl e

end Slots

namespace Journal
variable {σ : Type}

/-- The key of a slot among the keys that begin with `start`. -/
def keyAt (start : Bytes) (kind : Record.Kind) (id : UInt16) : Bytes :=
  start ++ Bytes.bigEndian 2 id.toNat ++ [kind.mark]

/-- Different slots have different keys. -/
lemma keyAt_inj {start : Bytes} {kind kind' : Record.Kind} {id id' : UInt16} :
    keyAt start kind id = keyAt start kind' id' ↔ kind = kind' ∧ id = id' := by
  constructor
  · intro e
    have len (id : UInt16) : (start ++ Bytes.bigEndian 2 id.toNat).length = start.length + 2 := by
      rw [List.length_append, Bytes.length_bigEndian]
    obtain ⟨front, mark⟩ := List.append_inj e ((len id).trans (len id').symm)
    have number : id.toNat = id'.toNat :=
      Bytes.bigEndian_inj id.toNat_lt id'.toNat_lt (List.append_cancel_left front)
    refine ⟨?_, UInt16.toNat_inj.mp number⟩
    cases kind <;> cases kind' <;> first | rfl | exact absurd mark (by decide)
  · rintro ⟨rfl, rfl⟩
    rfl

/-- Every key of a client begins with `start`. -/
lemma prefix_keyAt (start : Bytes) (kind : Record.Kind) (id : UInt16) :
    start <+: keyAt start kind id :=
  ⟨Bytes.bigEndian 2 id.toNat ++ [kind.mark], (List.append_assoc ..).symm⟩

/-- What is read under the keys of a client. -/
def slotsOf (start : Bytes) (v : Version) (records : Bytes → Option Bytes) : Slots :=
  fun kind id => (records (keyAt start kind id)).bind (Record.decode? · v)

/-- Whether the slots are what the keys of a client hold: each slot that is taken has a value that
is read as its record, the others have none, and no key stands beside them. -/
structure Keeps (start : Bytes) (v : Version) (records : Bytes → Option Bytes) (recs : Slots) :
    Prop where
  absent : ∀ {kind id}, recs kind id = none → records (keyAt start kind id) = none
  present : ∀ {kind id r}, recs kind id = some r →
    ∃ value, records (keyAt start kind id) = some value ∧ Record.decode? value v = some r
  only : ∀ {k}, start <+: k → records k ≠ none → ∃ kind id, k = keyAt start kind id
  fits : ∀ {kind id r}, recs kind id = some r → Record.Fits v kind id r.packet

namespace Keeps
variable {start : Bytes} {v : Version} {records : Bytes → Option Bytes} {recs : Slots}

/-- Without keys of the client there are no records. -/
lemma of_none (h : ∀ k, start <+: k → records k = none) : Keeps start v records Slots.empty where
  absent _ := h _ (prefix_keyAt ..)
  present h := nomatch h
  only hk ne := absurd (h _ hk) ne
  fits h := nomatch h

/-- What is found under the key of a slot. -/
lemma found (h : Keeps start v records recs) (kind : Record.Kind) (id : UInt16) :
    (records (keyAt start kind id)).bind (Record.decode? · v) = recs kind id := by
  cases e : recs kind id with
  | none => rw [h.absent e, Option.bind_none]
  | some r =>
    obtain ⟨value, found, decoded⟩ := h.present e
    rw [found, Option.bind_some, decoded]

/-- The records that the keys hold are what is read under them. -/
lemma slotsOf_eq (h : Keeps start v records recs) : slotsOf start v records = recs := by
  funext kind id
  exact h.found kind id

/-- A slot is empty exactly if nothing is under its key. -/
lemma eq_none_iff (h : Keeps start v records recs) {kind : Record.Kind} {id : UInt16} :
    records (keyAt start kind id) = none ↔ recs kind id = none := by
  refine ⟨fun none => ?_, h.absent⟩
  rw [← h.found kind id, none, Option.bind_none]

/-- A value that is put under the key of a slot sets the slot to its record. -/
lemma put (h : Keeps start v records recs) {kind : Record.Kind} {id : UInt16} {value : Bytes}
    {r : Record} (decoded : Record.decode? value v = some r)
    (fits : Record.Fits v kind id r.packet) :
    Keeps start v (Function.update records (keyAt start kind id) (some value))
      (recs.set kind id (some r)) where
  absent {k i} none := by
    by_cases same : k = kind ∧ i = id
    · obtain ⟨rfl, rfl⟩ := same
      rw [Slots.set_self] at none
      cases none
    · rw [Slots.set_of_ne same] at none
      rw [Function.update_of_ne (mt keyAt_inj.mp same)]
      exact h.absent none
  present {k i r'} some := by
    obtain ⟨⟨rfl, rfl⟩, e⟩ | ⟨other, e⟩ := Slots.of_set_eq_some some
    · cases e
      exact ⟨value, Function.update_self .., decoded⟩
    · rw [Function.update_of_ne (mt keyAt_inj.mp other)]
      exact h.present e
  only {k} hk ne := by
    by_cases same : k = keyAt start kind id
    · exact ⟨kind, id, same⟩
    · rw [Function.update_of_ne same] at ne
      exact h.only hk ne
  fits {k i r'} some := by
    obtain ⟨⟨rfl, rfl⟩, e⟩ | ⟨-, e⟩ := Slots.of_set_eq_some some
    · cases e
      exact fits
    · exact h.fits e

/-- Removing the key of a slot empties the slot. -/
lemma remove (h : Keeps start v records recs) (kind : Record.Kind) (id : UInt16) :
    Keeps start v (Function.update records (keyAt start kind id) none) (recs.set kind id none) where
  absent {k i} none := by
    by_cases same : k = kind ∧ i = id
    · obtain ⟨rfl, rfl⟩ := same
      exact Function.update_self ..
    · rw [Slots.set_of_ne same] at none
      rw [Function.update_of_ne (mt keyAt_inj.mp same)]
      exact h.absent none
  present {k i r} some := by
    obtain ⟨-, e⟩ | ⟨other, e⟩ := Slots.of_set_eq_some some
    · cases e
    · rw [Function.update_of_ne (mt keyAt_inj.mp other)]
      exact h.present e
  only {k} hk ne := by
    by_cases same : k = keyAt start kind id
    · exact ⟨kind, id, same⟩
    · rw [Function.update_of_ne same] at ne
      exact h.only hk ne
  fits {k i r} some := by
    obtain ⟨-, e⟩ | ⟨-, e⟩ := Slots.of_set_eq_some some
    · cases e
    · exact h.fits e

/-- Where some of the values are gone, the slots of these are empty. -/
lemma thin {records' : Bytes → Option Bytes} (h : Keeps start v records recs)
    (less : ∀ k, records' k = none ∨ records' k = records k) :
    ∃ recs', Keeps start v records' recs' ∧
      ∀ kind id, recs' kind id = none ∨ recs' kind id = recs kind id := by
  have left : ∀ kind id, slotsOf start v records' kind id = none ∨
      slotsOf start v records' kind id = recs kind id := by
    intro kind id
    unfold slotsOf
    rcases less (keyAt start kind id) with gone | same
    · exact .inl (by rw [gone, Option.bind_none])
    · exact .inr (by rw [same, h.found])
  refine ⟨slotsOf start v records', ⟨?_, ?_, ?_, ?_⟩, left⟩
  · intro kind id none
    rcases less (keyAt start kind id) with gone | same
    · exact gone
    · unfold slotsOf at none
      rw [same, h.found] at none
      exact same.trans (h.absent none)
  · intro kind id r some
    exact Option.bind_eq_some_iff.mp some
  · intro k front ne
    rcases less k with gone | same
    · exact absurd gone ne
    · exact h.only front (same ▸ ne)
  · intro kind id r some
    rcases left kind id with gone | same
    · rw [some] at gone
      cases gone
    · exact h.fits (same.symm.trans some)

end Keeps

/-- Whether a store takes all keys of a client. -/
structure TakesAll (V : StoreView σ) (start : Bytes) : Prop where
  takes_start : V.takes start
  takes_key : ∀ kind id, V.takes (keyAt start kind id)

/-- Where a client has no keys but those of slots, all of its keys are taken. -/
lemma TakesAll.of_only {V : StoreView σ} {start : Bytes} {records : Bytes → Option Bytes}
    (takes : TakesAll V start)
    (only : ∀ {k}, start <+: k → records k ≠ none → ∃ kind id, k = keyAt start kind id) :
    ∀ k, start <+: k → records k ≠ none → V.takes k := by
  intro k front ne
  obtain ⟨kind, id, rfl⟩ := only front ne
  exact takes.takes_key kind id

/-- The larger one of two places is one of them, and neither is behind it. -/
instance lawfulOrderMaxUInt64 : Std.LawfulOrderMax UInt64 where
  max_eq_or m n := by
    rw [show max m n = if m ≤ n then n else m from rfl]
    split
    · exact .inr rfl
    · exact .inl rfl
  max_le_iff m n k := by
    rw [show max m n = if m ≤ n then n else m from rfl]
    split
    · rename_i le
      exact ⟨fun h => ⟨UInt64.le_trans le h, h⟩, And.right⟩
    · rename_i gt
      have le := UInt64.le_of_lt (UInt64.not_le.mp gt)
      exact ⟨fun h => ⟨h, UInt64.le_trans le h⟩, And.left⟩

/-- The place after all records comes after each of them, unless places run over. -/
lemma lt_seqAfter {rs : List Record} {r : Record} (mem : r ∈ rs)
    (room : ∀ r ∈ rs, r.seq.toNat + 1 < UInt64.size) : r.seq.toNat < (seqAfter rs).toNat := by
  have listed : r.seq ∈ rs.map Record.seq := List.mem_map_of_mem mem
  rw [seqAfter]
  cases largest : (rs.map Record.seq).max? with
  | none =>
    rw [List.max?_eq_none_iff.mp largest] at listed
    cases listed
  | some last =>
    obtain ⟨found, most⟩ := List.max?_eq_some_iff.mp largest
    obtain ⟨r', mem', rfl⟩ := List.mem_map.mp found
    have next : (r'.seq + 1).toNat = r'.seq.toNat + 1 := Nat.mod_eq_of_lt (room r' mem')
    rw [next]
    exact Nat.lt_succ_of_le (UInt64.le_iff_toNat_le.mp (most _ listed))

end Journal
end MqttClient
