import MqttClient.Proofs.Session.Clearing
import MqttClient.Proofs.Session.Order
import Mathlib.Data.List.AList
import Mathlib.Data.List.Sort

/-!
# Journals as registers

A journal does what a register of packets does that is kept in memory. The register holds the last
packet under each key together with the rank of its birth. A packet without a record is the last one
born, but for a release, which is born with its message; a packet that is written again keeps its
rank, and one that is removed loses it. Packets are read by rank, without the messages whose release
is there.

The sequence numbers of the records are no ranks, for a journal that is opened again starts behind
the records that it finds, and so numbers come back that were in use before. What is kept is the
order: sequence numbers ascend as ranks do, among the packets that are there.
-/

namespace MqttClient

/-- The last packet under each key with the rank of its birth. -/
structure Register where
  rows : AList fun _ : Record.Kind × UInt16 => Nat × Packet := ∅
  /-- The rank of the next packet that is born. -/
  next : Nat := 0

namespace Register

/-- The rank that a packet finds: that under its key or, for a release, that of its message. -/
def rank? (t : Register) (kind : Record.Kind) (id : UInt16) : Option Nat :=
  match (t.rows.lookup (kind, id)).map Prod.fst, kind with
  | none, .release => (t.rows.lookup (.message, id)).map Prod.fst
  | rank, _ => rank

/-- A packet that has a key gets the rank that it finds or the next one. -/
def write (t : Register) (p : Packet) : Register :=
  match Record.slot? p with
  | none => t
  | some (kind, id) =>
    match t.rank? kind id with
    | some rank => { t with rows := t.rows.insert (kind, id) (rank, p) }
    | none => ⟨t.rows.insert (kind, id) (t.next, p), t.next + 1⟩

/-- A packet that has a key leaves it. -/
def remove (t : Register) (p : Packet) : Register :=
  match Record.slot? p with
  | none => t
  | some key => { t with rows := t.rows.erase key }

/-- All packets leave their keys. Ranks go on. -/
def clear (t : Register) : Register :=
  { t with rows := ∅ }

/-- Whether the packet under a key is read: a message is not where its release is. -/
def shows (t : Register) (key : Record.Kind × UInt16) : Bool :=
  key.1 = .release ∨ (t.rows.lookup (.release, key.2)).isNone

/-- The rows that are read, by rank. -/
def shown (t : Register) : List ((_ : Record.Kind × UInt16) × (Nat × Packet)) :=
  (t.rows.entries.filter fun row => t.shows row.1).insertionSort fun a b => a.2.1 ≤ b.2.1

/-- The packets that are read. -/
def packets (t : Register) : List Packet :=
  t.shown.map fun row => row.2.2

/-- What is done with a journal. -/
inductive Deed where
  | write (p : Packet)
  | remove (p : Packet)
  | clear
  /-- The journal is given up, and opened again on its store. -/
  | reopen

/-- What a deed does to the register. -/
def perform (t : Register) : Deed → Register
  | .write p => t.write p
  | .remove p => t.remove p
  | .clear => t.clear
  | .reopen => t

/-- The register behind some deeds. -/
def after (deeds : List Deed) : Register :=
  deeds.foldl perform {}

variable {t : Register} {kind : Record.Kind} {id : UInt16} {rank : Nat} {p : Packet}

/-- The last deed comes after the others. -/
lemma after_concat (deeds : List Deed) (d : Deed) :
    after (deeds ++ [d]) = (after deeds).perform d := by
  rw [after, List.foldl_append]
  rfl

/-- A rank that is found is that of a packet with the same identifier. -/
lemma exists_of_rank? (h : t.rank? kind id = some rank) :
    ∃ kind' q, t.rows.lookup (kind', id) = some (rank, q) := by
  have of {k : Record.Kind} (h : (t.rows.lookup (k, id)).map Prod.fst = some rank) :
      ∃ kind' q, t.rows.lookup (kind', id) = some (rank, q) := by
    obtain ⟨⟨_, q⟩, found, rfl⟩ := Option.map_eq_some_iff.mp h
    exact ⟨k, q, found⟩
  unfold rank? at h
  split at h
  · exact of h
  · exact of h

/-- Exactly the packets under keys are read, but for messages that their releases hide. -/
lemma mem_shown {row : (_ : Record.Kind × UInt16) × (Nat × Packet)} :
    row ∈ t.shown ↔ t.rows.lookup row.1 = some row.2 ∧
      (row.1.1 = .message → t.rows.lookup (.release, row.1.2) = none) := by
  rw [shown, List.mem_insertionSort, List.mem_filter, ← AList.mem_lookup_iff, shows,
    decide_eq_true_iff, Option.isNone_iff_eq_none]
  refine and_congr_right fun _ => ?_
  cases row.1.1 <;> simp

/-- Rows are read in the order of their ranks. -/
lemma pairwise_shown (t : Register) : t.shown.Pairwise fun a b => a.2.1 ≤ b.2.1 := by
  let le (a b : (_ : Record.Kind × UInt16) × (Nat × Packet)) : Prop := a.2.1 ≤ b.2.1
  have : Std.Total le := ⟨fun _ _ => Nat.le_total _ _⟩
  have : IsTrans _ le := ⟨fun _ _ _ => Nat.le_trans⟩
  exact List.pairwise_insertionSort le _

/-- Different rows that are read have different identifiers. -/
lemma shown_apart (t : Register) : t.shown.Pairwise fun a b => a.1.2 ≠ b.1.2 := by
  have nodup : t.shown.Nodup :=
    (List.perm_insertionSort _ _).nodup_iff.mpr (t.rows.nodupKeys.nodup.filter _)
  refine nodup.imp_of_mem fun {a b} ha hb ne same => ne ?_
  obtain ⟨founda, alonea⟩ := mem_shown.mp ha
  obtain ⟨foundb, aloneb⟩ := mem_shown.mp hb
  obtain ⟨⟨kind, id⟩, x⟩ := a
  obtain ⟨⟨kind', _⟩, x'⟩ := b
  cases same
  cases kind with
  | message =>
    cases kind' with
    | message => exact congrArg (Sigma.mk _) (Option.some.inj (founda.symm.trans foundb))
    | release => cases (alonea rfl).symm.trans foundb
  | release =>
    cases kind' with
    | message => cases (aloneb rfl).symm.trans founda
    | release => exact congrArg (Sigma.mk _) (Option.some.inj (founda.symm.trans foundb))

end Register

/-- A register whose ranks stand for the places of records, by a map that keeps the order. -/
structure Register.Mirrors (t : Register) (place : Nat → Nat) (v : Version) (recs : Slots)
    (next : Nat) : Prop where
  found (kind id) : recs kind id =
    (t.rows.lookup (kind, id)).map fun x => ⟨.ofNat (place x.1), x.2.readBack v⟩
  born {key x} : t.rows.lookup key = some x → x.1 < t.next ∧ place x.1 < next
  ascends {key key' x x'} : t.rows.lookup key = some x → t.rows.lookup key' = some x' →
    x.1 < x'.1 → place x.1 < place x'.1
  /-- A rank is that of the packets under one identifier. -/
  paired {key key' x x'} : t.rows.lookup key = some x → t.rows.lookup key' = some x' →
    x.1 = x'.1 → key.2 = key'.2

namespace Register.Mirrors
variable {t : Register} {place place' : Nat → Nat} {v : Version} {recs : Slots} {next next' : Nat}
  {kind : Record.Kind} {id : UInt16} {rank : Nat} {p : Packet}

/-- A register without rows stands for no records. -/
lemma empty (place : Nat → Nat) (next n : Nat) :
    (⟨∅, n⟩ : Register).Mirrors place v .empty next where
  found _ _ := rfl
  born h := nomatch h
  ascends h := nomatch h
  paired h := nomatch h

/-- A packet has a place exactly if it has a rank. -/
lemma place?_eq (h : t.Mirrors place v recs next) (kind : Record.Kind) (id : UInt16) :
    recs.place? kind id = (t.rank? kind id).map fun rank => .ofNat (place rank) := by
  have seq (k : Record.Kind) : (recs k id).map Record.seq =
      ((t.rows.lookup (k, id)).map Prod.fst).map fun rank => .ofNat (place rank) := by
    rw [h.found, Option.map_map, Option.map_map]
    rfl
  unfold Slots.place? rank?
  rw [seq kind]
  cases (t.rows.lookup (kind, id)).map Prod.fst with
  | some rank => rfl
  | none =>
    cases kind with
    | message => rfl
    | release => exact seq .message

/-- A packet enters between those of lower and those of higher rank, and a rank that it shares is
that of packets with its identifier. -/
lemma enter (h : t.Mirrors place v recs next) (kind : Record.Kind) (id : UInt16) (p : Packet)
    {n : Nat} (more : t.next ≤ n) (room : next ≤ next') (low : rank < n)
    (below : place' rank < next')
    (others : ∀ {key x}, t.rows.lookup key = some x → place' x.1 = place x.1 ∧
      (x.1 < rank → place x.1 < place' rank) ∧ (rank < x.1 → place' rank < place x.1) ∧
      (x.1 = rank → key.2 = id)) :
    (⟨t.rows.insert (kind, id) (rank, p), n⟩ : Register).Mirrors place' v
      (recs.set kind id (some ⟨.ofNat (place' rank), p.readBack v⟩)) next' := by
  -- what is under a key is the new packet or was there before
  have either {key : Record.Kind × UInt16} {x : Nat × Packet}
      (found : (t.rows.insert (kind, id) (rank, p)).lookup key = some x) :
      key = (kind, id) ∧ x = (rank, p) ∨ t.rows.lookup key = some x := by
    by_cases same : key = (kind, id)
    · rw [same, AList.lookup_insert] at found
      exact .inl ⟨same, (Option.some.inj found).symm⟩
    · rw [AList.lookup_insert_ne same] at found
      exact .inr found
  refine ⟨fun k i => ?_, fun {key x} found => ?_, fun {key key' x x'} found found' lt => ?_,
    fun {key key' x x'} found found' same => ?_⟩
  · by_cases same : k = kind ∧ i = id
    · obtain ⟨rfl, rfl⟩ := same
      rw [Slots.set_self, AList.lookup_insert]
      rfl
    · have other : (k, i) ≠ (kind, id) := fun e => same ⟨congrArg Prod.fst e, congrArg Prod.snd e⟩
      rw [Slots.set_of_ne same, AList.lookup_insert_ne other, h.found]
      refine Option.map_congr fun x found => ?_
      rw [(others found).1]
  · obtain ⟨-, rfl⟩ | old := either found
    · exact ⟨low, below⟩
    · obtain ⟨early, lt⟩ := h.born old
      rw [(others old).1]
      exact ⟨Nat.lt_of_lt_of_le early more, Nat.lt_of_lt_of_le lt room⟩
  · obtain ⟨-, rfl⟩ | old := either found
    · obtain ⟨-, rfl⟩ | old' := either found'
      · exact absurd lt (Nat.lt_irrefl _)
      · rw [(others old').1]
        exact (others old').2.2.1 lt
    · obtain ⟨-, rfl⟩ | old' := either found'
      · rw [(others old).1]
        exact (others old).2.1 lt
      · rw [(others old).1, (others old').1]
        exact h.ascends old old' lt
  · obtain ⟨rfl, rfl⟩ | old := either found
    · obtain ⟨rfl, rfl⟩ | old' := either found'
      · rfl
      · exact ((others old').2.2.2 same.symm).symm
    · obtain ⟨rfl, rfl⟩ | old' := either found'
      · exact (others old).2.2.2 same
      · exact h.paired old old' same

/-- A packet takes the rank and the place that it finds. -/
lemma put (h : t.Mirrors place v recs next) (ranked : t.rank? kind id = some rank) (p : Packet) :
    (⟨t.rows.insert (kind, id) (rank, p), t.next⟩ : Register).Mirrors place v
      (recs.set kind id (some ⟨.ofNat (place rank), p.readBack v⟩)) next := by
  obtain ⟨kind', q, holder⟩ := exists_of_rank? ranked
  obtain ⟨low, below⟩ := h.born holder
  refine h.enter kind id p (Nat.le_refl _) (Nat.le_refl _) low below fun {key x} found => ?_
  exact ⟨rfl, h.ascends found holder, h.ascends holder found, h.paired found holder⟩

/-- A packet without a rank gets the next one, and the next place. -/
lemma push (h : t.Mirrors place v recs next) (kind : Record.Kind) (id : UInt16) (p : Packet) :
    (⟨t.rows.insert (kind, id) (t.next, p), t.next + 1⟩ : Register).Mirrors
      (Function.update place t.next next) v
      (recs.set kind id (some ⟨.ofNat next, p.readBack v⟩)) (next + 1) := by
  have new : Function.update place t.next next t.next = next := Function.update_self ..
  suffices enters : (⟨t.rows.insert (kind, id) (t.next, p), t.next + 1⟩ : Register).Mirrors
      (Function.update place t.next next) v
      (recs.set kind id (some ⟨.ofNat (Function.update place t.next next t.next), p.readBack v⟩))
      (next + 1) by rwa [new] at enters
  refine h.enter kind id p (Nat.le_succ _) (Nat.le_succ _) (Nat.lt_succ_self _)
    (by rw [new]; exact Nat.lt_succ_self _) fun {key x} found => ?_
  obtain ⟨early, lt⟩ := h.born found
  rw [new]
  refine ⟨Function.update_of_ne (Nat.ne_of_lt early) .., fun _ => lt, fun late => ?_,
    fun same => ?_⟩
  · exact absurd early (Nat.lt_asymm late)
  · exact absurd same (Nat.ne_of_lt early)

/-- A packet leaves its key and its slot. -/
lemma remove (h : t.Mirrors place v recs next) (kind : Record.Kind) (id : UInt16) :
    (⟨t.rows.erase (kind, id), t.next⟩ : Register).Mirrors place v
      (recs.set kind id none) next := by
  have old {key : Record.Kind × UInt16} {x : Nat × Packet}
      (found : (t.rows.erase (kind, id)).lookup key = some x) : t.rows.lookup key = some x := by
    by_cases same : key = (kind, id)
    · rw [same, AList.lookup_erase] at found
      cases found
    · rwa [AList.lookup_erase_ne same] at found
  refine ⟨fun k i => ?_, fun found => h.born (old found),
    fun found found' => h.ascends (old found) (old found'),
    fun found found' => h.paired (old found) (old found')⟩
  by_cases same : k = kind ∧ i = id
  · obtain ⟨rfl, rfl⟩ := same
    rw [Slots.set_self, AList.lookup_erase]
    rfl
  · have other : (k, i) ≠ (kind, id) := fun e => same ⟨congrArg Prod.fst e, congrArg Prod.snd e⟩
    rw [Slots.set_of_ne same, AList.lookup_erase_ne other, h.found]

/-- A record has the place of its rank, unless places run over. -/
lemma toNat_seq (h : t.Mirrors place v recs next) (room : next ≤ UInt64.size) {x : Nat × Packet}
    (found : t.rows.lookup (kind, id) = some x) :
    (UInt64.ofNat (place x.1)).toNat = place x.1 :=
  UInt64.toNat_ofNat_of_lt' (Nat.lt_of_lt_of_le (h.born found).2 room)

/-- All records come before the next place. -/
lemma lt_next (h : t.Mirrors place v recs next) (room : next ≤ UInt64.size) {r : Record}
    (record : recs kind id = some r) : r.seq.toNat < next := by
  rw [h.found] at record
  obtain ⟨x, found, rfl⟩ := Option.map_eq_some_iff.mp record
  rw [h.toNat_seq room found]
  exact (h.born found).2

/-- The next place may be any that comes after all records. -/
lemma restart (h : t.Mirrors place v recs next) (room : next ≤ UInt64.size)
    (behind : ∀ {kind id r}, recs kind id = some r → r.seq.toNat < next') :
    t.Mirrors place v recs next' := by
  refine ⟨h.found, fun {key x} found => ⟨(h.born found).1, ?_⟩, h.ascends, h.paired⟩
  rw [← h.toNat_seq room found]
  exact behind ((h.found key.1 key.2).trans (congrArg (Option.map _) found))

/-- What is read are the records in the order of their places. -/
lemma ranks (h : t.Mirrors place v recs next)
    (fits : ∀ {kind id r}, recs kind id = some r → Record.Fits v kind id r.packet) :
    recs.visible.Ranks v (t.shown.map fun row => (place row.2.1, row.2.2.readBack v)) next := by
  have stands {row : (_ : Record.Kind × UInt16) × (Nat × Packet)} (mem : row ∈ t.shown) :
      recs row.1.1 row.1.2 = some ⟨.ofNat (place row.2.1), row.2.2.readBack v⟩ :=
    (h.found _ _).trans (congrArg (Option.map _) (mem_shown.mp mem).1)
  refine ⟨?_, fun p mem => ?_, ?_, fun p mem => ?_, fun {kind id r} found => ?_⟩
  · -- rows of one rank have one identifier, and no two of those are read
    rw [List.pairwise_map]
    refine (t.pairwise_shown.and t.shown_apart).imp_of_mem fun {a b} ha hb h' => ?_
    have founda := (mem_shown.mp ha).1
    have foundb := (mem_shown.mp hb).1
    refine h.ascends founda foundb (Nat.lt_of_le_of_ne h'.1 fun same => ?_)
    exact h'.2 (h.paired founda foundb same)
  · obtain ⟨row, hrow, rfl⟩ := List.mem_map.mp mem
    exact (h.born (mem_shown.mp hrow).1).2
  · rw [List.pairwise_map]
    refine t.shown_apart.imp_of_mem fun {a b} ha hb ne same => ne ?_
    rw [(fits (stands ha)).packetId?, (fits (stands hb)).packetId?] at same
    exact Option.some.inj same
  · obtain ⟨row, hrow, rfl⟩ := List.mem_map.mp mem
    have seen := Slots.visible_eq_some_iff.mpr ⟨stands hrow, fun message => ?_⟩
    · exact ⟨_, _, fits (stands hrow), seen⟩
    rw [h.found, (mem_shown.mp hrow).2 message]
    rfl
  · obtain ⟨record, alone⟩ := Slots.visible_eq_some_iff.mp found
    have fits' := fits record
    rw [h.found] at record
    obtain ⟨x, there, rfl⟩ := Option.map_eq_some_iff.mp record
    have mem : ⟨(kind, id), x⟩ ∈ t.shown := mem_shown.mpr ⟨there, fun message =>
      Option.map_eq_none_iff.mp ((h.found _ _).symm.trans (alone message))⟩
    exact ⟨_, List.mem_map_of_mem mem, fits', rfl⟩

/-- The packets of the register are what is read of the records. -/
lemma replay_eq (h : t.Mirrors place v recs next) {rs : List Record} (listed : recs.Lists rs)
    (fits : ∀ {kind id r}, recs kind id = some r → Record.Fits v kind id r.packet)
    (room : next ≤ UInt64.size) : Journal.replay rs = t.packets.map (Packet.readBack v) := by
  rw [Journal.replay_eq_of_visible listed fits (h.ranks fits) room, packets, List.map_map,
    List.map_map]
  rfl

end Register.Mirrors

/-- What a client does with its journal, call by call, where all calls succeed and the counter of
places does not run over. -/
inductive Register.History {σ : Type} [RecordStore σ] (clientId : String) (v : Version) (s₀ : σ) :
    List Deed → Journal × σ → Prop where
  | opened {j s} :
    Journal.openFor clientId v s₀ = (.ok j, s) →
    History clientId v s₀ [] (j, s)
  | write {deeds js p stored js'} :
    History clientId v s₀ deeds js →
    (∀ a, p = .pubrel a → p.Admitted v) →
    Journal.write p js = (.ok stored, js') →
    js.1.nextSeq ≤ js'.1.nextSeq →
    History clientId v s₀ (deeds ++ [.write p]) js'
  | remove {deeds js p js'} :
    History clientId v s₀ deeds js →
    Journal.remove p js = (.ok (), js') →
    History clientId v s₀ (deeds ++ [.remove p]) js'
  | clear {deeds js js'} :
    History clientId v s₀ deeds js →
    Journal.clear js = (.ok (), js') →
    History clientId v s₀ (deeds ++ [.clear]) js'
  | reopen {deeds js j s} :
    History clientId v s₀ deeds js →
    Journal.openFor clientId v js.2 = (.ok j, s) →
    History clientId v s₀ (deeds ++ [.reopen]) (j, s)

namespace Journal

/-- A counter that does not run over grows. -/
lemma toNat_add_one {n : UInt64} (room : n ≤ n + 1) : (n + 1).toNat = n.toNat + 1 := by
  have one : (1 : UInt64).toNat = 1 := rfl
  rw [UInt64.le_iff_toNat_le] at room
  rw [UInt64.toNat_add, one] at room ⊢
  omega

variable {σ : Type}

/-- Whether a register is what a journal holds. -/
structure Reflects (V : StoreView σ) (clientId : String) (v : Version) (t : Register)
    (js : Journal × σ) : Prop where
  live : V.live js.2
  sound : V.sound js.2
  start : js.1.start = startOf (Bytes.ofText clientId)
  version : js.1.version = v
  mirrors : ∃ place recs, Keeps js.1.start v (V.records js.2) recs ∧
    t.Mirrors place v recs js.1.nextSeq.toNat

section Lawful
variable [RecordStore σ] {V : StoreView σ} {clientId : String} {v : Version} {t : Register}
  {js js' : Journal × σ} {j : Journal} {s₀ s : σ} {p : Packet} (law : V.Lawful)
  (takes : TakesAll V (startOf (Bytes.ofText clientId)))
include law takes

/-- A packet that is written to the journal is written to the register. -/
lemma Reflects.write {stored : Bool} (h : Reflects V clientId v t js)
    (admitted : ∀ a, p = .pubrel a → p.Admitted v)
    (written : Journal.write p js = (.ok stored, js')) (room : js.1.nextSeq ≤ js'.1.nextSeq) :
    Reflects V clientId v (t.write p) js' := by
  obtain ⟨live, sound, start, rfl, place, recs, keeps, mirrors⟩ := h
  obtain ⟨j, s⟩ := js
  obtain ⟨j', s'⟩ := js'
  rw [Register.write]
  cases slot : Record.slot? p with
  | none =>
    have idle : Journal.write p (j, s) = (.ok false, j, s) := by
      unfold Journal.write
      rw [slot]
      rfl
    cases idle.symm.trans written
    exact ⟨live, sound, start, rfl, place, recs, keeps, mirrors⟩
  | some key =>
    obtain ⟨kind, id⟩ := key
    have good : p.Admitted j.version := by
      obtain ⟨m, rfl, -⟩ | ⟨a, rfl, -⟩ := Record.slot?_eq_some_iff.mp slot
      · trivial
      · exact admitted a rfl
    have put := meets_write_readBack law (start ▸ takes) live keeps slot good
    obtain ⟨leads, seq, keeps', found⟩ := put.of_ok written
    rw [mirrors.place?_eq] at found
    -- the packet keeps a place that was found, or gets the next one and a new rank with it
    obtain ⟨held, stays⟩ | ⟨vacant, rfl, next⟩ := found
    · obtain ⟨rank, ranked, rfl⟩ := Option.map_eq_some_iff.mp held
      obtain rfl : j' = j := stays
      simp only [ranked]
      exact ⟨leads.live, leads.sound sound, start, rfl, place, _, keeps', mirrors.put ranked p⟩
    · obtain rfl : j' = { j with nextSeq := j.nextSeq + 1 } := next
      simp only [Option.map_eq_none_iff.mp vacant]
      have push := mirrors.push kind id p
      rw [UInt64.ofNat_toNat, ← toNat_add_one room] at push
      exact ⟨leads.live, leads.sound sound, start, rfl, _, _, keeps', push⟩

/-- A packet that is removed from the journal is removed from the register. -/
lemma Reflects.remove (h : Reflects V clientId v t js)
    (removed : Journal.remove p js = (.ok (), js')) :
    Reflects V clientId v (t.remove p) js' := by
  obtain ⟨live, sound, start, rfl, place, recs, keeps, mirrors⟩ := h
  obtain ⟨j, s⟩ := js
  obtain ⟨j', s'⟩ := js'
  rw [Register.remove]
  cases slot : Record.slot? p with
  | none =>
    have idle : Journal.remove p (j, s) = (.ok (), j, s) := by
      have key : j.keyOf? p = none := by rw [keyOf?, slot, Option.map_none]
      refine (StoreM.bind_of_ok (rfl : self (j, s) = (.ok j, j, s))).trans ?_
      rw [key]
      rfl
    cases idle.symm.trans removed
    exact ⟨live, sound, start, rfl, place, recs, keeps, mirrors⟩
  | some key =>
    obtain ⟨kind, id⟩ := key
    obtain ⟨leads, stays, keeps'⟩ :=
      (meets_remove law (start ▸ takes) live keeps slot).of_ok removed
    obtain rfl : j' = j := stays
    exact ⟨leads.live, leads.sound sound, start, rfl, place, _, keeps', mirrors.remove kind id⟩

/-- A journal that is cleared is an empty register. -/
lemma Reflects.clear (h : Reflects V clientId v t js)
    (cleared : Journal.clear js = (.ok (), js')) : Reflects V clientId v t.clear js' := by
  obtain ⟨live, sound, start, rfl, place, recs, keeps, -⟩ := h
  obtain ⟨j, s⟩ := js
  obtain ⟨j', s'⟩ := js'
  obtain ⟨leads, next, keeps'⟩ := (meets_clear law (start ▸ takes) live keeps).of_ok cleared
  obtain rfl : j' = { j with nextSeq := 0 } := next
  exact ⟨leads.live, leads.sound sound, start, rfl, place, _, keeps', .empty ..⟩

/-- A journal that is opened again starts behind the records that it finds. -/
lemma Reflects.reopen (h : Reflects V clientId v t js)
    (opened : openFor clientId v js.2 = (.ok j, s)) : Reflects V clientId v t (j, s) := by
  obtain ⟨live, sound, start, -, place, recs, keeps, mirrors⟩ := h
  rw [start] at keeps
  obtain ⟨leads, ⟨start', version', rs, listed, next⟩, same⟩ :=
    (meets_openFor law takes live keeps).of_ok opened
  refine ⟨leads.live, leads.sound sound, start', version', place, recs, ?_, ?_⟩
  · rwa [start', same]
  · have room := js.1.nextSeq.toNat_lt
    refine mirrors.restart (Nat.le_of_lt room) fun {kind id r} record => ?_
    rw [next]
    refine lt_seqAfter ((listed.mem_iff r).mpr ⟨kind, id, record⟩) fun r' mem => ?_
    obtain ⟨kind', id', record'⟩ := (listed.mem_iff r').mp mem
    exact Nat.lt_of_le_of_lt (mirrors.lt_next (Nat.le_of_lt room) record') room

/-- A journal that is opened on a store without keys of the client is an empty register. -/
lemma Reflects.opened (live : V.live s₀) (sound : V.sound s₀)
    (blank : V.IsClear (startOf (Bytes.ofText clientId)) s₀)
    (opened : openFor clientId v s₀ = (.ok j, s)) : Reflects V clientId v {} (j, s) := by
  have keeps : Keeps _ v (V.records s₀) Slots.empty := .of_none blank
  obtain ⟨leads, ⟨start, version, -⟩, same⟩ := (meets_openFor law takes live keeps).of_ok opened
  refine ⟨leads.live, leads.sound sound, start, version, id, _, ?_, .empty ..⟩
  rwa [start, same]

variable (live : V.live s₀) (sound : V.sound s₀)
  (blank : V.IsClear (startOf (Bytes.ofText clientId)) s₀) {deeds : List Register.Deed}
include live sound blank

/-- Whatever a client does with its journal, the register does the same. -/
lemma reflects_of_history (h : Register.History clientId v s₀ deeds js) :
    Reflects V clientId v (Register.after deeds) js := by
  induction h with
  | opened opened => exact .opened law takes live sound blank opened
  | write _ admitted written room ih =>
    rw [Register.after_concat]
    exact ih.write law takes admitted written room
  | remove _ removed ih =>
    rw [Register.after_concat]
    exact ih.remove law takes removed
  | clear _ cleared ih =>
    rw [Register.after_concat]
    exact ih.clear law takes cleared
  | reopen _ opened ih =>
    rw [Register.after_concat]
    exact ih.reopen law takes opened

/-- A journal is read as the register of what was done with it, over every store that does not fail
and has no records of the client to begin with. The packets are those that were written, as they are
read again. -/
theorem readAll_of_history (h : Register.History clientId v s₀ deeds js) :
    ∃ s', readAll js =
      (.ok ((Register.after deeds).packets.map (Packet.readBack v)), js.1, s') := by
  obtain ⟨live, sound, start, rfl, place, recs, keeps, mirrors⟩ :=
    reflects_of_history law takes live sound blank h
  obtain ⟨j, s⟩ := js
  obtain ⟨ps, ⟨j', s'⟩, read, -, stays, ⟨rs, listed, rfl⟩, -⟩ :=
    (meets_readAll law (start ▸ takes) live keeps).answers fun e js fails =>
      fails.2.unsound sound
  obtain rfl : j' = j := stays
  refine ⟨s', ?_⟩
  rw [read, mirrors.replay_eq listed keeps.fits (Nat.le_of_lt j'.nextSeq.toNat_lt)]

end Lawful

/-- The counter goes down when the journal is opened again without the second message, so that the
third one gets the number of the second one. The release comes first, for its message did. -/
theorem readAll_of_history_reused :
    let message (id : UInt16) : Packet :=
      .publish { qos := .exactlyOnce, topic := "a", packetId := id }
    let release : Packet := .pubrel { packetId := 1 }
    let deeds : List Register.Deed := [.write (message 1), .write (message 2), .write release,
      .remove (message 2), .reopen, .write (message 3)]
    (Register.after deeds).packets = [release, message 3] ∧
      ∃ js s', Register.History "a" .v5 Table.empty deeds js ∧ js.1.nextSeq = 2 ∧
        readAll js = (.ok [release, message 3], js.1, s') := by
  intro message release deeds
  have listed : (Register.after deeds).packets = [release, message 3] := by decide +kernel
  have plain (id : UInt16) : ∀ a, message id = .pubrel a → (message id).Admitted .v5 :=
    fun _ _ => trivial
  have defined : ∀ a, release = .pubrel a → release.Admitted .v5 := fun _ _ _ => rfl
  have answered {α β : Type} {x : Except StoreError α × β} {a : α} (h : x.1 = .ok a) :
      x = (.ok a, x.2) := Prod.ext h rfl
  let w₁ := write (message 1) (⟨[0, 1, 97], .v5, 0⟩, Table.empty)
  let w₂ := write (message 2) w₁.2
  let w₃ := write release w₂.2
  let r := remove (message 2) w₃.2
  let o := openFor "a" .v5 r.2.2
  let w₄ := write (message 3) (⟨[0, 1, 97], .v5, 1⟩, o.2)
  have first : Register.History "a" .v5 Table.empty _ w₁.2 :=
    .write (.opened rfl) (plain 1) (answered (by decide +kernel : w₁.1 = .ok true))
      (by decide +kernel)
  have second : Register.History "a" .v5 Table.empty _ w₂.2 :=
    .write first (plain 2) (answered (by decide +kernel : w₂.1 = .ok true)) (by decide +kernel)
  have released : Register.History "a" .v5 Table.empty _ w₃.2 :=
    .write second defined (answered (by decide +kernel : w₃.1 = .ok true)) (by decide +kernel)
  have removed : Register.History "a" .v5 Table.empty _ r.2 :=
    .remove released (answered (by decide +kernel : r.1 = .ok ()))
  have reopened : Register.History "a" .v5 Table.empty _ (⟨[0, 1, 97], .v5, 1⟩, o.2) :=
    .reopen removed (answered (by decide +kernel : o.1 = .ok ⟨[0, 1, 97], .v5, 1⟩))
  have third : Register.History "a" .v5 Table.empty deeds w₄.2 :=
    .write reopened (plain 3) (answered (by decide +kernel : w₄.1 = .ok true)) (by decide +kernel)
  obtain ⟨s', read⟩ := readAll_of_history Table.lawful ⟨trivial, fun _ _ => trivial⟩ trivial trivial
    (fun _ _ => rfl) third
  rw [listed] at read
  exact ⟨listed, _, s', third, by decide +kernel, read⟩

end Journal
end MqttClient
