import MqttClient.Proofs.Delivery.Archive
import MqttClient.Proofs.Session.Order
import Mathlib.Tactic.Common

/-!
# Archives in order

What the operations of an archive do to the packets that it holds in the order of their places. Each
of them is done or the archive is given up with the packets as they are; only a release may have
been put beside its message before. If no call of its store fails, an archive is given up over a
packet that cannot be written and over nothing else.
-/

namespace MqttClient.Archive
variable {σ : Type} {V : StoreView σ} {start : Bytes} {v : Version} {a : Archive σ}

/-- Whether an archive holds packets at ascending places below `n`, and goes on from there. -/
def Ordered (V : StoreView σ) (start : Bytes) (v : Version) (ps : List (Nat × Packet)) (n : Nat)
    (a : Archive σ) : Prop :=
  ∃ recs, a.Holds V start v recs ∧ a.nextSeq = .ofNat n ∧ recs.Ranks v ps n

/-- Whether packets at ascending places below `n` are read from an archive, messages that are
released already left out. -/
def Shows (V : StoreView σ) (start : Bytes) (v : Version) (ps : List (Nat × Packet)) (n : Nat)
    (a : Archive σ) : Prop :=
  ∃ recs, a.Holds V start v recs ∧ recs.visible.Ranks v ps n

/-- Whether an archive holds packets at ascending places below `n`, and goes on from there without a
failure of its store. -/
def Ranks (V : StoreView σ) (start : Bytes) (v : Version) (ps : List (Nat × Packet)) (n : Nat)
    (a : Archive σ) : Prop :=
  ∃ recs, a.Holds V start v recs ∧ a.Sound V ∧ a.nextSeq = .ofNat n ∧ recs.Ranks v ps n

variable {ps before after : List (Nat × Packet)} {n k : Nat} {p p' : Packet} {kind : Record.Kind}
  {id : UInt16}

/-- An archive has its packets ranked if they are in order and no call of its store will fail. -/
lemma ranks_iff : a.Ranks V start v ps n ↔ a.Ordered V start v ps n ∧ a.Sound V :=
  ⟨fun ⟨recs, holds, sound, counted, ranks⟩ => ⟨⟨recs, holds, counted, ranks⟩, sound⟩,
    fun ⟨⟨recs, holds, counted, ranks⟩, sound⟩ => ⟨recs, holds, sound, counted, ranks⟩⟩

/-- An archive in order hides nothing. -/
lemma Ordered.shows (h : a.Ordered V start v ps n) : a.Shows V start v ps n := by
  obtain ⟨recs, holds, -, ranks⟩ := h
  exact ⟨recs, holds, ranks.visible_eq.symm ▸ ranks⟩

variable [RecordStore σ]

/-- A packet with a free identifier comes behind the others, unless the archive is given up. -/
lemma Ordered.save_new (law : V.Lawful) (takes : Journal.TakesAll V start)
    (h : a.Ordered V start v ps n) (active : a.isActive = true)
    (slot : Record.slot? p = some (kind, id)) (stable : p.IsStable v)
    (free : ∀ q ∈ ps, q.2.packetId? ≠ some id) :
    (a.Sound V → (a.save p).Sound V) ∧
      ((a.save p).isActive = true ∧ (a.save p).Ordered V start v (ps ++ [(n, p)]) (n + 1) ∨
        (a.save p).isActive = false ∧ ∃ n' ≤ n + 1, (a.save p).Ordered V start v ps n') := by
  obtain ⟨recs, holds, counted, ranks⟩ := h
  have absent : recs.place? kind id = none := ranks.place?_eq_none free
  have next : a.nextSeq + 1 = .ofNat (n + 1) := by rw [counted, UInt64.ofNat_add]; rfl
  obtain ⟨sound, ⟨seq, active', holds', place⟩ | ⟨inactive, holds', place, -⟩⟩ :=
    save_active law takes holds active slot stable
  · obtain ⟨found, -⟩ | ⟨-, rfl, counted'⟩ := place
    · rw [absent] at found
      cases found
    · obtain ⟨j, s, -, -, -, -, keeps⟩ := holds'.active active'
      rw [counted] at holds' keeps
      have fits := keeps.fits (Slots.set_self ..)
      exact ⟨sound, .inl ⟨active', _, holds', counted'.trans next, ranks.push fits free⟩⟩
  · obtain same | ⟨-, counted'⟩ := place
    · exact ⟨sound, .inr ⟨inactive, n, Nat.le_succ n, recs, holds', same.trans counted, ranks⟩⟩
    · exact ⟨sound, .inr ⟨inactive, n + 1, Nat.le_refl _, recs, holds', counted'.trans next,
        ranks.mono (Nat.le_succ n)⟩⟩

/-- A packet is left out, unless the store fails. -/
lemma Ordered.drop (law : V.Lawful) (takes : Journal.TakesAll V start)
    (h : a.Ordered V start v (before ++ (k, p) :: after) n) (active : a.isActive = true)
    (fits : Record.Fits v kind id p) :
    (a.Sound V → (a.drop p).Sound V) ∧
      ((a.drop p).isActive = true ∧ (a.drop p).Ordered V start v (before ++ after) n ∨
        (a.drop p).isActive = false ∧ ¬ a.Sound V ∧
          (a.drop p).Ordered V start v (before ++ (k, p) :: after) n) := by
  obtain ⟨recs, holds, counted, ranks⟩ := h
  obtain ⟨sound, same, ⟨active', holds'⟩ | ⟨inactive, holds', unsound⟩⟩ :=
    drop_active law takes holds active fits.slot
  · exact ⟨sound, .inl ⟨active', _, holds', same.trans counted, ranks.remove fits⟩⟩
  · exact ⟨sound, .inr ⟨inactive, unsound, _, holds', same.trans counted, ranks⟩⟩

/-- A release takes the place of its message. In between both are there and the release is read. -/
lemma Ordered.release (law : V.Lawful) (takes : Journal.TakesAll V start)
    (h : a.Ordered V start v (before ++ (k, p) :: after) n) (active : a.isActive = true)
    (fits : Record.Fits v .message id p) :
    let a' := (a.save (.pubrel { packetId := id })).drop p
    let replaced := before ++ (k, .pubrel { packetId := id }) :: after
    (a.Sound V → a'.Sound V) ∧
      (a'.isActive = true ∧ a'.Ordered V start v replaced n ∨
        a'.isActive = false ∧ (a'.Ordered V start v (before ++ (k, p) :: after) n ∨
          ¬ a.Sound V ∧ a'.Shows V start v replaced n)) := by
  obtain ⟨recs, holds, counted, ranks⟩ := h
  have fits' : Record.Fits v .release id (.pubrel { packetId := id }) :=
    ⟨rfl, Packet.isStable_pubrel v id, fits.ne_zero⟩
  have replaces := ranks.replace fits fits'
  obtain ⟨sound, same, ⟨active', holds'⟩ | ⟨inactive, holds'⟩⟩ := save_kept law takes holds active
    fits'.slot fits'.stable (ranks.place?_eq fits (.inr rfl))
  · obtain ⟨sound', same', ⟨active'', holds''⟩ | ⟨inactive, holds'', unsound⟩⟩ :=
      drop_active law takes holds' active' fits.slot
    · rw [Slots.set_comm (by nofun)] at replaces
      exact ⟨fun s => sound' (sound s), .inl ⟨active'', _, holds'',
        same'.trans (same.trans counted), replaces⟩⟩
    · refine ⟨fun s => sound' (sound s), .inr ⟨inactive, .inr ⟨fun s => unsound (sound s), _,
        holds'', ?_⟩⟩⟩
      rw [Slots.visible_set_release, ranks.visible_eq]
      exact replaces
  · rw [drop_of_not_active inactive]
    exact ⟨sound, .inr ⟨inactive, .inl ⟨recs, holds', same.trans counted, ranks⟩⟩⟩

/-- All packets are read, unless the store fails. -/
lemma Ordered.readAll (law : V.Lawful) (takes : Journal.TakesAll V start)
    (h : a.Ordered V start v ps n) (active : a.isActive = true) (room : n ≤ 2 ^ 64) :
    (a.Sound V → a.readAll.2.Sound V) ∧ a.readAll.2.Ordered V start v ps n ∧
      (a.readAll.2.isActive = true ∧ a.readAll.1 = ps.map Prod.snd ∨
        a.readAll.2.isActive = false ∧ ¬ a.Sound V) := by
  obtain ⟨recs, holds, counted, ranks⟩ := h
  obtain ⟨sound, same, holds', ⟨active', rs, listed, read⟩ | ⟨inactive, -, unsound⟩⟩ :=
    readAll_active law takes holds active
  · exact ⟨sound, ⟨recs, holds', same.trans counted, ranks⟩,
      .inl ⟨active', read.trans (Journal.replay_eq listed ranks room)⟩⟩
  · exact ⟨sound, ⟨recs, holds', same.trans counted, ranks⟩, .inr ⟨inactive, unsound⟩⟩

/-- A new packet is saved behind all others, or the archive is given up. -/
lemma Ranks.save_new (law : V.Lawful) (takes : Journal.TakesAll V start)
    (h : a.Ranks V start v ps n) (active : a.isActive = true)
    (slot : Record.slot? p = some (kind, id)) (stable : p.IsStable v)
    (free : ∀ q ∈ ps, q.2.packetId? ≠ some id) :
    ∃ ps' n', n' ≤ n + 1 ∧ (a.save p).Ranks V start v ps' n' ∧
      ((a.save p).isActive = true → ps' = ps ++ [(n, p)]) := by
  obtain ⟨ordered, sound⟩ := ranks_iff.mp h
  obtain ⟨sound', ⟨active', ordered'⟩ | ⟨inactive, n', le, ordered'⟩⟩ :=
    ordered.save_new law takes active slot stable free
  · exact ⟨_, _, Nat.le_refl _, ranks_iff.mpr ⟨ordered', sound' sound⟩, fun _ => rfl⟩
  · exact ⟨ps, n', le, ranks_iff.mpr ⟨ordered', sound' sound⟩,
      fun active' => absurd active' (by rw [inactive]; nofun)⟩

/-- A packet that is written again keeps its place. -/
lemma Ranks.save_again (law : V.Lawful) (takes : Journal.TakesAll V start)
    (h : a.Ranks V start v (before ++ (k, p) :: after) n) (active : a.isActive = true)
    (fits : Record.Fits v kind id p) (fits' : Record.Fits v kind id p') :
    ∃ ps', (a.save p').Ranks V start v ps' n ∧
      ((a.save p').isActive = true → ps' = before ++ (k, p') :: after) := by
  obtain ⟨recs, holds, sound, counted, ranks⟩ := h
  obtain ⟨sound', same, ⟨-, holds'⟩ | ⟨inactive, holds'⟩⟩ := save_kept law takes holds active
    fits'.slot fits'.stable (ranks.place?_eq fits (.inl rfl))
  · have ranks' := ranks.replace fits fits'
    rw [Slots.set_set] at ranks'
    exact ⟨_, ⟨_, holds', sound' sound, same.trans counted, ranks'⟩, fun _ => rfl⟩
  · exact ⟨_, ⟨recs, holds', sound' sound, same.trans counted, ranks⟩,
      fun active' => absurd active' (by rw [inactive]; nofun)⟩

/-- A packet that is dropped leaves the others in order. -/
lemma Ranks.drop (law : V.Lawful) (takes : Journal.TakesAll V start)
    (h : a.Ranks V start v (before ++ (k, p) :: after) n) (active : a.isActive = true)
    (fits : Record.Fits v kind id p) : (a.drop p).Ranks V start v (before ++ after) n := by
  obtain ⟨ordered, sound⟩ := ranks_iff.mp h
  obtain ⟨sound', ⟨-, ordered'⟩ | ⟨-, unsound, -⟩⟩ := ordered.drop law takes active fits
  · exact ranks_iff.mpr ⟨ordered', sound' sound⟩
  · exact absurd sound unsound

/-- A release takes the place of its message, or the archive is given up. -/
lemma Ranks.release (law : V.Lawful) (takes : Journal.TakesAll V start)
    (h : a.Ranks V start v (before ++ (k, p) :: after) n) (active : a.isActive = true)
    (fits : Record.Fits v .message id p) :
    ∃ ps', ((a.save (.pubrel { packetId := id })).drop p).Ranks V start v ps' n ∧
      (((a.save (.pubrel { packetId := id })).drop p).isActive = true →
        ps' = before ++ (k, .pubrel { packetId := id }) :: after) := by
  obtain ⟨ordered, sound⟩ := ranks_iff.mp h
  obtain ⟨sound', ⟨-, ordered'⟩ | ⟨inactive, ordered' | ⟨unsound, -⟩⟩⟩ :=
    ordered.release law takes active fits
  · exact ⟨_, ranks_iff.mpr ⟨ordered', sound' sound⟩, fun _ => rfl⟩
  · exact ⟨_, ranks_iff.mpr ⟨ordered', sound' sound⟩,
      fun active' => absurd active' (by rw [inactive]; nofun)⟩
  · exact absurd sound unsound

/-- Behind a clearing no packets are left, and places begin anew. -/
lemma Ranks.clear (law : V.Lawful) (takes : Journal.TakesAll V start)
    (h : a.Ranks V start v ps n) (active : a.isActive = true) : a.clear.Ranks V start v [] 0 := by
  obtain ⟨recs, holds, sound, counted, ranks⟩ := h
  obtain ⟨sound', ⟨-, holds', counted'⟩ | ⟨-, unsound, -⟩⟩ := clear_active law takes holds active
  · exact ⟨_, holds', sound' sound, counted', .empty 0⟩
  · exact absurd sound unsound

/-- All packets are read in the order of their places, and stay. -/
lemma Ranks.readAll (law : V.Lawful) (takes : Journal.TakesAll V start)
    (h : a.Ranks V start v ps n) (active : a.isActive = true) (room : n ≤ 2 ^ 64) :
    a.readAll.1 = ps.map Prod.snd ∧ a.readAll.2.isActive = true ∧
      a.readAll.2.Ranks V start v ps n := by
  obtain ⟨ordered, sound⟩ := ranks_iff.mp h
  obtain ⟨sound', ordered', ⟨active', read⟩ | ⟨-, unsound⟩⟩ :=
    ordered.readAll law takes active room
  · exact ⟨read, active', ranks_iff.mpr ⟨ordered', sound' sound⟩⟩
  · exact absurd sound unsound

end MqttClient.Archive
