import MqttClient.Proofs.Delivery.Durability
import Mathlib.Tactic.Common

/-!
# Generations

The couriers that share the store of a client, one after the other, are generations: each of them
begins on the store that the one before it left between two calls. Whatever the calls were, the
records of the client are those of the packets in flight, and the next generation goes on with them.
-/

namespace MqttClient
variable {σ : Type}

/-- Whether the records of the client of a journal are given ones, each of them under the key of its
packet. -/
structure Journal.Contains (V : StoreView σ) (j : Journal) (s : σ) (rs : List Record) : Prop where
  stored : ∀ r ∈ rs, ∃ key value, j.keyOf? r.packet = some key ∧ j.start <+: key ∧
    V.records s key = some value ∧ Record.decode? value j.version = some r
  apart : (rs.map fun r => j.keyOf? r.packet).Nodup
  only : ∀ key, j.start <+: key → V.records s key ≠ none →
    ∃ r ∈ rs, j.keyOf? r.packet = some key

/-- Ranked records are those of the client. -/
lemma Journal.Keeps.contains {V : StoreView σ} {j : Journal} {s : σ} {recs : Slots}
    {ps : List (Nat × Packet)} {n : Nat} (keeps : Keeps j.start j.version (V.records s) recs)
    (ranks : recs.Ranks j.version ps n) : j.Contains V s (ps.map Slots.row) where
  stored r mem := by
    obtain ⟨kind, id, found⟩ := (ranks.mem_map_row r).mp mem
    obtain ⟨value, present, decoded⟩ := keeps.present found
    exact ⟨j.key kind id, value, by rw [keyOf?, (keeps.fits found).slot]; rfl, prefix_keyAt ..,
      present, decoded⟩
  apart := by
    rw [List.map_map, List.Nodup, List.pairwise_map]
    refine ranks.apart.imp_of_mem fun {p q} hp hq ne same => ?_
    obtain ⟨kind, id, fits, -⟩ := ranks.placed p hp
    obtain ⟨kind', id', fits', -⟩ := ranks.placed q hq
    change j.keyOf? p.2 = j.keyOf? q.2 at same
    rw [keyOf?, keyOf?, fits.slot, fits'.slot] at same
    obtain ⟨-, rfl⟩ := keyAt_inj.mp (Option.some_inj.mp same)
    exact ne (fits.packetId?.trans fits'.packetId?.symm)
  only key front ne := by
    obtain ⟨kind, id, rfl⟩ := keeps.only front ne
    cases found : recs kind id with
    | none => exact absurd (keeps.absent found) ne
    | some r =>
      refine ⟨r, (ranks.mem_map_row r).mpr ⟨kind, id, found⟩, ?_⟩
      rw [keyOf?, (keeps.fits found).slot]
      rfl

namespace Courier
variable [RecordStore σ] {V : StoreView σ} {clientId : String} {v : Version} {s₀ s s' : σ}
  {j : Journal} {c : Courier σ} {ps : List (Nat × Packet)} {n : Nat}

/-- Whether a call drops everything. -/
def Call.cleans : Call → Bool
  | connected cleanSession _ => cleanSession
  | cleanAll => true
  | _ => false

/-- Whether the places of new records did not run over in a call. A call that drops everything
begins to count them anew. -/
def CountsOn (c : Courier σ) (op : Call) : Prop :=
  op.cleans = true ∨ c.archive.nextSeq ≤ (c.call op).2.archive.nextSeq

/-- The couriers of a client after any calls, on a store that was there before the first of them. -/
inductive Generation (clientId : String) (v : Version) (s₀ : σ) : Courier σ → Prop where
  /-- The first generation opens the journal on the store that is there. -/
  | first {settings : Settings} {j : Journal} {s : σ} : Journal.openFor clientId v s₀ = (.ok j, s) →
      Generation clientId v s₀ (withJournal settings j s)
  /-- A generation goes on with a call. -/
  | call {c : Courier σ} (op : Call) : Generation clientId v s₀ c → c.CountsOn op →
      Generation clientId v s₀ (c.call op).2
  /-- The next generation opens the journal on the store that is left. -/
  | next {c : Courier σ} {settings : Settings} {s s' : σ} {j : Journal} :
      Generation clientId v s₀ c → c.archive.store? = some s →
      Journal.openFor clientId v s = (.ok j, s') →
      Generation clientId v s₀ (withJournal settings j s')

/-- A call leads on with places that are below `2 ^ 64` again. -/
lemma Tracks.call {start : Bytes} (law : V.Lawful) (takes : Journal.TakesAll V start)
    (h : c.Tracks V start v ps n) (room : n < 2 ^ 64) {op : Call} (counts : c.CountsOn op) :
    ∃ ps' n', n' < 2 ^ 64 ∧ (c.call op).2.Tracks V start v ps' n' := by
  obtain clean | le := counts
  · have dropped : (c.call op).2 = c.cleanAll := by
      cases op with
      | connected cleanSession now =>
        obtain rfl : cleanSession = true := clean
        rfl
      | cleanAll => rfl
      | _ => cases clean
    obtain ⟨ps', n', le, h'⟩ := h.step law takes (.clean : Step .origin _ _ _)
    exact ⟨ps', n', Nat.lt_of_le_of_lt le room, dropped ▸ h'⟩
  · obtain ⟨small, run⟩ := steps_call c op
    obtain ⟨ps', n', grown, h'⟩ := h.steps law takes run
    refine ⟨ps', n', ?_, h'⟩
    obtain ⟨_, -, -, before, -⟩ := h.ranks
    obtain ⟨_, -, -, after, -⟩ := h'.ranks
    -- less than 65536 places were taken, so the count would have shown it if it had run over
    rw [before, after, UInt64.le_iff_toNat_le, UInt64.toNat_ofNat', UInt64.toNat_ofNat'] at le
    omega

/-- From an empty queue no message enters the window. -/
lemma fill_of_queue_eq_nil (now : Instant) (room : Nat) (c : Courier σ)
    (h : c.queue.toList = []) : c.fill now room = ([], c) := by
  cases room with
  | zero => rfl
  | succ room =>
    unfold fill
    split
    · rfl
    · rw [(Fifo.pop?_eq_none_iff _).mpr h]

/-- With an empty queue, recovering sends the packets in flight and no others. -/
lemma recover_of_queue_eq_nil (now : Instant) (h : c.queue.toList = []) :
    (c.recover now).1 = (c.restore now).window.toList.map Inflight.packet := by
  have queue : (c.restore now).queue.toList = [] := by rw [queue_restore, h]
  unfold Courier.recover drain
  simp only [Inflight.map_packet_stamp]
  rw [fill_of_queue_eq_nil, List.append_nil]
  exact queue

/-- A courier that begins sends the packets of the archive once more, and nothing else. -/
lemma Tracks.recover {start : Bytes} (law : V.Lawful) (takes : Journal.TakesAll V start)
    (h : c.Tracks V start v ps n) (active : c.archive.isActive = true) (fresh : c.restored = false)
    (now : Instant) : (c.recover now).1 = ps.map Prod.snd := by
  obtain ⟨active', tracks⟩ := tracks_restore law takes h active fresh now
  have mirrors := tracks.mirrors active' (restored_restore c now)
  rw [recover_of_queue_eq_nil now (h.idle active fresh).1.queue, mirrors.window]

/-- Only clients whose identifiers are short enough have couriers with journals. -/
lemma Generation.length_lt (h : Generation clientId v s₀ c) :
    (Bytes.ofText clientId).length < 65536 := by
  induction h with
  | first opened => exact Journal.length_lt_of_openFor opened
  | call _ _ _ ih => exact ih
  | next _ _ opened => exact Journal.length_lt_of_openFor opened

section
variable (law : V.Lawful) (takes : Journal.TakesAll V (Journal.startOf (Bytes.ofText clientId)))
include law takes

/-- A generation begins with the packets that are there. -/
lemma tracks_withJournal (settings : Settings) {recs : Slots} (live : V.live s) (sound : V.sound s)
    (keeps : Journal.Keeps (Journal.startOf (Bytes.ofText clientId)) v (V.records s) recs)
    (ranks : recs.Ranks v ps n) (room : n < 2 ^ 64)
    (opened : Journal.openFor clientId v s = (.ok j, s')) :
    ∃ n', n' < 2 ^ 64 ∧ (withJournal settings j s').Tracks V
      (Journal.startOf (Bytes.ofText clientId)) v ps n' := by
  obtain ⟨leads, ⟨start, version, rs, listed, next⟩, same⟩ :=
    (Journal.meets_openFor law takes live keeps).of_ok opened
  have room' : j.nextSeq.toNat < 2 ^ 64 := j.nextSeq.toNat_lt
  refine ⟨j.nextSeq.toNat, room', ⟨⟨recs, ⟨⟨start, version⟩, leads.live, same ▸ keeps⟩, ?_, ?_, ?_⟩,
    fun _ => nofun, fun _ _ => ⟨⟨rfl, rfl, fun _ => rfl⟩, room'⟩⟩⟩
  · intro s'' hs
    cases hs
    exact leads.sound sound
  · exact (UInt64.ofNat_toNat).symm
  · have place (p : Nat × Packet) (mem : p ∈ ps) : (Slots.row p).seq.toNat = p.1 :=
      UInt64.toNat_ofNat_of_lt' (Nat.lt_trans (ranks.below p mem) room)
    refine ⟨ranks.sorted, fun p mem => ?_, ranks.apart, ranks.placed, ranks.only⟩
    obtain ⟨kind, id, -, found⟩ := ranks.placed p mem
    -- the journal goes on behind the records that are there
    have lt := Journal.lt_seqAfter ((listed.mem_iff _).mpr ⟨kind, id, found⟩) fun r mem' => by
      obtain ⟨kind', id', found'⟩ := (listed.mem_iff r).mp mem'
      obtain ⟨q, memq, -, rfl⟩ := ranks.only found'
      have below := ranks.below q memq
      rw [place q memq]
      change q.1 + 1 < 2 ^ 64
      omega
    rwa [place p mem, ← next] at lt

/-- In every generation the archive holds the packets in flight. -/
lemma Generation.tracks (live : V.live s₀) (sound : V.sound s₀)
    (fresh : ∀ key, Journal.startOf (Bytes.ofText clientId) <+: key → V.records s₀ key = none)
    (h : Generation clientId v s₀ c) :
    ∃ ps n, n < 2 ^ 64 ∧ c.Tracks V (Journal.startOf (Bytes.ofText clientId)) v ps n := by
  induction h with
  | first opened =>
    obtain ⟨n, room, tracks⟩ :=
      tracks_withJournal law takes _ live sound (.of_none fresh) (.empty 0) (by decide) opened
    exact ⟨[], n, room, tracks⟩
  | call op _ counts ih =>
    obtain ⟨ps, n, room, tracks⟩ := ih
    exact tracks.call law takes room counts
  | next _ left opened ih =>
    obtain ⟨ps, n, room, ⟨recs, holds, sound, -, ranks⟩, -, -⟩ := ih
    obtain ⟨s, stored, live, keeps⟩ := holds.store
    rw [left] at stored
    cases stored
    obtain ⟨n', room', tracks⟩ :=
      tracks_withJournal law takes _ live (sound _ left) keeps ranks room opened
    exact ⟨ps, n', room', tracks⟩

/-- After any calls over any number of generations, the records of the client are those of the
packets in flight, at ascending places, and the next generation goes on with exactly these packets.
-/
theorem Generation.contains_window (live : V.live s₀) (sound : V.sound s₀)
    (fresh : ∀ key, Journal.startOf (Bytes.ofText clientId) <+: key → V.records s₀ key = none)
    (h : Generation clientId v s₀ c) (restored : c.restored = true)
    (kept : c.archive = .active j s) :
    j.start = Journal.startOf (Bytes.ofText clientId) ∧ j.version = v ∧
      (∃ rs, rs.map Record.packet = c.window.toList.map Inflight.packet ∧
        rs.Pairwise (fun r r' => r.seq < r'.seq) ∧ j.Contains V s rs) ∧
      ∃ j' s', Journal.openFor clientId v s = (.ok j', s') ∧ ∀ settings now,
        ((withJournal settings j' s').recover now).1 = c.window.toList.map Inflight.packet := by
  obtain ⟨ps, n, room, tracks⟩ := h.tracks law takes live sound fresh
  have mirrors := tracks.mirrors (by rw [kept]; rfl) restored
  obtain ⟨recs, holds, sound', -, ranks⟩ := tracks.ranks
  rw [kept] at holds sound'
  obtain ⟨⟨start, rfl⟩, live', keeps⟩ := holds
  refine ⟨start, rfl, ⟨ps.map Slots.row, ?_, ranks.map_row_sorted (Nat.le_of_lt room), ?_⟩, ?_⟩
  · rw [mirrors.window, List.map_map]
    rfl
  · rw [← start] at keeps
    exact keeps.contains ranks
  · obtain ⟨j', s', opened⟩ :=
      Journal.exists_openFor law takes live' (sound' s rfl) keeps h.length_lt
    refine ⟨j', s', opened, fun settings now => ?_⟩
    obtain ⟨n', -, tracks'⟩ := tracks_withJournal law takes settings live'
      (sound' s rfl) keeps ranks room opened
    rw [tracks'.recover law takes rfl rfl, mirrors.window]

end

/-- After a message was received on the other side, the next generation goes on with its release. -/
theorem Generation.contains_window_release :
    let m : Publish := { qos := .exactlyOnce, topic := "a", payload := [1] }
    let first := withJournal {} ⟨[0, 1, 97], .v311, 0⟩ Table.empty
    let c := ((first.call (.enqueue m .origin)).2.call (.acknowledge 1 .pubrec .origin)).2
    ∃ j s, c.archive = .active j s ∧
      (∃ rs, rs.map Record.packet = [.pubrel { packetId := 1 }] ∧
        rs.Pairwise (fun r r' => r.seq < r'.seq) ∧ j.Contains Table.view s rs) ∧
      ∃ j' s', Journal.openFor "a" .v311 s = (.ok j', s') ∧ ∀ settings now,
        ((withJournal settings j' s').recover now).1 = [.pubrel { packetId := 1 }] := by
  intro m first c
  have opened : Generation "a" .v311 Table.empty first := .first rfl
  have sent := opened.call (.enqueue m .origin) (.inr (by decide +kernel))
  have received := sent.call (.acknowledge 1 .pubrec .origin) (.inr (by decide +kernel))
  have window : c.window.toList.map Inflight.packet = [.pubrel { packetId := 1 }] := by
    decide +kernel
  obtain ⟨j, s, kept⟩ := Archive.eq_active (a := c.archive) (by decide +kernel)
  obtain ⟨-, -, contained, goesOn⟩ := Generation.contains_window (V := Table.view) Table.lawful
    ⟨trivial, fun _ _ => trivial⟩ trivial trivial (fun _ _ => rfl) received (by decide +kernel) kept
  rw [window] at contained goesOn
  exact ⟨j, s, kept, contained, goesOn⟩

end Courier
end MqttClient
