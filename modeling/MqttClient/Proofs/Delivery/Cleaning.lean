import MqttClient.Proofs.Delivery.Detached
import MqttClient.Proofs.Delivery.Interruption
import MqttClient.Proofs.Session.Ownership
import Mathlib.Tactic.Common

/-!
# Clean sessions

A clean session drops everything that waits or is in flight. What the store holds of the client is
dropped as long as the archive is not given up. After that it stays, even if the store works again,
and later couriers take it up.
-/

namespace MqttClient
variable {σ : Type}

namespace Archive
variable {start : Bytes} {v : Version} {a : Archive σ}

/-- Whether the archive is that of a client in a version, given up or not. -/
def IsOf (start : Bytes) (v : Version) : Archive σ → Prop
  | absent => False
  | active j _ | abandoned j _ => j.start = start ∧ j.version = v

/-- Whatever is asked of an archive and however it is answered, it stays that of its client. -/
lemma IsOf.attempt {α : Type} {act : JournalM σ α} (h : a.IsOf start v)
    (stays : Journal.Stays act) : (a.attempt act).2.IsOf start v := by
  cases a with
  | active j s =>
    obtain ⟨rfl, rfl⟩ := h
    have same := stays j s
    rcases answer : act (j, s) with ⟨e | x, j', s'⟩
    all_goals
      rw [Archive.attempt, answer]
      rw [answer] at same
      exact same
  | absent | abandoned => exact h

variable [RecordStore σ]

/-- An archive that saves stays that of its client. -/
lemma IsOf.save (h : a.IsOf start v) (p : Packet) : (a.save p).IsOf start v :=
  h.attempt (Journal.stays_write p)

/-- An archive that drops stays that of its client. -/
lemma IsOf.drop (h : a.IsOf start v) (p : Packet) : (a.drop p).IsOf start v :=
  h.attempt (Journal.stays_remove p)

end Archive

namespace Courier
variable [RecordStore σ] {V : StoreView σ} {clientId : String} {start : Bytes} {v : Version}
  {s₀ s₁ s s' : σ} {j : Journal} {c c' : Courier σ} {now : Instant} {es : List Event}

/-- An archive stays that of its client in every step. -/
lemma isOf_step (h : c.archive.IsOf start v) (step : Step now c es c') :
    c'.archive.IsOf start v := by
  cases step with
  | restore fresh =>
    rw [archive_restore fresh]
    exact h.attempt Journal.stays_readAll
  | send | resend => exact h.save _
  | release => exact (h.save _).drop _
  | complete => exact h.drop _
  | clean => exact h.attempt Journal.stays_clear
  | _ => exact h

/-- An archive stays that of its client in every run. -/
lemma isOf_run (h : c.archive.IsOf start v) (run : Run now c es c') :
    c'.archive.IsOf start v := by
  induction run with
  | refl => exact h
  | step first _ ih => exact ih (isOf_step h first)

/-- An archive stays that of its client in all calls. -/
lemma isOf_after (h : c.archive.IsOf start v) (ops : List Call) :
    (c.after ops).archive.IsOf start v := by
  induction ops generalizing c with
  | nil => exact h
  | cons op ops ih => exact ih (isOf_run h (run_call c op).2)

/-- A journal is opened for the client and the version that it is asked for. -/
lemma isOf_of_openFor (opened : Journal.openFor clientId v s = (.ok j, s')) :
    (Archive.active j s').IsOf (Journal.startOf (Bytes.ofText clientId)) v :=
  Journal.start_of_openFor opened

/-- Behind a cleaning nothing waits or is in flight. -/
lemma idle_cleanAll (c : Courier σ) : c.cleanAll.IsIdle :=
  ⟨rfl, rfl, fun id => IdPool.contains_clear id⟩

/-- A courier whose archive is not given up leaves nothing in a store that does not fail any more,
whatever was there. -/
lemma cleanAll_of_isActive (law : V.Lawful) (takes : V.takes start) (h : c.archive.IsOf start v)
    (active : c.isPersistent = true) (stored : c.archive.store? = some s) (live : V.live s)
    (sound : V.sound s) (held : ∀ key, V.records s key ≠ none → V.takes key) :
    ∃ j s', c.cleanAll.archive = .active j s' ∧ (j.start = start ∧ j.version = v) ∧
      V.Leads s s' ∧ V.IsClear start s' := by
  obtain ⟨j, s₁, kept⟩ := Archive.eq_active active
  rw [kept] at stored h
  cases stored
  obtain ⟨rfl, rfl⟩ := h
  have cleared : c.cleanAll.archive = c.archive.clear := rfl
  rw [cleared, kept]
  obtain ⟨_, j', s', answer, leads, rfl, clear⟩ | ⟨_, _, _, -, -, -, unsound, -⟩ :=
    Archive.attempt_of_meets (Journal.meets_clear_any law takes (fun key _ => held key) live)
  · refine ⟨{ j with nextSeq := 0 }, s', ?_, ⟨rfl, rfl⟩, ⟨leads.live, leads.sound⟩, clear⟩
    rw [Archive.clear, answer]
  · exact absurd sound unsound

/-- A courier whose archive is given up leaves the store as it is. -/
lemma cleanAll_of_not_isActive (inactive : c.isPersistent = false) :
    c.cleanAll.archive = c.archive :=
  Archive.clear_of_not_active inactive

/-- A courier that begins where nothing is left sends nothing. -/
lemma recover_of_isBlank (settings : Settings) (blank : j.IsBlank s) (now : Instant) :
    ((withJournal settings j s).recover now).1 = [] := by
  have begun : (withJournal settings j s).IsBlank := fun _ => blank.readAll
  have same := recover_detached (τ := σ) begun now
  have nothing : ((volatile settings : Courier σ).recover now).1 = [] := by
    rw [recover_of_queue_eq_nil]
    · rfl
    · rfl
  rw [← nothing]
  exact (congrArg Prod.fst same).symm

/-- A courier whose store is clear has nothing that was there before. -/
lemma regular_cleanAll (h : c.cleanAll.archive.IsOf start v)
    (stored : c.cleanAll.archive.store? = some s) (live : V.live s) (clear : V.IsClear start s) :
    c.cleanAll.Regular V start v Slots.empty := by
  have keeps : Journal.Keeps start v (V.records s) Slots.empty := .of_none clear
  have holds : c.cleanAll.archive.Holds V start v Slots.empty := by
    cases kept : c.cleanAll.archive with
    | absent =>
      rw [kept] at h
      exact h.elim
    | active j s' =>
      rw [kept] at h stored
      cases stored
      exact ⟨h, live, keeps⟩
    | abandoned j s' =>
      rw [kept] at stored
      cases stored
      exact ⟨live, keeps⟩
  exact ⟨holds, .nil, nofun, nofun, nofun, fun _ => idle_cleanAll c⟩

/-- After any calls over a store that may have failed in any of them, but fails no more, a clean
session drops what waits and what is in flight. It leaves no record of the client exactly if the
archive was not given up or the store had none, and then nothing that later couriers send stems from
what was there before: the next one begins with nothing, in whatever version. -/
theorem isClear_cleanAll_iff (law : V.Lawful)
    (takes : Journal.TakesAll V (Journal.startOf (Bytes.ofText clientId)))
    (opened : Journal.openFor clientId v s₀ = (.ok j, s₁)) (settings : Settings) (ops : List Call)
    (stored : ((withJournal settings j s₁).after ops).archive.store? = some s) (live : V.live s)
    (sound : V.sound s) (held : ∀ key, V.records s key ≠ none → V.takes key) :
    let start := Journal.startOf (Bytes.ofText clientId)
    let c := (withJournal settings j s₁).after ops
    (∀ now, c.connected true now = ([], c.cleanAll)) ∧ c.cleanAll.IsIdle ∧
      ∃ s', c.cleanAll.archive.store? = some s' ∧
        (V.IsClear start s' ↔ c.isPersistent = true ∨ V.IsClear start s) ∧
        (V.IsClear start s' →
          (∀ w, ∃ j' s'', Journal.openFor clientId w s' = (.ok j', s'') ∧
            ∀ settings now, ((withJournal settings j' s'').recover now).1 = []) ∧
          ∀ {since c'}, Descends V clientId v c.cleanAll since c' → ∀ op, ∀ p ∈ (c'.call op).1,
            ∀ id, p.Stems id (since ++ c'.entered op)) := by
  intro start c
  have owned : c.archive.IsOf start v := isOf_after (isOf_of_openFor opened) ops
  have owned' : c.cleanAll.archive.IsOf start v := owned.attempt Journal.stays_clear
  refine ⟨fun _ => rfl, idle_cleanAll c, ?_⟩
  -- an archive that is not given up clears the store; one that is leaves it as it is
  have left : ∃ s', c.cleanAll.archive.store? = some s' ∧ V.live s' ∧ V.sound s' ∧
      (V.IsClear start s' ↔ c.isPersistent = true ∨ V.IsClear start s) := by
    cases active : c.isPersistent with
    | true =>
      obtain ⟨j', s', kept, -, leads, clear⟩ :=
        cleanAll_of_isActive law takes.takes_start owned active stored live sound held
      exact ⟨s', by rw [kept]; rfl, leads.live, leads.sound sound, fun _ => .inl rfl,
        fun _ => clear⟩
    | false =>
      refine ⟨s, ?_, live, sound, .inr, fun h => h.resolve_left Bool.false_ne_true⟩
      rw [cleanAll_of_not_isActive active]
      exact stored
  obtain ⟨s', stored', live', sound', iff⟩ := left
  refine ⟨s', stored', iff, fun clear => ⟨fun w => ?_, fun {since c'} descends op p sent id => ?_⟩⟩
  · obtain ⟨j', s'', opened', blank⟩ := Journal.exists_openFor_of_isClear law takes live' sound'
      clear (Journal.length_lt_of_openFor opened) w
    exact ⟨j', s'', opened', fun settings now => recover_of_isBlank settings blank now⟩
  · have regular := regular_cleanAll owned' stored' live' clear
    obtain ⟨recs, regular', stems⟩ := descends.regular law takes regular
    obtain ⟨recs', -, behind⟩ := regular'.stems_steps law takes (steps_call c' op).2
    have had : ∀ p, c.cleanAll.Has Slots.empty p → p.Stems id [] := by
      rintro p (⟨e, mem, -⟩ | ⟨kind, i, r, found, -⟩)
      · cases mem
      · cases found
    exact (behind id _ (stems id [] had)).1 p sent

/-- A message that is in flight over a table is gone with its record. -/
theorem isClear_cleanAll_of_enqueue :
    let m : Publish := { qos := .atLeastOnce, topic := "a", payload := [1] }
    let c := (withJournal {} ⟨[0, 1, 97], .v311, 0⟩ Table.empty).after [.enqueue m .origin]
    c.window.toList.map Inflight.packet = [.publish { m with packetId := 1 }] ∧
      ∃ s, c.cleanAll.archive.store? = some s ∧ Table.view.IsClear [0, 1, 97] s ∧
        ∀ w, ∃ j' s', Journal.openFor "a" w s = (.ok j', s') ∧
          ∀ settings now, ((withJournal settings j' s').recover now).1 = [] := by
  intro m c
  have kept : c.isPersistent = true := by decide +kernel
  obtain ⟨j, s, active⟩ := Archive.eq_active kept
  have stored : c.archive.store? = some s := by
    rw [active]
    rfl
  have opened : Journal.openFor "a" .v311 Table.empty = (.ok ⟨[0, 1, 97], .v311, 0⟩, Table.empty) :=
    rfl
  obtain ⟨-, -, s', stored', clear, later⟩ := isClear_cleanAll_iff (V := Table.view) Table.lawful
    ⟨trivial, fun _ _ => trivial⟩ opened {} [.enqueue m .origin] stored trivial trivial
    fun _ _ => trivial
  have nothing := clear.mpr (.inl kept)
  exact ⟨by decide +kernel, s', stored', nothing, (later nothing).1⟩

/-- The record of the second message cannot be put, once. All calls of the store after that succeed,
but the first message is still there after a clean session, and the next courier sends it. -/
theorem not_isClear_cleanAll :
    let m : Publish := { qos := .atLeastOnce, topic := "a", payload := [1] }
    let plan : Nat → StoreCall → Option StoreError := fun n _ =>
      if n = 5 then some .writeError else none
    let V := Unreliable.viewOnward plan Table.view
    ∃ j s₁ u j' u', Journal.openFor "a" .v311 (⟨.empty, plan, 0⟩ : Unreliable Table) = (.ok j, s₁) ∧
      let c := (withJournal {} j s₁).after [.enqueue m .origin, .enqueue m .origin]
      c.archive.store? = some u ∧ V.live u ∧ V.sound u ∧
        c.cleanAll.archive.store? = some u ∧ ¬ V.IsClear [0, 1, 97] u ∧
        Journal.openFor "a" .v311 u = (.ok j', u') ∧
        ((withJournal {} j' u').recover .origin).1 = [.publish { m with packetId := 1 }] := by
  intro m plan V
  let s₀ : Unreliable Table := ⟨.empty, plan, 0⟩
  let s₁ : Unreliable Table := ⟨.empty, plan, 1⟩
  have opened : Journal.openFor "a" .v311 s₀ = (.ok ⟨[0, 1, 97], .v311, 0⟩, s₁) := rfl
  let c₀ := withJournal {} ⟨[0, 1, 97], .v311, 0⟩ s₁
  let c := c₀.after [.enqueue m .origin, .enqueue m .origin]
  have inactive : c.isPersistent = false := by decide +kernel
  have resumes : (c.archive.store?.any fun u => u.calls = 6 &&
      (u.store.find? (Journal.keyAt [0, 1, 97] .message 1)).isSome &&
      match Journal.openFor "a" .v311 u with
      | (.ok j', u') =>
        ((withJournal {} j' u').recover .origin).1 = [.publish { m with packetId := 1 }]
      | (.error _, _) => false) = true := by decide +kernel
  rw [Option.any_eq_true] at resumes
  obtain ⟨u, stored, resumes⟩ := resumes
  rw [Bool.and_eq_true, Bool.and_eq_true, Option.isSome_iff_ne_none, decide_eq_true_iff] at resumes
  obtain ⟨⟨calls, record⟩, resumes⟩ := resumes
  -- the store is left in a state that its laws are about
  have live : V.live u := by
    have undamaged : ∀ n call, plan n call ≠ some .corrupted := fun n call => by
      show (if n = 5 then _ else _) ≠ _
      split <;> nofun
    have law : V.Lawful := Unreliable.lawful_onward Table.lawful
    have takes : Journal.TakesAll V (Journal.startOf (Bytes.ofText "a")) :=
      ⟨trivial, fun _ _ => trivial⟩
    have begun := regular_withJournal law takes {} ⟨rfl, undamaged, trivial⟩
      (.of_none fun _ _ => rfl) opened
    have descends : Descends V "a" .v311 c₀ _ c :=
      .call (.enqueue m .origin) (.call (.enqueue m .origin) .refl)
    obtain ⟨recs, regular, -⟩ := descends.regular law takes begun
    obtain ⟨u', stored', live, -⟩ := regular.holds.store
    rw [stored] at stored'
    cases stored'
    exact live
  split at resumes
  · rename_i j' u' opened'
    refine ⟨_, s₁, u, j', u', opened, stored, live, ⟨fun n call le => ?_, trivial⟩, ?_,
      fun clear => record (clear _ (Journal.prefix_keyAt ..)), opened', of_decide_eq_true resumes⟩
    · exact if_neg (by omega)
    · rw [cleanAll_of_not_isActive inactive]
      exact stored
  · cases resumes

end Courier
end MqttClient
