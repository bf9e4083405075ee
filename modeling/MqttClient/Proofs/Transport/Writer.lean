import MqttClient.Transport.Metered
import MqttClient.Transport.Writer
import Mathlib.Tactic.Common

/-!
# What the writer sends

The traffic between a writer and its transport is recorded by a transport that answers as the one
within it does. Whatever the transport answers, what it took is a beginning of the packets that have
an encoding, one after the other, and each packet was flushed before the next one began. How the
writer ends tells how far it came.
-/

namespace MqttClient
variable {τ : Type}

/-- What happens between a writer and its transport. -/
inductive Traffic where
  /-- The transport took bytes from the front of what it was offered. -/
  | took (portion : Bytes)
  /-- A write failed. -/
  | failed
  /-- A write took nothing. -/
  | gone
  /-- A flush succeeded. -/
  | flushed
  /-- A flush failed. -/
  | unflushed
  deriving DecidableEq, Repr

namespace Traffic

/-- The bytes that the transport took. -/
def bytes : Traffic → Bytes
  | took portion => portion
  | _ => []

/-- A write of some bytes with its answer. -/
def ofAnswer (offered : Bytes) : WriteAnswer → Traffic
  | .failed => failed
  | .taken 0 => gone
  | .taken (n + 1) => took (offered.take (n + 1))

/-- A flush with its answer. -/
def ofFlush (succeeded : Bool) : Traffic :=
  if succeeded then flushed else unflushed

end Traffic

/-- All bytes that a transport took. -/
def accepted (log : List Traffic) : Bytes :=
  log.flatMap Traffic.bytes

/-- A transport and the traffic with it, in order. -/
structure Recorder (τ : Type) where
  transport : τ
  log : List Traffic := []

namespace Recorder
variable [ByteSink τ]

/-- Writes to the transport and records the answer. -/
def write (bytes : Bytes) (r : Recorder τ) : WriteAnswer × Recorder τ :=
  match ByteSink.write bytes r.transport with
  | (answer, t) => (answer, ⟨t, r.log ++ [.ofAnswer bytes answer]⟩)

/-- Flushes the transport and records the answer. -/
def flush (r : Recorder τ) : Bool × Recorder τ :=
  match ByteSink.flush r.transport with
  | (succeeded, t) => (succeeded, ⟨t, r.log ++ [.ofFlush succeeded]⟩)

/-- A recorder answers as its transport does. -/
instance : ByteSink (Recorder τ) := ⟨write, flush⟩

end Recorder

/-- The traffic of a transfer, and its result. -/
inductive Transmits : Bytes → List Traffic → Except NetworkError Unit → Prop where
  /-- Nothing is left. -/
  | done :
    Transmits [] [] (.ok ())
  | failed {bytes} :
    bytes ≠ [] →
    Transmits bytes [.failed] (.error .writeError)
  | gone {bytes} :
    bytes ≠ [] →
    Transmits bytes [.gone] (.error .connectionClosed)
  | took {portion rest log result} :
    portion ≠ [] →
    Transmits rest log result →
    Transmits (portion ++ rest) (.took portion :: log) result

/-- The traffic of a writer of encoded packets, and its result. -/
inductive Conveys : List Bytes → List Traffic → Except NetworkError Unit → Prop where
  /-- Nothing is left. -/
  | done :
    Conveys [] [] (.ok ())
  /-- A packet is not written to its end. -/
  | broken {packet packets log e} :
    Transmits packet log (.error e) →
    Conveys (packet :: packets) log (.error e)
  /-- A packet is written, but not flushed. -/
  | unflushed {packet packets log} :
    Transmits packet log (.ok ()) →
    Conveys (packet :: packets) (log ++ [.unflushed]) (.error .writeError)
  /-- A packet is written and flushed before the others. -/
  | sent {packet packets log log' result} :
    Transmits packet log (.ok ()) →
    Conveys packets log' result →
    Conveys (packet :: packets) (log ++ .flushed :: log') result

section
variable {bytes : Bytes} {packets : List Bytes} {log log' : List Traffic}
  {result : Except NetworkError Unit}

/-- What was taken in two parts of the traffic comes one after the other. -/
lemma accepted_append (log log' : List Traffic) :
    accepted (log ++ log') = accepted log ++ accepted log' :=
  List.flatMap_append

namespace Transmits

/-- What is taken is a beginning of the packet. -/
lemma accepted_prefix (h : Transmits bytes log result) : accepted log <+: bytes := by
  induction h with
  | done => exact List.prefix_refl _
  | failed | gone => exact List.nil_prefix
  | took _ _ ih => exact (List.prefix_append_right_inj _).mpr ih

/-- A transfer that succeeds has the whole packet taken. -/
lemma accepted_eq (h : Transmits bytes log (.ok ())) : accepted log = bytes := by
  generalize ended : (.ok () : Except NetworkError Unit) = result at h
  induction h with
  | done => rfl
  | failed | gone => cases ended
  | took _ _ ih => exact congrArg _ (ih ended)

/-- A transfer does not flush. -/
lemma flushed_notMem (h : Transmits bytes log result) : .flushed ∉ log := by
  induction h with
  | done => exact List.not_mem_nil
  | failed | gone => decide
  | took _ _ ih => exact List.not_mem_cons_of_ne_of_not_mem nofun ih

/-- A transfer ends with a closed connection exactly if some write took nothing. -/
lemma gone_mem_iff (h : Transmits bytes log result) :
    .gone ∈ log ↔ result = .error .connectionClosed := by
  induction h with
  | done => exact iff_of_false List.not_mem_nil nofun
  | failed => exact iff_of_false (by decide) nofun
  | gone => exact iff_of_true (List.mem_singleton_self _) rfl
  | took _ _ ih =>
    rw [List.mem_cons, ih]
    exact or_iff_right nofun

end Transmits

namespace Conveys

/-- What is taken is a beginning of the packets, one after the other. -/
lemma accepted_prefix (h : Conveys packets log result) : accepted log <+: packets.flatten := by
  induction h with
  | done => exact List.prefix_refl _
  | broken broken =>
    rw [List.flatten_cons]
    exact broken.accepted_prefix.trans (List.prefix_append ..)
  | unflushed whole =>
    rw [accepted_append, whole.accepted_eq, List.flatten_cons]
    exact (List.prefix_append_right_inj _).mpr List.nil_prefix
  | sent whole _ ih =>
    rw [accepted_append, whole.accepted_eq, List.flatten_cons]
    exact (List.prefix_append_right_inj _).mpr ih

/-- A writer that succeeds has all packets taken. -/
lemma accepted_eq (h : Conveys packets log (.ok ())) : accepted log = packets.flatten := by
  generalize ended : (.ok () : Except NetworkError Unit) = result at h
  induction h with
  | done => rfl
  | broken | unflushed => cases ended
  | sent whole _ ih =>
    rw [accepted_append, whole.accepted_eq, List.flatten_cons]
    exact congrArg _ (ih ended)

/-- There are as many flushes as packets only if the writer comes to the end. -/
lemma count_flushed (h : Conveys packets log result) :
    log.count .flushed ≤ packets.length ∧
      (result = .ok () ↔ log.count .flushed = packets.length) := by
  induction h with
  | done => exact ⟨Nat.le_refl 0, iff_of_true rfl rfl⟩
  | broken broken =>
    rw [List.count_eq_zero.mpr broken.flushed_notMem, List.length_cons]
    exact ⟨Nat.zero_le _, iff_of_false nofun nofun⟩
  | unflushed whole =>
    rw [List.count_append, List.count_eq_zero.mpr whole.flushed_notMem, List.length_cons]
    exact ⟨Nat.zero_le _, iff_of_false nofun nofun⟩
  | sent whole _ ih =>
    rw [List.count_append, List.count_eq_zero.mpr whole.flushed_notMem, Nat.zero_add,
      List.count_cons_self, List.length_cons, ih.2, Nat.add_right_cancel_iff]
    exact ⟨Nat.succ_le_succ ih.1, Iff.rfl⟩

/-- A writer ends with a closed connection exactly if some write took nothing. -/
lemma gone_mem_iff (h : Conveys packets log result) :
    .gone ∈ log ↔ result = .error .connectionClosed := by
  induction h with
  | done => exact iff_of_false List.not_mem_nil nofun
  | broken broken => exact broken.gone_mem_iff
  | unflushed whole =>
    rw [List.mem_append, whole.gone_mem_iff]
    exact iff_of_false (by decide) nofun
  | sent whole _ ih =>
    rw [List.mem_append, whole.gone_mem_iff, List.mem_cons, ih]
    constructor
    · rintro (ended | same | ended)
      · cases ended
      · cases same
      · exact ended
    · exact fun ended => .inr (.inr ended)

/-- The packets before the one at which the writer ends were written and flushed, and of those
after it nothing was written. -/
lemma exists_of_error {e : NetworkError} (h : Conveys packets log (.error e)) :
    ∃ before packet after log₁ log₂, packets = before ++ packet :: after ∧ log = log₁ ++ log₂ ∧
      Conveys before log₁ (.ok ()) ∧
      (Transmits packet log₂ (.error e) ∨
        e = .writeError ∧
          ∃ log₃, Transmits packet log₃ (.ok ()) ∧ log₂ = log₃ ++ [.unflushed]) := by
  generalize ended : (.error e : Except NetworkError Unit) = result at h
  induction h with
  | done => cases ended
  | @broken packet packets log e' broken =>
    cases ended
    exact ⟨[], packet, packets, [], log, rfl, rfl, .done, .inl broken⟩
  | @unflushed packet packets log whole =>
    cases ended
    exact ⟨[], packet, packets, [], _, rfl, rfl, .done, .inr ⟨rfl, log, whole, rfl⟩⟩
  | @sent packet packets log log' result whole _ ih =>
    obtain ⟨before, last, after, log₁, log₂, rfl, rfl, conveyed, stopped⟩ := ih ended
    refine ⟨packet :: before, last, after, log ++ .flushed :: log₁, log₂, rfl, ?_,
      .sent whole conveyed, stopped⟩
    rw [List.append_assoc, List.cons_append]

end Conveys
end

variable [ByteSink τ]

namespace Recorder
variable {r r' : Recorder τ} {bytes : Bytes}

/-- A write is answered as the transport answers, and is recorded. -/
lemma write_eq {answer : WriteAnswer} (h : ByteSink.write bytes r = (answer, r')) :
    ByteSink.write bytes r.transport = (answer, r'.transport) ∧
      r'.log = r.log ++ [.ofAnswer bytes answer] := by
  cases h
  exact ⟨rfl, rfl⟩

/-- A flush is answered as the transport answers, and is recorded. -/
lemma flush_eq {succeeded : Bool} (h : ByteSink.flush r = (succeeded, r')) :
    ByteSink.flush r.transport = (succeeded, r'.transport) ∧
      r'.log = r.log ++ [.ofFlush succeeded] := by
  cases h
  exact ⟨rfl, rfl⟩

end Recorder

/-- A recorder changes nothing about a transfer. -/
lemma transmits_writeAll (bytes : Bytes) (r : Recorder τ) :
    ∃ log, Transmits bytes log (writeAll bytes r).1 ∧
      writeAll bytes r.transport = ((writeAll bytes r).1, (writeAll bytes r).2.transport) ∧
      (writeAll bytes r).2.log = r.log ++ log := by
  fun_induction writeAll bytes r with
  | case1 r =>
    refine ⟨[], .done, ?_, (List.append_nil _).symm⟩
    rw [writeAll]
  | case2 r b rest r' failed =>
    obtain ⟨answer, log⟩ := Recorder.write_eq failed
    refine ⟨[.failed], .failed (List.cons_ne_nil b rest), ?_, log⟩
    rw [writeAll, answer]
  | case3 r b rest r' gone =>
    obtain ⟨answer, log⟩ := Recorder.write_eq gone
    refine ⟨[.gone], .gone (List.cons_ne_nil b rest), ?_, log⟩
    rw [writeAll, answer]
  | case4 r b rest n r' took ih =>
    obtain ⟨answer, log⟩ := Recorder.write_eq took
    obtain ⟨log', transmits, same, recorded⟩ := ih
    refine ⟨.took (b :: rest.take n) :: log', ?_, ?_, ?_⟩
    · have whole := Transmits.took (List.cons_ne_nil b (rest.take n)) transmits
      rwa [List.cons_append, List.take_append_drop] at whole
    · rw [writeAll, answer]
      exact same
    · rw [recorded, log, List.append_assoc]
      rfl

section
variable {v : Version} {p : Packet} {bytes : Bytes} {t t' t'' : τ}

/-- A packet without an encoding is passed over. -/
lemma writePackets_of_refused {e : WireError} (refused : p.encode v = .error e)
    (ps : List Packet) (t : τ) : writePackets v (p :: ps) t = writePackets v ps t := by
  rw [writePackets, refused]

/-- The writer ends where a packet is not written to its end. -/
lemma writePackets_of_broken {e : NetworkError} (written : p.encode v = .ok bytes)
    (broken : writeAll bytes t = (.error e, t')) (ps : List Packet) :
    writePackets v (p :: ps) t = (.error e, t') := by
  simp only [writePackets, written, broken]

/-- The writer ends where a flush fails. -/
lemma writePackets_of_unflushed (written : p.encode v = .ok bytes)
    (whole : writeAll bytes t = (.ok (), t')) (unflushed : ByteSink.flush t' = (false, t''))
    (ps : List Packet) : writePackets v (p :: ps) t = (.error .writeError, t'') := by
  simp only [writePackets, written, whole, unflushed]

/-- Behind a packet that was written and flushed, the writer goes on with the others. -/
lemma writePackets_of_sent (written : p.encode v = .ok bytes)
    (whole : writeAll bytes t = (.ok (), t')) (flushed : ByteSink.flush t' = (true, t''))
    (ps : List Packet) : writePackets v (p :: ps) t = writePackets v ps t'' := by
  simp only [writePackets, written, whole, flushed]

end

/-- The bytes of the packets that have an encoding. -/
def encodings (v : Version) (ps : List Packet) : List Bytes :=
  ps.filterMap fun p => (p.encode v).toOption

/-- A packet without an encoding adds nothing to what is to be sent. -/
lemma encodings_of_error {v : Version} {p : Packet} {e : WireError}
    (refused : p.encode v = .error e) (ps : List Packet) : encodings v (p :: ps) = encodings v ps :=
  List.filterMap_cons_none (congrArg Except.toOption refused)

/-- A packet with an encoding adds it in front of those of the others. -/
lemma encodings_of_ok {v : Version} {p : Packet} {bytes : Bytes} (written : p.encode v = .ok bytes)
    (ps : List Packet) : encodings v (p :: ps) = bytes :: encodings v ps :=
  List.filterMap_cons_some (congrArg Except.toOption written)

/-- A recorder changes nothing about what a writer does. -/
lemma conveys_writePackets (v : Version) (ps : List Packet) (r : Recorder τ) :
    ∃ log, Conveys (encodings v ps) log (writePackets v ps r).1 ∧
      writePackets v ps r.transport =
        ((writePackets v ps r).1, (writePackets v ps r).2.transport) ∧
      (writePackets v ps r).2.log = r.log ++ log := by
  induction ps generalizing r with
  | nil => exact ⟨[], .done, rfl, (List.append_nil _).symm⟩
  | cons p ps ih =>
    cases written : p.encode v with
    | error e =>
      rw [encodings_of_error written, writePackets_of_refused written,
        writePackets_of_refused written]
      exact ih r
    | ok bytes =>
      rw [encodings_of_ok written]
      obtain ⟨log, transmits, same, recorded⟩ := transmits_writeAll bytes r
      -- the writer goes on only behind a packet that was written and flushed
      rcases sent : writeAll bytes r with ⟨e | _, r'⟩
      · rw [sent] at transmits same recorded
        rw [writePackets_of_broken written sent, writePackets_of_broken written same]
        exact ⟨log, .broken transmits, rfl, recorded⟩
      · rw [sent] at transmits same recorded
        change r'.log = r.log ++ log at recorded
        rcases answer : ByteSink.flush r' with ⟨_ | _, r''⟩
        · obtain ⟨answer', recorded'⟩ := Recorder.flush_eq answer
          rw [writePackets_of_unflushed written sent answer,
            writePackets_of_unflushed written same answer']
          refine ⟨log ++ [.unflushed], .unflushed transmits, rfl, ?_⟩
          rw [recorded', recorded, List.append_assoc]
          rfl
        · obtain ⟨answer', recorded'⟩ := Recorder.flush_eq answer
          obtain ⟨log', conveys, same', recorded''⟩ := ih r''
          rw [writePackets_of_sent written sent answer, writePackets_of_sent written same answer']
          refine ⟨log ++ .flushed :: log', .sent transmits conveys, same', ?_⟩
          rw [recorded'', recorded', recorded, List.append_assoc, List.append_assoc]
          rfl

/-- A transfer that has ended stays as it is. -/
lemma Transfer.drive_ended (times : Nat) (result : Except NetworkError Unit) (t : τ) :
    (ended result).drive times t = (ended result, t) := by
  induction times with
  | zero => rfl
  | succ times ih => exact ih

/-- One step for each byte and one more are enough to end a transfer. -/
lemma Transfer.drive_pending {bytes : Bytes} {times : Nat} (enough : bytes.length < times) (t : τ) :
    (pending bytes).drive times t = (ended (writeAll bytes t).1, (writeAll bytes t).2) := by
  induction times generalizing bytes t with
  | zero => cases enough
  | succ times ih =>
    rw [drive]
    cases bytes with
    | nil =>
      rw [writeAll]
      exact drive_ended ..
    | cons b rest =>
      rw [writeAll, poll]
      cases ByteSink.write (b :: rest) t with
      | mk answer t' =>
        rcases answer with _ | _ | n
        · exact drive_ended ..
        · exact drive_ended ..
        · refine ih ?_ t'
          rw [List.length_drop]
          rw [List.length_cons] at enough
          omega

/-- Writing in single steps is writing at once. -/
lemma writeAllStepwise_eq_writeAll (bytes : Bytes) (t : τ) :
    writeAllStepwise bytes t = writeAll bytes t := by
  rw [writeAllStepwise, Transfer.drive_pending (Nat.lt_succ_self _)]

/-- Whatever a transport answers, the bytes that it takes from a writer are a beginning of the
packets that have an encoding, one after the other; a transport that tells of more bytes than it was
offered counts as having taken all of these. The writer succeeds exactly if all was taken and there
was one flush for each packet, right behind it. If it fails then all packets before some packet were
written and flushed, and nothing of those after it was written. It finds the connection closed
exactly if a write took nothing. Writing in single steps is writing at once. -/
theorem writePackets_conveys (v : Version) (ps : List Packet) (t : τ) :
    let result := (writePackets v ps (Recorder.mk t [])).1
    let log := (writePackets v ps (Recorder.mk t [])).2.log
    let packets := encodings v ps
    writePackets v ps t = (result, (writePackets v ps (Recorder.mk t [])).2.transport) ∧
      accepted log <+: packets.flatten ∧
      (result = .ok () ↔
        accepted log = packets.flatten ∧ log.count .flushed = packets.length) ∧
      Conveys packets log result ∧
      (∀ e, result = .error e →
        ∃ before packet after log₁ log₂, packets = before ++ packet :: after ∧ log = log₁ ++ log₂ ∧
          Conveys before log₁ (.ok ()) ∧
          (Transmits packet log₂ (.error e) ∨ e = .writeError ∧
            ∃ log₃, Transmits packet log₃ (.ok ()) ∧ log₂ = log₃ ++ [.unflushed])) ∧
      (result = .error .connectionClosed ↔ .gone ∈ log) ∧
      ∀ bytes, writeAllStepwise bytes t = writeAll bytes t := by
  intro result log packets
  obtain ⟨log', conveys, same, recorded⟩ := conveys_writePackets v ps (Recorder.mk t [])
  rw [List.nil_append] at recorded
  rw [← recorded] at conveys
  change Conveys packets log result at conveys
  refine ⟨same, conveys.accepted_prefix, ⟨fun ended => ?_, fun all => ?_⟩, conveys,
    fun e ended => ?_, conveys.gone_mem_iff.symm, fun bytes => writeAllStepwise_eq_writeAll bytes t⟩
  · have whole := ended ▸ conveys
    exact ⟨whole.accepted_eq, conveys.count_flushed.2.mp ended⟩
  · exact conveys.count_flushed.2.mpr all.2
  · exact (ended ▸ conveys).exists_of_error

/-- The sink is full when the second packet is half written. -/
example :
    (writePackets .v311 [.pingreq, .pingresp]
      (Recorder.mk ({ portion := some 1, capacity := some 3 } : MeteredSink) [])).2.log =
        [.took [0xC0], .took [0x00], .flushed, .took [0xD0], .failed] := by
  decide +kernel

end MqttClient
