import MqttClient.Proofs.Packet.RoundTrip
import Mathlib.Order.Nat

/-!
# Where packets end

A packet tells by itself where it ends. A reader whose input comes in parts waits for an answer, a
packet or an error, and this answer is final: no byte behind it changes it. Before the last byte of
a packet there is no answer, so a packet without its end is never taken for another one.
-/

namespace MqttClient.Packet

variable {bytes : Bytes} {v : Version}

/-- No more bytes make up for a size without end. -/
lemma decodeFirst_append_of_endless {header : UInt8} {rest : Bytes} {e : WireError}
    (h : VarInt.decode rest = .error e) (suffix : Bytes) :
    decodeFirst (header :: (rest ++ suffix)) v = .error e := by
  have answered : VarInt.decode rest ≠ .ok none := fun waits => by
    rw [h] at waits
    cases waits
  have still : VarInt.decode (rest ++ suffix) = VarInt.decode rest :=
    VarInt.decodeFrom_append_of_ne_none answered suffix
  rw [decodeFirst, still, h]
  rfl

/-- Where there is an answer and the size has an end, the bytes are a first byte, the groups of the
size, a body of that size and what comes behind it. -/
lemma exists_body {header : UInt8} {rest : Bytes} {size : UInt32} {used : Nat}
    (decoded : VarInt.decode rest = .ok (some (size, used)))
    (h : decodeFirst (header :: rest) v ≠ .ok none) :
    ∃ groups body suffix, rest = groups ++ (body ++ suffix) ∧
      ∀ more, decodeFirst (header :: (groups ++ (body ++ more))) v =
        (decode ⟨header⟩ body v).map fun p => some (p, 1 + groups.length + body.length) := by
  obtain ⟨groups, behind, rfl, sp, rfl, few⟩ := VarInt.spells_of_decode decoded
  have enough : size.toNat ≤ behind.length := by
    by_contra short
    rw [decodeFirst, decoded] at h
    refine h (if_pos ?_)
    rw [List.drop_left, List.length_take]
    omega
  refine ⟨groups, behind.take size.toNat, behind.drop size.toNat, ?_, fun more => ?_⟩
  · rw [List.take_append_drop]
  · have read := VarInt.decode_append sp few (behind.take size.toNat ++ more)
    rw [UInt32.ofNat_toNat] at read
    exact decodeFirst_append read (List.drop_left ..) (List.length_take_of_le enough).symm

/-- An answer is told by bytes in front, whatever follows them. If it is a packet, these are the
bytes that it takes. -/
lemma exists_front (h : decodeFirst bytes v ≠ .ok none) :
    ∃ front suffix, bytes = front ++ suffix ∧
      (∀ more, decodeFirst (front ++ more) v = decodeFirst bytes v) ∧
      ∀ p n, decodeFirst bytes v = .ok (some (p, n)) → n = front.length := by
  cases bytes with
  | nil => exact absurd rfl h
  | cons header rest =>
    -- the size is refused, or it tells which bytes make up the answer
    rcases decoded : VarInt.decode rest with e | _ | ⟨size, used⟩
    · have answer (more : Bytes) : decodeFirst (header :: (rest ++ more)) v = .error e :=
        decodeFirst_append_of_endless decoded more
      have here := answer []
      rw [List.append_nil] at here
      refine ⟨header :: rest, [], (List.append_nil _).symm, fun more => ?_, fun p n read => ?_⟩
      · rw [List.cons_append, answer, here]
      · cases here.symm.trans read
    · rw [decodeFirst, decoded] at h
      exact absurd rfl h
    · obtain ⟨groups, body, suffix, rfl, answer⟩ := exists_body decoded h
      refine ⟨header :: (groups ++ body), suffix, ?_, fun more => ?_, fun p n read => ?_⟩
      · rw [List.cons_append, List.append_assoc]
      · rw [List.cons_append, List.append_assoc, answer, answer]
      · rw [answer] at read
        cases found : decode ⟨header⟩ body v with
        | error e =>
          rw [found] at read
          cases read
        | ok q =>
          rw [found] at read
          cases read
          rw [List.length_cons, List.length_append]
          omega

/-- Bytes behind those that tell an answer do not change it. -/
lemma decodeFirst_append_of_ne_none (h : decodeFirst bytes v ≠ .ok none) (suffix : Bytes) :
    decodeFirst (bytes ++ suffix) v = decodeFirst bytes v := by
  obtain ⟨front, behind, rfl, told, -⟩ := exists_front h
  rw [List.append_assoc]
  exact told _

/-- A beginning that has an answer has that of the whole. -/
lemma decodeFirst_of_take_ne_none {n : Nat} (h : decodeFirst (bytes.take n) v ≠ .ok none) :
    decodeFirst bytes v = decodeFirst (bytes.take n) v := by
  have more := decodeFirst_append_of_ne_none h (bytes.drop n)
  rwa [List.take_append_drop] at more

/-- The bytes that a packet takes tell it on their own. -/
lemma decodeFirst_take {p : Packet} {n : Nat} (h : decodeFirst bytes v = .ok (some (p, n))) :
    n ≤ bytes.length ∧ decodeFirst (bytes.take n) v = .ok (some (p, n)) := by
  obtain ⟨front, suffix, rfl, told, size⟩ := exists_front (by rw [h]; nofun)
  obtain rfl := size p n h
  have alone := told []
  rw [List.append_nil, h] at alone
  rw [List.take_left]
  exact ⟨by rw [List.length_append]; omega, alone⟩

/-- Less than the bytes that a packet takes has no answer. -/
lemma decodeFirst_take_eq_none {p : Packet} {n k : Nat}
    (h : decodeFirst bytes v = .ok (some (p, n))) (lt : k < n) :
    decodeFirst (bytes.take k) v = .ok none := by
  by_contra answered
  have same := decodeFirst_of_take_ne_none answered
  rw [h] at same
  have le := (decodeFirst_take same.symm).1
  rw [List.length_take] at le
  omega

/-- An answer, be it a packet or an error, is final, and there is a place up to which there is none
and from which on it is there. For a packet this is its end. -/
theorem decodeFirst_take_eq_ite (h : decodeFirst bytes v ≠ .ok none) :
    (∀ suffix, decodeFirst (bytes ++ suffix) v = decodeFirst bytes v) ∧
      ∃ n ≤ bytes.length,
        (∀ k, decodeFirst (bytes.take k) v = if k < n then .ok none else decodeFirst bytes v) ∧
        ∀ p m, decodeFirst bytes v = .ok (some (p, m)) → m = n := by
  refine ⟨decodeFirst_append_of_ne_none h, ?_⟩
  have answered : ∃ n, decodeFirst (bytes.take n) v ≠ .ok none :=
    ⟨bytes.length, by rwa [List.take_length]⟩
  have least := Nat.find_spec answered
  refine ⟨Nat.find answered, Nat.find_min' answered (by rwa [List.take_length]), fun k => ?_,
    fun p m read => ?_⟩
  · split
    · rename_i before
      exact not_not.mp (Nat.find_min answered before)
    · rename_i behind
      have part : (bytes.take k).take (Nat.find answered) = bytes.take (Nat.find answered) := by
        rw [List.take_take, Nat.min_eq_left (Nat.le_of_not_lt behind)]
      rw [decodeFirst_of_take_ne_none least, ← part]
      exact decodeFirst_of_take_ne_none (part ▸ least)
  · -- a packet is there with its last byte and not before
    refine Nat.le_antisymm (Nat.le_of_not_lt fun before => ?_) (Nat.find_min' answered ?_)
    · exact least (decodeFirst_take_eq_none read before)
    · rw [(decodeFirst_take read).2]
      nofun

/-- A PUBACK with an unknown reason code in front of the first byte of PINGREQ: the error is there
from the fifth byte on. -/
theorem decodeFirst_take_unknown_reason :
    let bytes : Bytes := [0x40, 3, 0, 1, 0x55, 0xC0]
    let refused : Except WireError (Option (Packet × Nat)) := .error (.invalidReasonCode 0x55)
    decodeFirst bytes .v5 = refused ∧
      (∀ suffix, decodeFirst (bytes ++ suffix) .v5 = refused) ∧
      ∀ k, decodeFirst (bytes.take k) .v5 = if k < 5 then .ok none else refused := by
  intro bytes refused
  have here : decodeFirst bytes .v5 = refused := by decide
  have answered : decodeFirst bytes .v5 ≠ .ok none := by
    rw [here]
    nofun
  obtain ⟨final, n, -, each, -⟩ := decodeFirst_take_eq_ite answered
  rw [here] at final each
  have lower : ¬ n ≤ 4 := fun le => by
    have told := each 4
    rw [if_neg (by omega)] at told
    exact absurd told (by decide)
  have upper : ¬ 5 < n := fun lt => by
    have told := each 5
    rw [if_pos lt] at told
    exact absurd told (by decide)
  obtain rfl : n = 5 := by omega
  exact ⟨here, final, each⟩

end MqttClient.Packet
