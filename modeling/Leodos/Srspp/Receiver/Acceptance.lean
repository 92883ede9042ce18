/-
When the backends return no error.

A call succeeds exactly when the run of packets that it delivers fits the reassembly
and a packet ahead of its turn finds room in the storage.  Both conditions look at the
state before the call only.
-/
import Leodos.Srspp.Receiver.Refine

namespace Leodos
namespace Srspp

open Spp

variable {σ : Type} {REASM WIN : Nat} {S : Slots σ}

/-! ## The reassembly -/

namespace Reassembly

theorem push_ok_iff (r : Reassembly REASM) (p : Packet) :
    (∃ r', r.push p.1 p.2 = .ok r') ↔ Fits REASM r.partialMessage p := by
  by_cases hskip : r.message = none ∨ ¬ IsEos p
  · constructor
    · rintro ⟨r', h⟩
      rw [push_eq_deliverPacket hskip] at h
      obtain ⟨flags, payload⟩ := p
      cases flags with
      | unsegmented | first =>
        by_cases hlen : payload.length > REASM
        · rw [deliverPacket, dif_pos hlen] at h
          cases h
        · exact Nat.le_of_not_lt hlen
      | continuation | last =>
        by_cases hp : r.inProgress = false
        · rw [deliverPacket, dif_pos hp] at h
          cases h
        by_cases hlen : r.len + payload.length > REASM
        · rw [deliverPacket, dif_neg hp, dif_pos hlen] at h
          cases h
        · have hpart : r.partialMessage = some (Memory.slice r.buf 0 r.len) :=
            if_pos (Bool.eq_true_of_not_eq_false hp)
          refine ⟨_, hpart, ?_⟩
          rw [partialMessage_length hpart]
          exact Nat.le_of_not_lt hlen
    · intro h
      obtain ⟨r', hr', -⟩ := push_feed hskip h
      exact ⟨r', hr'⟩
  · obtain ⟨hwaiting, heos⟩ := not_or.1 hskip
    obtain ⟨m, hm⟩ := Option.ne_none_iff_exists'.1 hwaiting
    obtain ⟨flags, payload⟩ := p
    obtain ⟨rfl, rfl⟩ := Decidable.not_not.1 heos
    exact ⟨fun _ => Nat.zero_le _, fun _ => ⟨r, push_eos_waiting ⟨rfl, rfl⟩ hm⟩⟩

theorem partialMessage_of_push {r r' : Reassembly REASM} {p : Packet}
    (h : r.push p.1 p.2 = .ok r') : r'.partialMessage = (feed r.partialMessage p).1 := by
  have hfit := (push_ok_iff r p).1 ⟨r', h⟩
  have hfits : FitsAll REASM r.partialMessage [p] := ⟨hfit, trivial⟩
  obtain ⟨r₁, h₁, hpart, -⟩ := pushAll_sublist hfits
  obtain ⟨r₂, h₂, hnil⟩ := pushAll_cons_ok h₁
  rw [h, Except.ok.injEq] at h₂
  rw [pushAll, Except.ok.injEq] at hnil
  rw [h₂, hnil]
  exact hpart

theorem abandon_partialMessage (r : Reassembly REASM) : r.abandon.partialMessage = none := by
  unfold abandon
  by_cases h : r.inProgress = true
  · rw [if_pos h]
    rfl
  · rw [if_neg h]
    exact if_neg h

end Reassembly

/-! ## The backend -/

namespace Backend

/-- The buffered packets that follow each other from `seq` on, at most `fuel` of them.
`none` is a load that panics. -/
def released (S : Slots σ) (WIN : Nat) : Nat → Bitset → σ → SequenceCount → Option (List Packet)
  | 0, _, _, _ => some []
  | fuel + 1, occupied, slots, seq =>
      let idx := slotIdx WIN seq
      if occupied.isSet idx then
        match S.load slots idx with
        | none => none
        | some p => (released S WIN fuel (occupied.clear idx) slots (seq + 1)).map (p :: ·)
      else some []

/-- The packets `ps`, with the buffered packets that follow them behind the expected
one, can be pushed while `opened` is under reassembly. -/
def Delivers (S : Slots σ) (WIN : Nat) (r : Backend σ REASM) (opened : Option Bytes)
    (ps : List Packet) : Prop :=
  ∃ qs ∈ released S WIN WIN r.occupied r.slots (r.base.expectedSeq + 1),
    FitsAll REASM opened (ps ++ qs)

instance (r : Backend σ REASM) (opened : Option Bytes) (ps : List Packet) :
    Decidable (r.Delivers S WIN opened ps) :=
  inferInstanceAs (Decidable (∃ qs ∈ released S WIN WIN r.occupied r.slots (r.base.expectedSeq + 1),
    FitsAll REASM opened (ps ++ qs)))

/-- A packet in its turn can be delivered, and one that is buffered finds room. -/
def Takes (S : Slots σ) (WIN : Nat) (r : Backend σ REASM) (seq : SequenceCount)
    (flags : SequenceFlag) (payload : Bytes) : Prop :=
  if r.base.distance seq = 0 then r.Delivers S WIN r.reasm.partialMessage [(flags, payload)]
  else
    r.Buffers WIN seq →
      (S.store r.slots (slotIdx WIN seq) flags payload).any (fun x => x.2.isOk) = true

/-- The packets behind the gap can be delivered. -/
def Skips (S : Slots σ) (WIN : Nat) (r : Backend σ REASM) : Prop := r.Delivers S WIN none []

instance (r : Backend σ REASM) (seq : SequenceCount) (flags : SequenceFlag) (payload : Bytes) :
    Decidable (r.Takes S WIN seq flags payload) :=
  inferInstanceAs (Decidable (ite _ _ _))

instance (r : Backend σ REASM) : Decidable (r.Skips S WIN) :=
  inferInstanceAs (Decidable (r.Delivers S WIN none []))

theorem deliverBuffered_ok_iff (fuel : Nat) (r : Backend σ REASM) :
    (∃ r', r.deliverBuffered S WIN fuel = some (r', .ok ())) ↔
      ∃ ps, released S WIN fuel r.occupied r.slots r.base.expectedSeq = some ps ∧
        FitsAll REASM r.reasm.partialMessage ps := by
  induction fuel generalizing r with
  | zero => exact ⟨fun _ => ⟨[], rfl, trivial⟩, fun _ => ⟨_, rfl⟩⟩
  | succ fuel ih =>
    simp only [deliverBuffered, released]
    by_cases hset : r.occupied.isSet (slotIdx WIN r.base.expectedSeq) = true
    · rw [if_pos hset, if_pos hset]
      cases hload : S.load r.slots (slotIdx WIN r.base.expectedSeq) with
      | none => simp only [reduceCtorEq, exists_false, false_and]
      | some p =>
        dsimp only
        cases hpush : r.reasm.push p.1 p.2 with
        | error e =>
          constructor
          · rintro ⟨r', h⟩
            cases h
          · rintro ⟨ps, hps, hfit⟩
            obtain ⟨qs, -, rfl⟩ := Option.map_eq_some_iff.1 hps
            obtain ⟨r', hr'⟩ := (Reassembly.push_ok_iff r.reasm p).2 hfit.1
            rw [hpush] at hr'
            cases hr'
        | ok reasm =>
          dsimp only
          rw [ih]
          have hfit := (Reassembly.push_ok_iff r.reasm p).1 ⟨reasm, hpush⟩
          dsimp only
          rw [Reassembly.partialMessage_of_push hpush]
          constructor
          · rintro ⟨qs, hqs, hfits⟩
            exact ⟨p :: qs, Option.map_eq_some_iff.2 ⟨qs, hqs, rfl⟩, hfit, hfits⟩
          · rintro ⟨ps, hps, hfits⟩
            obtain ⟨qs, hqs, rfl⟩ := Option.map_eq_some_iff.1 hps
            exact ⟨qs, hqs, hfits.2⟩
    · rw [if_neg hset, if_neg hset]
      exact ⟨fun _ => ⟨[], rfl, trivial⟩, fun _ => ⟨_, rfl⟩⟩

/-- A delivery loop that begins with the packets `ps` already pushed. -/
theorem delivers_iff {r r₁ : Backend σ REASM} {opened : Option Bytes} {ps : List Packet}
    (hocc : r₁.occupied = r.occupied) (hslots : r₁.slots = r.slots)
    (hbase : r₁.base = r.base.advance)
    (hfits : ∀ qs, FitsAll REASM r₁.reasm.partialMessage qs ↔ FitsAll REASM opened (ps ++ qs)) :
    (∃ r', r₁.deliverBuffered S WIN WIN = some (r', .ok ())) ↔ r.Delivers S WIN opened ps := by
  rw [deliverBuffered_ok_iff, hocc, hslots, hbase, ReceiverBase.advance_expectedSeq, Delivers]
  exact exists_congr fun qs => and_congr Iff.rfl (hfits qs)

theorem skipGap_ok_iff (r : Backend σ REASM) :
    (∃ r' outcome, r.skipGap S WIN = some (r', .ok outcome)) ↔ r.Skips S WIN := by
  have hiff : (∃ r', { r with reasm := r.reasm.abandon, base := r.base.advance }.deliverBuffered
      S WIN WIN = some (r', .ok ())) ↔ r.Skips S WIN := by
    refine delivers_iff rfl rfl rfl fun qs => ?_
    rw [Reassembly.abandon_partialMessage, List.nil_append]
  rw [← hiff, skipGap]
  generalize { r with reasm := r.reasm.abandon, base := r.base.advance }.deliverBuffered S WIN
    WIN = x
  obtain _ | ⟨r', _ | u⟩ := x
  · simp only [reduceCtorEq, exists_false]
  · simp only [Option.some.injEq, Prod.mk.injEq, reduceCtorEq, and_false, exists_false]
  · exact ⟨fun _ => ⟨r', rfl⟩, fun _ => ⟨r', _, rfl⟩⟩

theorem storeOoo_ok_iff (r : Backend σ REASM) (seq : SequenceCount) (flags : SequenceFlag)
    (payload : Bytes) :
    (∃ r', r.storeOoo S WIN seq flags payload = some (r', .ok ())) ↔
      (r.occupied.isSet (slotIdx WIN seq) = false →
        (S.store r.slots (slotIdx WIN seq) flags payload).any (fun x => x.2.isOk) = true) := by
  rw [storeOoo]
  by_cases hset : r.occupied.isSet (slotIdx WIN seq) = true
  · rw [if_pos hset]
    refine ⟨fun _ h => ?_, fun _ => ⟨r, rfl⟩⟩
    rw [hset] at h
    cases h
  · rw [if_neg hset]
    rw [Bool.not_eq_true] at hset
    generalize S.store r.slots (slotIdx WIN seq) flags payload = x
    obtain _ | ⟨slots, _ | u⟩ := x
    · simp only [hset, reduceCtorEq, exists_false, Option.any_none, forall_const]
    · simp only [hset, Option.some.injEq, Prod.mk.injEq, reduceCtorEq, and_false, exists_false,
        Option.any_some, Except.isOk, Except.toBool, forall_const]
    · exact ⟨fun _ _ => rfl, fun _ => ⟨_, rfl⟩⟩

theorem handleData_ok_iff (r : Backend σ REASM) (seq : SequenceCount) (flags : SequenceFlag)
    (payload : Bytes) :
    (∃ r' outcome, r.handleData S WIN seq flags payload = some (r', .ok outcome)) ↔
      r.Takes S WIN seq flags payload := by
  rw [handleData, Takes]
  by_cases hd : r.base.distance seq = 0
  · rw [if_pos hd, if_pos hd]
    cases hpush : r.reasm.push flags payload with
    | error e =>
      constructor
      · rintro ⟨r', outcome, h⟩
        cases h
      · intro h
        obtain ⟨qs, -, hfits⟩ := h
        obtain ⟨r', hr'⟩ := (Reassembly.push_ok_iff r.reasm (flags, payload)).2 hfits.1
        rw [hpush] at hr'
        cases hr'
    | ok reasm =>
      have hfit := (Reassembly.push_ok_iff r.reasm (flags, payload)).1 ⟨reasm, hpush⟩
      have hiff : (∃ r', { r with reasm, base := r.base.advance }.deliverBuffered S WIN WIN =
          some (r', .ok ())) ↔ r.Delivers S WIN r.reasm.partialMessage [(flags, payload)] := by
        refine delivers_iff rfl rfl rfl fun qs => ?_
        rw [Reassembly.partialMessage_of_push (p := (flags, payload)) hpush]
        exact ⟨fun h => ⟨hfit, h⟩, fun h => h.2⟩
      rw [← hiff]
      dsimp only
      generalize { r with reasm, base := r.base.advance }.deliverBuffered S WIN WIN = x
      obtain _ | ⟨r', _ | u⟩ := x
      · simp only [reduceCtorEq, exists_false]
      · simp only [Option.some.injEq, Prod.mk.injEq, reduceCtorEq, and_false, exists_false]
      · exact ⟨fun _ => ⟨r', rfl⟩, fun _ => ⟨r', _, rfl⟩⟩
  · rw [if_neg hd, if_neg hd]
    by_cases hnew : r.base.distance seq < maxAhead WIN ∧
        r.base.isOooDuplicate (r.base.distance seq) = false
    · rw [if_pos hnew]
      have hbuf : r.Buffers WIN seq ↔ r.occupied.isSet (slotIdx WIN seq) = false :=
        ⟨fun h => h.2.2.2, fun h => ⟨hd, hnew.1, hnew.2, h⟩⟩
      rw [hbuf, ← storeOoo_ok_iff]
      generalize r.storeOoo S WIN seq flags payload = x
      obtain _ | ⟨r', _ | u⟩ := x
      · simp only [reduceCtorEq, exists_false]
      · simp only [Option.some.injEq, Prod.mk.injEq, reduceCtorEq, and_false, exists_false]
      · exact ⟨fun _ => ⟨r', rfl⟩, fun _ => ⟨_, _, rfl⟩⟩
    · rw [if_neg hnew]
      exact ⟨fun _ h => absurd ⟨h.2.1, h.2.2.1⟩ hnew, fun _ => ⟨_, _, rfl⟩⟩

end Backend

end Srspp
end Leodos
