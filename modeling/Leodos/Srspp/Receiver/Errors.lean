/-
What a failing call loses.

A packet that is refused before anything was delivered leaves the receiver as it was.  A packet
refused inside the delivery loop has already lost its slot, and its number, which was acknowledged,
is the expected one again.
-/
import Leodos.Srspp.Receiver.Acceptance

namespace Leodos
namespace Srspp

open Spp

variable {σ : Type} {REASM WIN : Nat} {S : Slots σ}

def Observation.isErr : Observation → Bool
  | .data (.error _) => true
  | .gap (.error _) => true
  | _ => false

namespace Backend

/-! ## Panics of the delivery loop -/

/-- The contents of the slots in use from `seq` on; `none` is a payload that cannot be copied
out. -/
def buffered (S : Slots σ) (WIN : Nat) :
    Nat → Bitset → σ → SequenceCount → List (Option Packet)
  | 0, _, _, _ => []
  | fuel + 1, occupied, slots, seq =>
      if occupied.isSet (slotIdx WIN seq) then
        S.load slots (slotIdx WIN seq) ::
          buffered S WIN fuel (occupied.clear (slotIdx WIN seq)) slots (seq + 1)
      else []

/-- The loop comes to a payload that cannot be copied out. -/
def Jams (opened : Option Bytes) (REASM : Nat) (contents : List (Option Packet)) : Prop :=
  ∃ qs rest, contents = qs.map some ++ none :: rest ∧ FitsAll REASM opened qs

theorem jams_cons_some {opened : Option Bytes} {p : Packet} {contents : List (Option Packet)} :
    Jams opened REASM (some p :: contents) ↔
      Fits REASM opened p ∧ Jams (feed opened p).1 REASM contents := by
  constructor
  · rintro ⟨qs, rest, heq, hfits⟩
    cases qs with
    | nil => cases heq
    | cons q qs =>
      rw [List.map_cons, List.cons_append, List.cons.injEq, Option.some.injEq] at heq
      obtain ⟨rfl, heq⟩ := heq
      exact ⟨hfits.1, qs, rest, heq, hfits.2⟩
  · rintro ⟨hfit, qs, rest, rfl, hfits⟩
    exact ⟨p :: qs, rest, rfl, hfit, hfits⟩

theorem jams_cons_none {opened : Option Bytes} {contents : List (Option Packet)} :
    Jams opened REASM (none :: contents) := ⟨[], contents, rfl, trivial⟩

theorem not_jams_nil {opened : Option Bytes} : ¬ Jams opened REASM [] := by
  rintro ⟨qs, rest, heq, -⟩
  cases qs with
  | nil => cases heq
  | cons q qs => cases heq

theorem deliverBuffered_none_iff (fuel : Nat) (r : Backend σ REASM) :
    r.deliverBuffered S WIN fuel = none ↔ Jams r.reasm.partialMessage REASM
      (buffered S WIN fuel r.occupied r.slots r.base.expectedSeq) := by
  induction fuel generalizing r with
  | zero => exact iff_of_false (fun h => by cases h) not_jams_nil
  | succ fuel ih =>
    rw [deliverBuffered, buffered]
    by_cases hset : r.occupied.isSet (slotIdx WIN r.base.expectedSeq) = true
    · rw [if_pos hset, if_pos hset]
      cases hload : S.load r.slots (slotIdx WIN r.base.expectedSeq) with
      | none => exact iff_of_true rfl jams_cons_none
      | some p =>
        rw [jams_cons_some]
        dsimp only
        cases hpush : r.reasm.push p.1 p.2 with
        | error e =>
          refine iff_of_false (fun h => by cases h) fun h => ?_
          obtain ⟨reasm, hok⟩ := (Reassembly.push_ok_iff r.reasm p).2 h.1
          rw [hpush] at hok
          cases hok
        | ok reasm =>
          dsimp only
          have hfit := (Reassembly.push_ok_iff r.reasm p).1 ⟨reasm, hpush⟩
          rw [ih, ← Reassembly.partialMessage_of_push hpush]
          exact ⟨fun h => ⟨hfit, h⟩, fun h => h.2⟩
    · rw [if_neg hset, if_neg hset]
      exact iff_of_false (fun h => by cases h) not_jams_nil

/-! ## What the loop does to the window -/

theorem add_one_add (x : SequenceCount) (k : Nat) :
    x + 1 + BitVec.ofNat 14 k = x + BitVec.ofNat 14 (k + 1) := by
  rw [BitVec.add_assoc, Nat.add_comm k, BitVec.ofNat_add]
  rfl

theorem deliverBuffered_passes {fuel : Nat} {r r' : Backend σ REASM}
    {res : Except ReceiverError Unit} (h : r.deliverBuffered S WIN fuel = some (r', res)) :
    ∃ k ≤ fuel, r'.base.expectedSeq = r.base.expectedSeq + BitVec.ofNat 14 k := by
  induction fuel generalizing r with
  | zero =>
    rw [deliverBuffered, Option.some.injEq, Prod.mk.injEq] at h
    exact ⟨0, Nat.le_refl _, by rw [← h.1]; exact (BitVec.add_zero _).symm⟩
  | succ fuel ih =>
    have hstay : r'.base = r.base →
        ∃ k ≤ fuel + 1, r'.base.expectedSeq = r.base.expectedSeq + BitVec.ofNat 14 k := by
      intro hbase
      exact ⟨0, Nat.zero_le _, by rw [hbase]; exact (BitVec.add_zero _).symm⟩
    rw [deliverBuffered] at h
    split at h
    · split at h
      · cases h
      · split at h
        · rw [Option.some.injEq, Prod.mk.injEq] at h
          exact hstay (h.1 ▸ rfl)
        · obtain ⟨k, hk, hexp⟩ := ih h
          refine ⟨k + 1, Nat.succ_le_succ hk, ?_⟩
          rw [hexp, ← add_one_add]
          rfl
    · rw [Option.some.injEq, Prod.mk.injEq] at h
      exact hstay (h.1 ▸ rfl)

theorem deliverBuffered_error (hW : 0 < WIN) (hW32 : WIN ≤ 32) {fuel : Nat}
    {r r' : Backend σ REASM} {e : ReceiverError}
    (h : r.deliverBuffered S WIN fuel = some (r', .error e)) :
    ∃ k, k < fuel ∧ r'.base.expectedSeq = r.base.expectedSeq + BitVec.ofNat 14 k ∧
      r.occupied.isSet (slotIdx WIN r'.base.expectedSeq) = true ∧
      r'.occupied.isSet (slotIdx WIN r'.base.expectedSeq) = false ∧
      ∀ j < k, slotIdx WIN (r.base.expectedSeq + BitVec.ofNat 14 j) ≠
        slotIdx WIN r'.base.expectedSeq := by
  have hlt : ∀ seq, slotIdx WIN seq < 32 := fun seq =>
    Nat.lt_of_lt_of_le (slotIdx_lt hW seq) hW32
  induction fuel generalizing r with
  | zero => cases h
  | succ fuel ih =>
    rw [deliverBuffered] at h
    split at h
    · rename_i hset
      split at h
      · cases h
      · split at h
        · rw [Option.some.injEq, Prod.mk.injEq] at h
          obtain ⟨rfl, -⟩ := h
          refine ⟨0, Nat.succ_pos _, (BitVec.add_zero _).symm, hset, ?_, fun j hj => by omega⟩
          show (r.occupied.clear (slotIdx WIN r.base.expectedSeq)).isSet
            (slotIdx WIN r.base.expectedSeq) = false
          rw [Bitset.isSet_clear _ (hlt _) (hlt _), decide_eq_true rfl, Bool.not_true,
            Bool.and_false]
        · obtain ⟨k, hk, hexp, hocc, hfree, hother⟩ := ih h
          rw [Bitset.isSet_clear _ (hlt _) (hlt _), Bool.and_eq_true, Bool.not_eq_true',
            decide_eq_false_iff_not] at hocc
          refine ⟨k + 1, Nat.succ_lt_succ hk, ?_, hocc.1, hfree, fun j hj => ?_⟩
          · rw [hexp, ← add_one_add]
            rfl
          · cases j with
            | zero =>
              rw [BitVec.add_zero]
              exact fun heq => hocc.2 heq.symm
            | succ j =>
              rw [← add_one_add]
              exact hother j (by omega)
    · cases h

/-! ## Errors -/

/-- The call is possible and moves the expected number. -/
def Advances (S : Slots σ) (WIN : Nat) (r : Backend σ REASM) (c : Call) : Prop :=
  ∃ r' obs, r.call S WIN c = some (r', obs) ∧ r'.base.expectedSeq ≠ r.base.expectedSeq

/-- The retransmission of the packet that made the call `c` fail: the one of the call, or the one
buffered at the number where the delivery loop stopped. -/
def culprit (S : Slots σ) (WIN : Nat) (c : Call) (r r' : Backend σ REASM) : Option Call :=
  if r'.base.expectedSeq = r.base.expectedSeq then some c
  else (S.load r.slots (slotIdx WIN r'.base.expectedSeq)).map fun p =>
    .handleData r'.base.expectedSeq p.1 p.2

/-- What an error may not do to the packets received so far. -/
structure LosesNothing (S : Slots σ) (WIN : Nat) (c : Call) (r r' : Backend σ REASM) : Prop where
  received : ∀ d, 0 < d → d ≤ 16 → r.base.recvBitmap.getLsbD (d - 1) = true →
    d < r.base.distance r'.base.expectedSeq ∨ r.base.distance r'.base.expectedSeq < d ∧
      r'.base.recvBitmap.getLsbD (d - r.base.distance r'.base.expectedSeq - 1) = true
  held : ∀ i < WIN, r.occupied.isSet i = true →
    (r'.occupied.isSet i = true ∧ S.load r'.slots i = S.load r.slots i) ∨
      ∃ d, 0 < d ∧ d < r.base.distance r'.base.expectedSeq ∧
        slotIdx WIN (r.base.expectedSeq + BitVec.ofNat 14 d) = i
  recovers : r'.Advances S WIN .skipGap ∨
    ∃ again, culprit S WIN c r r' = some again ∧ r'.Advances S WIN again

/-- The packet of the call itself is refused: it is ahead of its turn, or does not fit what is
under reassembly. -/
def RefusesCall (r : Backend σ REASM) : Call → Prop
  | .handleData seq flags payload =>
      r.base.distance seq ≠ 0 ∨ ¬ Fits REASM r.reasm.partialMessage (flags, payload)
  | _ => False

/-- The packets behind the expected number can be copied out, as far as they can be delivered
without it. -/
def CopiesOut (S : Slots σ) (WIN : Nat) (r : Backend σ REASM) : Prop :=
  ¬ Jams none REASM (buffered S WIN WIN r.occupied r.slots (r.base.expectedSeq + 1))

theorem distance_add (r : Backend σ REASM) {k : Nat} (hk : k < 16384) :
    r.base.distance (r.base.expectedSeq + BitVec.ofNat 14 k) = k := by
  rw [ReceiverBase.distance, BitVec.add_comm, BitVec.add_sub_cancel, BitVec.toNat_ofNat]
  exact Nat.mod_eq_of_lt hk

theorem skipGap_none_iff (r : Backend σ REASM) :
    r.skipGap S WIN = none ↔ ¬ r.CopiesOut S WIN := by
  have hloop : Backend.deliverBuffered S WIN WIN
      { r with reasm := r.reasm.abandon, base := r.base.advance } = none ↔ _ :=
    deliverBuffered_none_iff WIN _
  rw [Reassembly.abandon_partialMessage] at hloop
  rw [CopiesOut, Classical.not_not]
  refine Iff.trans ?_ hloop
  rw [skipGap]
  generalize { r with reasm := r.reasm.abandon, base := r.base.advance }.deliverBuffered S WIN
    WIN = x
  obtain _ | ⟨r', _ | u⟩ := x
  · exact iff_of_true rfl rfl
  · exact iff_of_false (fun h => by cases h) (fun h => by cases h)
  · exact iff_of_false (fun h => by cases h) (fun h => by cases h)

theorem skipGap_advances_iff (hW : WIN ≤ 32) (r : Backend σ REASM) :
    r.Advances S WIN .skipGap ↔ r.CopiesOut S WIN := by
  have hnone : r.skipGap S WIN = none ↔ ¬ r.CopiesOut S WIN := skipGap_none_iff r
  constructor
  · rintro ⟨r', obs, hcall, -⟩
    by_contra hstuck
    rw [call, hnone.2 hstuck] at hcall
    cases hcall
  · intro hcopies
    cases hskip : r.skipGap S WIN with
    | none => exact absurd hcopies (hnone.1 hskip)
    | some x =>
      refine ⟨x.1, .gap x.2, by rw [call, hskip]; rfl, ?_⟩
      have hloop : ∃ res, { r with reasm := r.reasm.abandon, base := r.base.advance
          }.deliverBuffered S WIN WIN = some (x.1, res) := by
        rw [skipGap] at hskip
        split at hskip
        · cases hskip
        · rename_i hrun
          cases hskip
          exact ⟨_, hrun⟩
        · rename_i hrun
          cases hskip
          exact ⟨_, hrun⟩
      obtain ⟨res, hrun⟩ := hloop
      obtain ⟨k, hk, hexp⟩ := deliverBuffered_passes hrun
      have hexp' : x.1.base.expectedSeq = r.base.expectedSeq + BitVec.ofNat 14 (k + 1) :=
        hexp.trans (add_one_add _ k)
      intro hsame
      have hdist := distance_add r (show k + 1 < 16384 by omega)
      rw [← hexp', hsame, ReceiverBase.distance, BitVec.sub_self] at hdist
      cases hdist

theorem not_losesNothing_of_loop (hW : 0 < WIN) (hW32 : WIN ≤ 32) {c : Call}
    {r r₁ r' : Backend σ REASM} {e : ReceiverError}
    (h : r₁.deliverBuffered S WIN WIN = some (r', .error e)) (hocc : r₁.occupied = r.occupied)
    (hbase : r₁.base = r.base.advance) :
    ¬ LosesNothing S WIN c r r' := by
  obtain ⟨k, hk, hexp, hset, hfree, hother⟩ := deliverBuffered_error hW hW32 h
  have hexp' : r'.base.expectedSeq = r.base.expectedSeq + BitVec.ofNat 14 (k + 1) := by
    rw [hexp, hbase]
    exact add_one_add _ k
  have hdist : r.base.distance r'.base.expectedSeq = k + 1 := by
    rw [hexp']
    exact distance_add r (by omega)
  intro hkept
  rw [hocc] at hset
  rcases hkept.held _ (slotIdx_lt hW _) hset with hstill | ⟨d, hd, hlt, hidx⟩
  · rw [hfree] at hstill
    cases hstill.1
  · obtain ⟨j, rfl⟩ := Nat.exists_eq_succ_of_ne_zero (Nat.pos_iff_ne_zero.1 hd)
    rw [hdist] at hlt
    refine hother j (by omega) ?_
    rw [hbase, ReceiverBase.advance_expectedSeq, add_one_add]
    exact hidx

theorem losesNothing_self_iff (hW32 : WIN ≤ 32) {c : Call} {r : Backend σ REASM}
    {obs : Observation} (h : r.call S WIN c = some (r, obs)) :
    LosesNothing S WIN c r r ↔ r.CopiesOut S WIN := by
  have hzero : r.base.distance r.base.expectedSeq = 0 := by
    rw [ReceiverBase.distance, BitVec.sub_self]
    rfl
  rw [← skipGap_advances_iff hW32]
  constructor
  · intro hkept
    rcases hkept.recovers with hskip | ⟨again, hagain, r', obs', hcall, hne⟩
    · exact hskip
    · rw [culprit, if_pos rfl, Option.some.injEq] at hagain
      subst hagain
      rw [h, Option.some.injEq, Prod.mk.injEq] at hcall
      exact absurd (hcall.1 ▸ rfl) hne
  · intro hskip
    refine ⟨fun d hd _ hbit => Or.inr ?_, fun i _ hset => Or.inl ⟨hset, rfl⟩, Or.inl hskip⟩
    rw [hzero]
    exact ⟨hd, hbit⟩

/-- A failing `handle_data` leaves the state alone, or its packet was delivered and the loop
failed. -/
theorem handleData_error {r r' : Backend σ REASM} {seq : SequenceCount} {flags : SequenceFlag}
    {payload : Bytes} {e : ReceiverError}
    (h : r.handleData S WIN seq flags payload = some (r', .error e)) :
    (r' = r ∧ r.RefusesCall (.handleData seq flags payload)) ∨
      ¬ r.RefusesCall (.handleData seq flags payload) ∧ ∃ r₁ : Backend σ REASM,
        r₁.occupied = r.occupied ∧ r₁.base = r.base.advance ∧
          r₁.deliverBuffered S WIN WIN = some (r', .error e) := by
  rw [handleData] at h
  by_cases hd : r.base.distance seq = 0
  · rw [if_pos hd] at h
    cases hpush : r.reasm.push flags payload with
    | error e' =>
      rw [hpush] at h
      cases h
      refine Or.inl ⟨rfl, Or.inr fun hfit => ?_⟩
      obtain ⟨reasm, hok⟩ := (Reassembly.push_ok_iff r.reasm (flags, payload)).2 hfit
      rw [hpush] at hok
      cases hok
    | ok reasm =>
      rw [hpush] at h
      refine Or.inr ⟨fun hrefused => ?_, { r with reasm, base := r.base.advance }, rfl, rfl, ?_⟩
      · rcases hrefused with hne | hfit
        · exact hne hd
        · exact hfit ((Reassembly.push_ok_iff r.reasm (flags, payload)).1 ⟨reasm, hpush⟩)
      · dsimp only at h
        split at h
        · cases h
        · rename_i hrun
          cases h
          exact hrun
        · cases h
  · rw [if_neg hd] at h
    refine Or.inl ⟨?_, Or.inl hd⟩
    split at h
    · split at h
      · cases h
      · rename_i hstore
        cases h
        rw [storeOoo] at hstore
        split at hstore
        · cases hstore
        · split at hstore
          · cases hstore
          · cases hstore
            rfl
          · cases hstore
      · cases h
    · cases h

theorem skipGap_error {r r' : Backend σ REASM} {e : ReceiverError}
    (h : r.skipGap S WIN = some (r', .error e)) :
    { r with reasm := r.reasm.abandon, base := r.base.advance }.deliverBuffered S WIN WIN =
      some (r', .error e) := by
  rw [skipGap] at h
  split at h
  · cases h
  · rename_i hrun
    cases h
    exact hrun
  · cases h

theorem error_of_handleData {r r' : Backend σ REASM} {seq : SequenceCount} {flags : SequenceFlag}
    {payload : Bytes} {obs : Observation}
    (h : r.call S WIN (.handleData seq flags payload) = some (r', obs)) (herr : obs.isErr = true) :
    ∃ e, r.handleData S WIN seq flags payload = some (r', .error e) := by
  obtain ⟨⟨r₂, res⟩, hcall, hpair⟩ := Option.map_eq_some_iff.1 h
  rw [Prod.mk.injEq] at hpair
  obtain ⟨rfl, rfl⟩ := hpair
  cases res with
  | ok outcome => cases herr
  | error e => exact ⟨e, hcall⟩

theorem error_of_skipGap {r r' : Backend σ REASM} {obs : Observation}
    (h : r.call S WIN .skipGap = some (r', obs)) (herr : obs.isErr = true) :
    ∃ e, r.skipGap S WIN = some (r', .error e) := by
  obtain ⟨⟨r₂, res⟩, hcall, hpair⟩ := Option.map_eq_some_iff.1 h
  rw [Prod.mk.injEq] at hpair
  obtain ⟨rfl, rfl⟩ := hpair
  cases res with
  | ok outcome => cases herr
  | error e => exact ⟨e, hcall⟩

/-- A failing call loses nothing exactly when its own packet was refused and the packets behind
the expected number can be copied out. -/
theorem errors_lose_nothing_iff (hW : 0 < WIN) (hW17 : WIN ≤ 17) {c : Call}
    {r r' : Backend σ REASM} {obs : Observation} (h : r.call S WIN c = some (r', obs))
    (herr : obs.isErr = true) :
    LosesNothing S WIN c r r' ↔ r.RefusesCall c ∧ r.CopiesOut S WIN := by
  have hW32 : WIN ≤ 32 := by omega
  cases c with
  | handleData seq flags payload =>
    obtain ⟨e, hcall⟩ := error_of_handleData h herr
    rcases handleData_error hcall with ⟨rfl, hrefused⟩ | ⟨hdelivered, r₁, hocc, hbase, hrun⟩
    · rw [losesNothing_self_iff hW32 h]
      exact ⟨fun hcopies => ⟨hrefused, hcopies⟩, fun hboth => hboth.2⟩
    · exact iff_of_false (not_losesNothing_of_loop hW hW32 hrun hocc hbase)
        fun hboth => hdelivered hboth.1
  | skipGap =>
    obtain ⟨e, hcall⟩ := error_of_skipGap h herr
    exact iff_of_false (not_losesNothing_of_loop hW hW32 (skipGap_error hcall) rfl rfl)
      fun hboth => hboth.1
  | takeMessage =>
    obtain ⟨-, rfl⟩ := Prod.mk.inj (Option.some.inj h)
    cases herr
  | consumeMessage =>
    obtain ⟨-, rfl⟩ := Prod.mk.inj (Option.some.inj h)
    cases herr

/-! ## Runs -/

/-- The states that calls without a panic reach. -/
inductive Reached (S : Slots σ) (WIN : Nat) : Backend σ REASM → Prop where
  | new : Reached S WIN (.new S REASM)
  | call {r r' : Backend σ REASM} {c : Call} {obs : Observation} :
      Reached S WIN r → r.call S WIN c = some (r', obs) → Reached S WIN r'

/-- The state behind a call that does not panic. -/
def after (S : Slots σ) (WIN : Nat) (r : Backend σ REASM) (c : Call) : Backend σ REASM :=
  ((r.call S WIN c).map Prod.fst).getD r

theorem exists_call {r : Backend σ REASM} {c : Call} (h : (r.call S WIN c).isSome = true) :
    ∃ obs, r.call S WIN c = some (r.after S WIN c, obs) := by
  obtain ⟨⟨r', obs⟩, hcall⟩ := Option.isSome_iff_exists.1 h
  exact ⟨obs, by rw [after, hcall]; rfl⟩

/-- A receiver of four slots that holds the last segment of a message, and has acknowledged it. -/
def holdsLast : FastReceiver 16 :=
  (new (FastReceiver.slotsOf 4 8) 16).after (FastReceiver.slotsOf 4 8) 4 (.handleData 2 .last [3])

/-- A continuation without a first segment is refused, and can be skipped; the segment stays. -/
theorem errors_lose_nothing_refused :
    LosesNothing (FastReceiver.slotsOf 4 8) 4 (.handleData 0 .continuation [1]) holdsLast
      holdsLast :=
  (errors_lose_nothing_iff (by decide) (by decide)
    (show call (FastReceiver.slotsOf 4 8) 4 holdsLast (.handleData 0 .continuation [1]) =
      some (_, .data (.error .reassemblyError)) from rfl)
    rfl).2 ⟨Or.inr (by decide), not_jams_nil⟩

/-- The last segment of a message arrives, and the two before it are skipped: with the second
skip the last segment is refused and lost, although it was acknowledged. -/
theorem acknowledged_segment_lost :
    ∃ (r r' : FastReceiver 16) (obs : Observation), Reached (FastReceiver.slotsOf 4 8) 4 r ∧
      r.call (FastReceiver.slotsOf 4 8) 4 .skipGap = some (r', obs) ∧ obs.isErr = true ∧
      ¬ LosesNothing (FastReceiver.slotsOf 4 8) 4 .skipGap r r' := by
  let S := FastReceiver.slotsOf 4 8
  let r₁ : FastReceiver 16 := (new S 16).after S 4 (.handleData 2 .last [3])
  let r₂ : FastReceiver 16 := r₁.after S 4 .skipGap
  have h₁ : ((new S 16).call S 4 (.handleData 2 .last [3])).isSome = true := by decide
  have h₂ : (r₁.call S 4 .skipGap).isSome = true := by decide
  have h₃ : (r₂.call S 4 .skipGap).isSome = true := by decide
  have herr : (r₂.call S 4 .skipGap).map (fun x => x.2.isErr) = some true := by decide
  obtain ⟨obs₁, h₁⟩ := exists_call h₁
  obtain ⟨obs₂, h₂⟩ := exists_call h₂
  obtain ⟨obs₃, h₃⟩ := exists_call h₃
  rw [h₃] at herr
  have hisErr : obs₃.isErr = true := Option.some.inj herr
  obtain ⟨e, hfail⟩ := error_of_skipGap h₃ hisErr
  exact ⟨r₂, _, obs₃, .call (.call .new h₁) h₂, h₃, hisErr,
    not_losesNothing_of_loop (by decide) (by decide) (skipGap_error hfail) rfl rfl⟩

end Backend

end Srspp
end Leodos
