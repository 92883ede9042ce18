/-
The reference backend.

`idealSlots` returns from each slot the packet that was put there.  A backend with
any other storage `Matches` the reference one while the loads of its occupied
slots agree, and a call keeps that agreement unless it buffers a packet whose
store damages one.  Results about the receive path are proved of the reference
backend and carried to the Fast and Packed ones along `matches_call`.
-/
import Leodos.Srspp.Receiver.Backend

namespace Leodos
namespace Srspp

open Spp

def idealSlots : Slots (Nat → SequenceFlag × Bytes) where
  new := fun _ => (.unsegmented, [])
  store s idx flags payload := some (Function.update s idx (flags, payload), .ok ())
  load s idx := some (s idx)
  finish s := s
  load_finish _ _ := rfl

abbrev IdealReceiver (REASM : Nat) := Backend (Nat → SequenceFlag × Bytes) REASM

variable {σ : Type} {REASM WIN : Nat}

/-- `r` is the reference state `q` over another storage. -/
structure Matches (S : Slots σ) (WIN : Nat) (r : Backend σ REASM) (q : IdealReceiver REASM) :
    Prop where
  base : r.base = q.base
  occupied : r.occupied = q.occupied
  reasm : r.reasm = q.reasm
  load : ∀ i < WIN, q.occupied.isSet i = true → S.load r.slots i = some (q.slots i)

/-- The call buffers a packet with number `seq`. -/
def Backend.Buffers (WIN : Nat) (r : Backend σ REASM) (seq : SequenceCount) : Prop :=
  r.base.distance seq ≠ 0 ∧ r.base.distance seq < maxAhead WIN ∧
    r.base.isOooDuplicate (r.base.distance seq) = false ∧
      r.occupied.isSet (slotIdx WIN seq) = false

instance (r : Backend σ REASM) (seq : SequenceCount) : Decidable (r.Buffers WIN seq) :=
  inferInstanceAs (Decidable (_ ∧ _ ∧ _ ∧ _))

/-- Storing a packet in slot `idx` succeeds, and afterwards slot `idx` returns the
packet and the other occupied slots return theirs. -/
def StoreKeeps (S : Slots σ) (WIN : Nat) (occ : Bitset) (s : σ) (idx : Nat)
    (flags : SequenceFlag) (payload : Bytes) : Prop :=
  ∃ s', S.store s idx flags payload = some (s', .ok ()) ∧
    S.load s' idx = some (flags, payload) ∧
      ∀ i < WIN, i ≠ idx → occ.isSet i = true → S.load s' i = S.load s i

section Simulation

variable {S : Slots σ} {r : Backend σ REASM} {q : IdealReceiver REASM}

theorem matches_new (S : Slots σ) (WIN REASM : Nat) :
    Matches S WIN (.new S REASM) (.new idealSlots REASM) :=
  ⟨rfl, rfl, rfl, by simp [Backend.new]⟩

theorem Matches.buffers_iff (h : Matches S WIN r q) (seq : SequenceCount) :
    r.Buffers WIN seq ↔ q.Buffers WIN seq := by
  simp only [Backend.Buffers, h.base, h.occupied]

theorem matches_deliverBuffered (hW : 0 < WIN) (hW32 : WIN ≤ 32)
    (fuel : Nat) (h : Matches S WIN r q) :
    ∃ r' q' res, r.deliverBuffered S WIN fuel = some (r', res) ∧
      q.deliverBuffered idealSlots WIN fuel = some (q', res) ∧ Matches S WIN r' q' ∧
        (r'.slots = r.slots ∨ r'.slots = S.finish r.slots) := by
  have hdone : Matches S WIN { r with slots := S.finish r.slots }
      { q with slots := idealSlots.finish q.slots } :=
    { h with load := fun i hi hset => (S.load_finish _ _).trans (h.load i hi hset) }
  induction fuel generalizing r q with
  | zero => exact ⟨_, _, .ok (), rfl, rfl, hdone, Or.inr rfl⟩
  | succ fuel ih =>
    have hidx : slotIdx WIN q.base.expectedSeq < WIN := Nat.mod_lt _ hW
    have hclear : ∀ i < WIN, (q.occupied.clear (slotIdx WIN q.base.expectedSeq)).isSet i = true →
        S.load r.slots i = some (q.slots i) := by
      intro i hi hset
      rw [Bitset.isSet_clear _ (by omega) (by omega), Bool.and_eq_true] at hset
      exact h.load i hi hset.1
    simp only [Backend.deliverBuffered, h.base, h.occupied, h.reasm]
    by_cases hset : q.occupied.isSet (slotIdx WIN q.base.expectedSeq) = true
    · rw [if_pos hset, if_pos hset, h.load _ hidx hset]
      simp only [idealSlots]
      cases hpush : q.reasm.push (q.slots (slotIdx WIN q.base.expectedSeq)).1
          (q.slots (slotIdx WIN q.base.expectedSeq)).2 with
      | error e =>
        simp only
        exact ⟨_, _, .error e, rfl, rfl, ⟨rfl, rfl, rfl, hclear⟩, Or.inl rfl⟩
      | ok reasm =>
        simp only
        have hnext : Matches S WIN
            { r with
              base := q.base.advance
              occupied := q.occupied.clear (slotIdx WIN q.base.expectedSeq)
              reasm }
            { q with
              base := q.base.advance
              occupied := q.occupied.clear (slotIdx WIN q.base.expectedSeq)
              reasm } := ⟨rfl, rfl, rfl, hclear⟩
        exact ih hnext
          { hnext with load := fun i hi hs => (S.load_finish _ _).trans (hnext.load i hi hs) }
    · rw [if_neg hset, if_neg hset]
      refine ⟨_, _, .ok (), rfl, rfl, ?_, Or.inr rfl⟩
      exact ⟨rfl, rfl, rfl, hdone.load⟩

/-- The call `c` damages no stored packet, the one it may buffer included. -/
def KeepsStored (S : Slots σ) (WIN : Nat) (r : Backend σ REASM) (c : Call) : Prop :=
  ∀ seq flags payload, c = .handleData seq flags payload → r.Buffers WIN seq →
    StoreKeeps S WIN r.occupied r.slots (slotIdx WIN seq) flags payload

theorem Matches.dataOutcome {r' : Backend σ REASM} {q' : IdealReceiver REASM}
    (h : Matches S WIN r q) (h' : Matches S WIN r' q') :
    Backend.dataOutcome WIN r r' = Backend.dataOutcome WIN q q' := by
  simp only [Backend.dataOutcome, h.base, h'.base, h'.occupied]

theorem matches_handleData (hW : 0 < WIN) (hW32 : WIN ≤ 32)
    (h : Matches S WIN r q) {seq : SequenceCount} {flags : SequenceFlag} {payload : Bytes}
    (hkeep : KeepsStored S WIN r (.handleData seq flags payload)) :
    ∃ r' q' res, r.handleData S WIN seq flags payload = some (r', res) ∧
      q.handleData idealSlots WIN seq flags payload = some (q', res) ∧ Matches S WIN r' q' := by
  have hbuf := hkeep seq flags payload rfl
  have hidx : slotIdx WIN seq < WIN := Nat.mod_lt _ hW
  simp only [Backend.handleData, h.base, h.reasm]
  by_cases hd : q.base.distance seq = 0
  · rw [if_pos hd, if_pos hd]
    cases hpush : q.reasm.push flags payload with
    | error e => exact ⟨_, _, _, rfl, rfl, h⟩
    | ok reasm =>
      have hnext : Matches S WIN { r with base := q.base.advance, reasm }
          { q with base := q.base.advance, reasm } := ⟨rfl, h.occupied, rfl, h.load⟩
      obtain ⟨r', q', res, hr, hq, hm, -⟩ := matches_deliverBuffered hW hW32 WIN hnext
      simp only [hr, hq]
      cases res with
      | error e => exact ⟨_, _, _, rfl, rfl, hm⟩
      | ok u => exact ⟨_, _, _, rfl, by rw [h.dataOutcome hm], hm⟩
  · rw [if_neg hd, if_neg hd]
    by_cases hnew : q.base.distance seq < maxAhead WIN ∧
        q.base.isOooDuplicate (q.base.distance seq) = false
    · rw [if_pos hnew, if_pos hnew]
      simp only [Backend.storeOoo, h.occupied]
      by_cases hset : q.occupied.isSet (slotIdx WIN seq) = true
      · rw [if_pos hset, if_pos hset]
        have hm : Matches S WIN { r with base := r.base.recordOoo (q.base.distance seq) }
            { q with base := q.base.recordOoo (q.base.distance seq) } :=
          { h with base := by rw [h.base] }
        exact ⟨_, _, _, rfl, by rw [h.dataOutcome hm], hm⟩
      · rw [if_neg hset, if_neg hset]
        have hb : r.Buffers WIN seq :=
          (h.buffers_iff seq).2 ⟨hd, hnew.1, hnew.2, by simpa using hset⟩
        obtain ⟨s', hst, hself, hrest⟩ := hbuf hb
        rw [hst]
        simp only [idealSlots]
        have hm : Matches S WIN
            { r with
              base := r.base.recordOoo (q.base.distance seq)
              occupied := q.occupied.set (slotIdx WIN seq)
              slots := s' }
            { q with
              base := q.base.recordOoo (q.base.distance seq)
              occupied := q.occupied.set (slotIdx WIN seq)
              slots := Function.update q.slots (slotIdx WIN seq) (flags, payload) } := by
          refine ⟨by rw [h.base], rfl, h.reasm, ?_⟩
          intro i hi hs
          by_cases hne : i = slotIdx WIN seq
          · rw [hne, hself]
            simp only [Function.update_self]
          · rw [Bitset.isSet_set _ (by omega) (by omega)] at hs
            have hs' : q.occupied.isSet i = true := by simpa [hne] using hs
            rw [hrest i hi hne (h.occupied ▸ hs')]
            simp only [Function.update_of_ne hne]
            exact h.load i hi hs'
        exact ⟨_, _, _, rfl, by rw [h.dataOutcome hm], hm⟩
    · rw [if_neg hnew, if_neg hnew]
      exact ⟨_, _, _, rfl, by rw [h.dataOutcome h], h⟩

theorem matches_call (hW : 0 < WIN) (hW32 : WIN ≤ 32)
    (h : Matches S WIN r q) {c : Call} (hkeep : KeepsStored S WIN r c) :
    ∃ r' q' obs, r.call S WIN c = some (r', obs) ∧
      q.call idealSlots WIN c = some (q', obs) ∧ Matches S WIN r' q' := by
  cases c with
  | handleData seq flags payload =>
    obtain ⟨r', q', res, hr, hq, hm⟩ := matches_handleData hW hW32 h hkeep
    exact ⟨r', q', .data res, by simp [Backend.call, hr], by simp [Backend.call, hq], hm⟩
  | skipGap =>
    have hnext : Matches S WIN { r with reasm := r.reasm.abandon, base := r.base.advance }
        { q with reasm := q.reasm.abandon, base := q.base.advance } :=
      ⟨by rw [h.base], h.occupied, by rw [h.reasm], h.load⟩
    obtain ⟨r', q', res, hr, hq, hm, -⟩ := matches_deliverBuffered hW hW32 WIN hnext
    simp only [Backend.call, Backend.skipGap, hr, hq]
    cases res with
    | error e => exact ⟨_, _, _, rfl, rfl, hm⟩
    | ok u => exact ⟨_, _, _, rfl, by rw [hm.occupied]; rfl, hm⟩
  | takeMessage | consumeMessage =>
    refine ⟨_, q.takeMessage.2, _, rfl, ?_, ⟨h.base, h.occupied, ?_, h.load⟩⟩
    · simp only [Backend.call, Backend.consumeMessage, Backend.takeMessage, h.reasm]
    · exact congrArg (fun x => x.takeMessage.2) h.reasm

/-! ## Runs -/

/-- What a driver sees of each call: the result and the window afterwards.  A
panic ends the trace. -/
def Backend.trace (S : Slots σ) (WIN : Nat) :
    Backend σ REASM → List Call → List (Option (Observation × ReceiverBase))
  | _, [] => []
  | r, c :: cs =>
      match r.call S WIN c with
      | none => [none]
      | some (r', obs) => some (obs, r'.base) :: trace S WIN r' cs

/-- Every step of the run meets `ok` in the state it starts in. -/
def Backend.Meets (S : Slots σ) (WIN : Nat) (ok : Backend σ REASM → Call → Prop) :
    Backend σ REASM → List Call → Prop
  | _, [] => True
  | r, c :: cs => ok r c ∧ ∀ r' obs, r.call S WIN c = some (r', obs) → Meets S WIN ok r' cs

/-! ## How a call changes the storage -/

theorem deliverBuffered_slots {fuel : Nat} {r r' : Backend σ REASM}
    {res : Except ReceiverError Unit} (h : r.deliverBuffered S WIN fuel = some (r', res)) :
    r'.slots = r.slots ∨ r'.slots = S.finish r.slots := by
  induction fuel generalizing r with
  | zero =>
    simp only [Backend.deliverBuffered, Option.some.injEq, Prod.mk.injEq] at h
    exact Or.inr (h.1 ▸ rfl)
  | succ fuel ih =>
    simp only [Backend.deliverBuffered] at h
    split at h
    · split at h
      · cases h
      · split at h
        · simp only [Option.some.injEq, Prod.mk.injEq] at h
          exact Or.inl (h.1 ▸ rfl)
        · have hs := ih h
          exact hs
    · simp only [Option.some.injEq, Prod.mk.injEq] at h
      exact Or.inr (h.1 ▸ rfl)

theorem call_slots {r r' : Backend σ REASM} {c : Call} {obs : Observation}
    (h : r.call S WIN c = some (r', obs)) :
    r'.slots = r.slots ∨ r'.slots = S.finish r.slots ∨
      ∃ seq flags payload, c = .handleData seq flags payload ∧
        S.store r.slots (slotIdx WIN seq) flags payload = some (r'.slots, .ok ()) := by
  cases c with
  | handleData seq flags payload =>
    simp only [Backend.call, Option.map_eq_some_iff, Prod.mk.injEq] at h
    obtain ⟨⟨r₁, res⟩, hd, rfl, -⟩ := h
    simp only [Backend.handleData] at hd
    split at hd
    · split at hd
      · simp only [Option.some.injEq, Prod.mk.injEq] at hd
        exact Or.inl (hd.1 ▸ rfl)
      · split at hd <;> simp only [Option.some.injEq, Prod.mk.injEq, reduceCtorEq] at hd
        all_goals
          rename_i hloop
          rcases deliverBuffered_slots hloop with hs | hs
          · exact Or.inl (hd.1 ▸ hs)
          · exact Or.inr (Or.inl (hd.1 ▸ hs))
    · split at hd
      · simp only [Backend.storeOoo] at hd
        split at hd
        · cases hd
        · rename_i hs
          simp only [Option.some.injEq, Prod.mk.injEq] at hd
          split at hs
          · simp at hs
          · split at hs <;> simp at hs
            exact Or.inl (hd.1 ▸ hs.1 ▸ rfl)
        · rename_i hs
          simp only [Option.some.injEq, Prod.mk.injEq] at hd
          split at hs
          · simp only [Option.some.injEq, Prod.mk.injEq] at hs
            exact Or.inl (hd.1 ▸ hs.1 ▸ rfl)
          · split at hs <;> simp at hs
            rename_i hst
            subst hs
            exact Or.inr (Or.inr ⟨seq, flags, payload, rfl, hd.1 ▸ hst⟩)
      · simp only [Option.some.injEq, Prod.mk.injEq] at hd
        exact Or.inl (hd.1 ▸ rfl)
  | skipGap =>
    simp only [Backend.call, Option.map_eq_some_iff, Prod.mk.injEq] at h
    obtain ⟨⟨r₁, res⟩, hd, rfl, -⟩ := h
    simp only [Backend.skipGap] at hd
    split at hd <;> simp only [Option.some.injEq, Prod.mk.injEq, reduceCtorEq] at hd
    all_goals
      rename_i hloop
      rcases deliverBuffered_slots hloop with hs | hs
      · exact Or.inl (hd.1 ▸ hs)
      · exact Or.inr (Or.inl (hd.1 ▸ hs))
  | takeMessage | consumeMessage =>
    simp only [Backend.call, Option.some.injEq, Prod.mk.injEq] at h
    exact Or.inl (h.1 ▸ rfl)

end Simulation

end Srspp
end Leodos
