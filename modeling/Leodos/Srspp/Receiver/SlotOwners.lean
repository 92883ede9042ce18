/-
Which packet each reorder slot holds.

A slot is chosen by the sequence number modulo `WIN`.  Where `WIN` does not divide
the sequence space, two numbers of one window meet in a slot around the wrap, and
the code looks at the slot only.  `Owned` is the invariant that every occupied slot
belongs to exactly one received number; it survives a call unless the packet to be
buffered finds its slot taken, or the delivery loop stops in front of a slot that
belongs to a later number.
-/
import Leodos.Srspp.Receiver.Equivalence
import Leodos.Srspp.Receiver.Refine
import Leodos.Transition.System

namespace Leodos
namespace Srspp

open Spp Reorder Transition

variable {σ : Type} {S : Slots σ} {REASM WIN : Nat}

/-- Every received number ahead of `next` has a slot of its own with its packet, and
there are no other occupied slots. -/
structure Owned (S : Slots σ) (WIN : Nat) (r : Backend σ REASM) (w : Window Packet) : Prop where
  expected : r.base.expectedSeq = seqOf w.next
  bitmap : ∀ k < 16, (r.base.recvBitmap.getLsbD k = true ↔ Window.Holds w (w.next + 1 + k))
  ahead : ∀ a, Window.Holds w a → w.next ≤ a ∧ a < w.next + WIN
  packet : ∀ a p, w.held a = some p → r.occupied.isSet (slotIdx WIN (seqOf a)) = true ∧
    S.load r.slots (slotIdx WIN (seqOf a)) = some p
  owner : ∀ i < WIN, r.occupied.isSet i = true →
    ∃ a, Window.Holds w a ∧ slotIdx WIN (seqOf a) = i
  inj : ∀ a b, Window.Holds w a → Window.Holds w b →
    slotIdx WIN (seqOf a) = slotIdx WIN (seqOf b) → a = b

/-- Between two calls the expected number is not among the received ones. -/
structure OwnedAtRest (S : Slots σ) (WIN : Nat) (r : Backend σ REASM) (w : Window Packet) : Prop
    extends Owned S WIN r w where
  gap : ¬ Window.Holds w w.next

/-- The slot of the first missing number from `next` on belongs to no later one. -/
def EndsClear (WIN : Nat) (w : Window Packet) : Prop :=
  ∀ n, w.next ≤ n → (∀ a, w.next ≤ a → a < n → Window.Holds w a) → ¬ Window.Holds w n →
    ∀ b, Window.Holds w b → slotIdx WIN (seqOf b) = slotIdx WIN (seqOf n) → b < n

theorem holds_iff {w : Window Packet} {a : Nat} :
    Window.Holds w a ↔ ∃ p, w.held a = some p := Option.isSome_iff_exists

theorem ownedAtRest_new (S : Slots σ) (WIN REASM : Nat) :
    OwnedAtRest S WIN (.new S REASM) .empty where
  expected := rfl
  bitmap := by simp [Backend.new, ReceiverBase.new, Window.Holds, Window.empty]
  ahead := by simp [Window.Holds, Window.empty]
  packet := by simp [Window.empty]
  owner := by simp [Backend.new]
  inj := by simp [Window.Holds, Window.empty]
  gap := by simp [Window.Holds, Window.empty]

section Loop

variable (hW : 0 < WIN) (hW16 : WIN ≤ 16)
variable {r r' : Backend σ REASM} {w : Window Packet}

theorem advance_bitmap (hW16 : WIN ≤ 16)
    (hbit : ∀ k < 16, (r.base.recvBitmap.getLsbD k = true ↔ Window.Holds w (w.next + 1 + k)))
    (hahead : ∀ a, Window.Holds w a → a < w.next + WIN) {k : Nat} (hk : k < 16) :
    r.base.advance.recvBitmap.getLsbD k = true ↔ Window.Holds w (w.next + 1 + 1 + k) := by
  rw [advance_bit]
  by_cases hk' : k + 1 < 16
  · rw [hbit (k + 1) hk', show w.next + 1 + (k + 1) = w.next + 1 + 1 + k by omega]
  · have hfalse : r.base.recvBitmap.getLsbD (k + 1) = false := BitVec.getLsbD_of_ge _ _ (by omega)
    rw [hfalse]
    constructor
    · intro h
      cases h
    · intro h
      have := hahead _ h
      omega

include hW16 in
theorem OwnedAtRest.pass (h : OwnedAtRest S WIN r w) (reasm : Reassembly REASM) :
    Owned S WIN { r with reasm, base := r.base.advance } w.pass where
  expected := by
    rw [ReceiverBase.advance_expectedSeq, h.expected, seqOf_succ]
    rfl
  bitmap := fun k hk => advance_bitmap hW16 h.bitmap (fun a ha => (h.ahead a ha).2) hk
  ahead := by
    intro a ha
    have hr := h.ahead a ha
    have hne : a ≠ w.next := fun he => h.gap (he ▸ ha)
    simp only [Window.pass]
    omega
  packet := h.packet
  owner := h.owner
  inj := h.inj

include hW hW16 in
theorem Owned.release (h : Owned S WIN r w) {p : Packet} (hp : w.held w.next = some p)
    (reasm : Reassembly REASM) :
    Owned S WIN
      { r with
        base := r.base.advance
        occupied := r.occupied.clear (slotIdx WIN r.base.expectedSeq)
        reasm }
      ⟨w.next + 1, Function.update w.held w.next none⟩ where
  expected := by
    rw [ReceiverBase.advance_expectedSeq, h.expected, seqOf_succ]
  bitmap := by
    intro k hk
    rw [advance_bitmap hW16 h.bitmap (fun a ha => (h.ahead a ha).2) hk, holds_release]
    exact ⟨fun hh => ⟨hh, by simp only; omega⟩, fun hh => hh.1⟩
  ahead := by
    intro a ha
    rw [holds_release] at ha
    have hr := h.ahead a ha.1
    have hne := ha.2
    simp only
    omega
  packet := by
    intro a q hq
    have hne : a ≠ w.next := by
      rintro rfl
      simp at hq
    simp only [Function.update_of_ne hne] at hq
    obtain ⟨hset, hload⟩ := h.packet a q hq
    refine ⟨?_, hload⟩
    have hia := slotIdx_lt hW (seqOf a)
    have hin := slotIdx_lt hW r.base.expectedSeq
    have hapart : slotIdx WIN (seqOf a) ≠ slotIdx WIN r.base.expectedSeq := by
      rw [h.expected]
      exact fun he => hne (h.inj a w.next (holds_iff.2 ⟨q, hq⟩) (holds_iff.2 ⟨p, hp⟩) he)
    rw [Bitset.isSet_clear _ (by omega) (by omega), hset]
    simp [hapart]
  owner := by
    intro i hi hset
    have hin := slotIdx_lt hW r.base.expectedSeq
    rw [Bitset.isSet_clear _ (by omega) (by omega), Bool.and_eq_true] at hset
    obtain ⟨a, ha, rfl⟩ := h.owner i hi hset.1
    refine ⟨a, ?_, rfl⟩
    rw [holds_release]
    refine ⟨ha, ?_⟩
    rintro rfl
    have hne := hset.2
    rw [h.expected] at hne
    simp at hne
  inj := by
    intro a b ha hb he
    rw [holds_release] at ha hb
    exact h.inj a b ha.1 hb.1 he

theorem EndsClear.release (h : EndsClear WIN w) (hn : Window.Holds w w.next) :
    EndsClear WIN ⟨w.next + 1, Function.update w.held w.next none⟩ := by
  intro n hle hrun hnot b hb he
  rw [holds_release] at hrun hnot hb
  simp only at hle
  refine h n (by omega) ?_ (fun hh => hnot ⟨hh, by omega⟩) b hb.1 he
  intro a hlo hhi
  by_cases ha : a = w.next
  · rw [ha]
    exact hn
  · have hlo' : w.next + 1 ≤ a := by omega
    exact (hrun a hlo' hhi).1

include hW hW16 in
theorem Owned.deliverBuffered {fuel : Nat} (h : Owned S WIN r w) (hclear : EndsClear WIN w)
    (hfuel : ∀ a, Window.Holds w a → a < w.next + fuel)
    (hd : r.deliverBuffered S WIN fuel = some (r', .ok ())) :
    OwnedAtRest S WIN r' (w.release fuel).2 := by
  have hdone (hn : ¬ Window.Holds w w.next) :
      OwnedAtRest S WIN { r with slots := S.finish r.slots } w :=
    { h with
      packet := fun a p ha => ⟨(h.packet a p ha).1, (S.load_finish _ _).trans (h.packet a p ha).2⟩
      gap := hn }
  induction fuel generalizing r w with
  | zero =>
    simp only [Backend.deliverBuffered, Option.some.injEq, Prod.mk.injEq] at hd
    have hn : ¬ Window.Holds w w.next := fun hn => by
      have := hfuel _ hn
      omega
    rw [← hd.1]
    exact hdone hn
  | succ fuel ih =>
    simp only [Backend.deliverBuffered] at hd
    cases hnext : w.held w.next with
    | none =>
      have hn : ¬ Window.Holds w w.next := by simp [Window.Holds, hnext]
      have hset : ¬ r.occupied.isSet (slotIdx WIN r.base.expectedSeq) = true := by
        intro hs
        obtain ⟨b, hb, hslot⟩ := h.owner _ (slotIdx_lt hW _) hs
        rw [h.expected] at hslot
        have hlt := hclear w.next (Nat.le_refl _) (fun a hlo hhi => by omega) hn b hb hslot
        have hle := (h.ahead b hb).1
        omega
      rw [if_neg hset, Option.some.injEq, Prod.mk.injEq] at hd
      simp only [Window.release, hnext]
      rw [← hd.1]
      exact hdone hn
    | some p =>
      have hn : Window.Holds w w.next := holds_iff.2 ⟨p, hnext⟩
      obtain ⟨hset, hload⟩ := h.packet _ _ hnext
      rw [← h.expected] at hset hload
      rw [if_pos hset, hload] at hd
      simp only at hd
      cases hpush : r.reasm.push p.1 p.2 with
      | error e =>
        rw [hpush] at hd
        simp at hd
      | ok reasm =>
        rw [hpush] at hd
        simp only [Window.release, hnext]
        have hrel := h.release hW hW16 hnext reasm
        refine ih hrel (hclear.release hn) (fun a ha => ?_) hd (fun hgap => ?_)
        · rw [holds_release] at ha
          have := hfuel a ha.1
          simp only
          omega
        · exact
            { hrel with
              packet := fun a q ha =>
                ⟨(hrel.packet a q ha).1, (S.load_finish _ _).trans (hrel.packet a q ha).2⟩
              gap := hgap }

end Loop

/-! ## The calls -/

namespace Backend

/-- The slot of the first number behind the expected one that is not marked received
is free, or in use for one of the marked numbers before it. -/
def EndsFree (WIN : Nat) (r : Backend σ REASM) : Prop :=
  ∀ k < 16, (∀ j < k, r.base.recvBitmap.getLsbD j = true) →
    r.base.recvBitmap.getLsbD k = false →
      r.occupied.isSet (slotIdx WIN (r.base.expectedSeq + BitVec.ofNat 14 (1 + k))) = true →
        ∃ j < k, slotIdx WIN (r.base.expectedSeq + BitVec.ofNat 14 (1 + j)) =
          slotIdx WIN (r.base.expectedSeq + BitVec.ofNat 14 (1 + k))

instance (r : Backend σ REASM) : Decidable (r.EndsFree WIN) :=
  inferInstanceAs (Decidable (∀ k < 16, (∀ j < k, _ = _) → _ = _ → _ = _ → ∃ j < k, _ = _))

/-- The packet to be buffered fits a slot and finds its own one free, and the packets
to be delivered end in front of a slot that no later one uses. -/
def SlotsFree (WIN MTU : Nat) (r : Backend σ REASM) : Call → Prop
  | .handleData seq _ payload =>
      if r.base.distance seq = 0 then r.EndsFree WIN
      else r.base.distance seq < WIN → r.base.isOooDuplicate (r.base.distance seq) = false →
        payload.length ≤ MTU ∧ payload.length < 65536 ∧
          r.occupied.isSet (slotIdx WIN seq) = false
  | .skipGap => r.EndsFree WIN
  | .takeMessage | .consumeMessage => True

instance (MTU : Nat) (r : Backend σ REASM) : (c : Call) → Decidable (r.SlotsFree WIN MTU c)
  | .handleData seq _ payload =>
      inferInstanceAs (Decidable (if r.base.distance seq = 0 then r.EndsFree WIN
        else r.base.distance seq < WIN → r.base.isOooDuplicate (r.base.distance seq) = false →
          payload.length ≤ MTU ∧ payload.length < 65536 ∧
            r.occupied.isSet (slotIdx WIN seq) = false))
  | .skipGap => inferInstanceAs (Decidable (r.EndsFree WIN))
  | .takeMessage | .consumeMessage => .isTrue trivial

end Backend

/-- What the numbers received ahead of their turn are after a call. -/
def receivedAhead (WIN : Nat) (w : Window Packet) : Call → Window Packet
  | .handleData seq flags payload =>
      (w.accept WIN (w.next + (seq - seqOf w.next).toNat) (flags, payload)).2
  | .skipGap => (w.pass.release WIN).2
  | .takeMessage | .consumeMessage => w

def Observation.ErrorFree : Observation → Prop
  | .data res => ∃ outcome, res = .ok outcome
  | .gap res => ∃ outcome, res = .ok outcome
  | .message _ => True

section Calls

variable (hW : 0 < WIN) (hW16 : WIN ≤ 16)
variable {r r' : Backend σ REASM} {w : Window Packet}

include hW16 in
theorem OwnedAtRest.endsClear (h : OwnedAtRest S WIN r w) (hends : r.EndsFree WIN) :
    EndsClear WIN w.pass := by
  intro n hle hrun hnot b hb he
  simp only [Window.pass] at hle hrun
  have hlow : n < w.next + 1 + 16 := by
    by_cases hlt : n < w.next + 1 + 16
    · exact hlt
    · have := (h.ahead (w.next + 16) (hrun _ (by omega) (by omega))).2
      omega
  obtain ⟨p, hp⟩ := holds_iff.1 hb
  have hset := (h.packet b p hp).1
  have hnum : ∀ k, r.base.expectedSeq + BitVec.ofNat 14 (1 + k) = seqOf (w.next + 1 + k) := by
    intro k
    rw [h.expected, seqOf_add, Nat.add_assoc]
  have hbits : ∀ j < n - (w.next + 1), r.base.recvBitmap.getLsbD j = true := by
    intro j hj
    rw [h.bitmap j (by omega)]
    exact hrun _ (by omega) (by omega)
  have hbit : r.base.recvBitmap.getLsbD (n - (w.next + 1)) = false := by
    rw [Bool.eq_false_iff, Ne, h.bitmap _ (by omega),
      show w.next + 1 + (n - (w.next + 1)) = n by omega]
    exact hnot
  have hends' := hends (n - (w.next + 1)) (by omega) hbits hbit
  simp only [hnum] at hends'
  rw [show w.next + 1 + (n - (w.next + 1)) = n by omega, ← he] at hends'
  obtain ⟨j, hj, hslot⟩ := hends' hset
  have hbj := h.inj _ b (hrun (w.next + 1 + j) (by omega) (by omega)) hb hslot
  omega

include hW hW16 in
theorem OwnedAtRest.advance (h : OwnedAtRest S WIN r w) (hends : r.EndsFree WIN)
    {reasm : Reassembly REASM}
    (hd : Backend.deliverBuffered S WIN WIN { r with reasm, base := r.base.advance } =
      some (r', .ok ())) :
    OwnedAtRest S WIN r' (w.pass.release WIN).2 := by
  refine (h.pass hW16 reasm).deliverBuffered hW hW16 (h.endsClear hW16 hends) (fun a ha => ?_) hd
  have := (h.ahead a ha).2
  simp only [Window.pass]
  omega

include hW hW16 in
theorem OwnedAtRest.store (h : OwnedAtRest S WIN r w) {seq : SequenceCount}
    {flags : SequenceFlag} {payload : Bytes} {d : Nat} (hseq : seq = seqOf (w.next + d))
    (hd : 0 < d) (hdW : d < WIN) (hfree : r.occupied.isSet (slotIdx WIN seq) = false)
    {slots : σ} (hself : S.load slots (slotIdx WIN seq) = some (flags, payload))
    (hrest : ∀ i < WIN, i ≠ slotIdx WIN seq → r.occupied.isSet i = true →
      S.load slots i = S.load r.slots i) :
    OwnedAtRest S WIN
      { r with
        base := r.base.recordOoo d
        occupied := r.occupied.set (slotIdx WIN seq)
        slots }
      { w with held := Function.update w.held (w.next + d) (some (flags, payload)) } := by
  have hidx := slotIdx_lt hW seq
  have hholds : Window.Holds
      { w with held := Function.update w.held (w.next + d) (some (flags, payload)) } =
        fun b => Window.Holds w b ∨ b = w.next + d := by
    funext b
    by_cases hb : b = w.next + d
    · simp [Window.Holds, hb]
    · simp [Window.Holds, hb]
  have hother : ∀ b, Window.Holds w b → slotIdx WIN (seqOf b) ≠ slotIdx WIN seq := by
    intro b hb he
    obtain ⟨p, hp⟩ := holds_iff.1 hb
    rw [← he, (h.packet b p hp).1] at hfree
    cases hfree
  refine ⟨⟨h.expected, fun k hk => ?_, fun a ha => ?_, fun a p ha => ?_, fun i hi hset => ?_,
    fun a b ha hb he => ?_⟩, ?_⟩
  · rw [recordOoo_bit _ (by omega), Bool.or_eq_true, h.bitmap k hk, decide_eq_true_iff, hholds]
    exact or_congr_right ⟨fun hh => by simp only; omega, fun hh => by simp only at hh; omega⟩
  · rw [hholds] at ha
    rcases ha with ha | rfl
    · exact h.ahead a ha
    · simp only
      omega
  · by_cases hab : a = w.next + d
    · subst hab
      simp only [Function.update_self, Option.some.injEq] at ha
      rw [← hseq, ← ha, Bitset.isSet_set _ (by omega) (by omega)]
      exact ⟨by simp, hself⟩
    · simp only [Function.update_of_ne hab] at ha
      obtain ⟨hset, hload⟩ := h.packet a p ha
      have hlt := slotIdx_lt hW (seqOf a)
      have hne := hother a (holds_iff.2 ⟨p, ha⟩)
      rw [Bitset.isSet_set _ (by omega) (by omega), hset]
      exact ⟨rfl, (hrest _ hlt hne hset).trans hload⟩
  · rw [Bitset.isSet_set _ (by omega) (by omega), Bool.or_eq_true, decide_eq_true_iff] at hset
    rcases hset with hset | rfl
    · obtain ⟨a, ha, hslot⟩ := h.owner i hi hset
      refine ⟨a, ?_, hslot⟩
      rw [hholds]
      exact Or.inl ha
    · refine ⟨w.next + d, ?_, by rw [← hseq]⟩
      rw [hholds]
      exact Or.inr rfl
  · rw [hholds] at ha hb
    rcases ha with ha | rfl
    · rcases hb with hb | rfl
      · exact h.inj a b ha hb he
      · rw [← hseq] at he
        exact absurd he (hother a ha)
    · rcases hb with hb | rfl
      · rw [← hseq] at he
        exact absurd he.symm (hother b hb)
      · rfl
  · rw [hholds]
    rintro (hh | hh)
    · exact h.gap hh
    · simp only at hh
      omega

/-- Storing in a free slot of its own keeps what the other slots hold. -/
def FreshStores (S : Slots σ) (WIN MTU : Nat) (r : Backend σ REASM) : Prop :=
  ∀ seq flags payload, payload.length ≤ MTU → payload.length < 65536 →
    StoreKeeps S WIN r.occupied r.slots (slotIdx WIN seq) flags payload

include hW hW16 in
theorem OwnedAtRest.handleData {MTU : Nat} (h : OwnedAtRest S WIN r w)
    (hstore : FreshStores S WIN MTU r) {seq : SequenceCount} {flags : SequenceFlag}
    {payload : Bytes} (hfree : r.SlotsFree WIN MTU (.handleData seq flags payload))
    {outcome : DataOutcome} (hd : r.handleData S WIN seq flags payload = some (r', .ok outcome)) :
    OwnedAtRest S WIN r' (receivedAhead WIN w (.handleData seq flags payload)) := by
  have hmax : maxAhead WIN = WIN := Nat.mod_eq_of_lt (by omega)
  have hdist : r.base.distance seq = (seq - seqOf w.next).toNat := by
    rw [ReceiverBase.distance, h.expected]
  simp only [Backend.SlotsFree, hdist] at hfree
  simp only [Backend.handleData, hdist, hmax] at hd
  have hseq := seqOf_add_sub w.next seq
  simp only [receivedAhead, Window.accept]
  generalize (seq - seqOf w.next).toNat = d at hfree hd hseq ⊢
  by_cases hd0 : d = 0
  · rw [if_pos hd0] at hfree hd
    rw [if_pos (show w.next + d = w.next by omega)]
    cases hpush : r.reasm.push flags payload with
    | error e =>
      rw [hpush] at hd
      simp at hd
    | ok reasm =>
      rw [hpush] at hd
      simp only at hd
      split at hd
      · cases hd
      · simp at hd
      · rename_i hloop
        simp only [Option.some.injEq, Prod.mk.injEq] at hd
        exact hd.1 ▸ h.advance hW hW16 hfree hloop
  · rw [if_neg hd0] at hfree hd
    rw [if_neg (show w.next + d ≠ w.next by omega)]
    have hfresh : d < WIN → (r.base.isOooDuplicate d = false ↔ w.held (w.next + d) = none) := by
      intro hlt
      have hbit := h.bitmap (d - 1) (by omega)
      rw [show w.next + 1 + (d - 1) = w.next + d by omega] at hbit
      rw [isOooDuplicate_eq _ (by omega), Bool.eq_false_iff, Ne, hbit, Window.Holds]
      cases w.held (w.next + d) <;> simp
    by_cases hnew : d < WIN ∧ r.base.isOooDuplicate d = false
    · obtain ⟨hmtu, hu16, hslot⟩ := hfree hnew.1 hnew.2
      obtain ⟨slots, hst, hself, hrest⟩ := hstore seq flags payload hmtu hu16
      have hnone := (hfresh hnew.1).1 hnew.2
      rw [if_pos hnew] at hd
      simp only [Backend.storeOoo, hslot, hst, Bool.false_eq_true, if_false, Option.some.injEq,
        Prod.mk.injEq] at hd
      have hwin : w.next < w.next + d ∧ w.next + d < w.next + WIN ∧
          (w.held (w.next + d)).isNone = true :=
        ⟨by omega, by omega, by rw [hnone]; rfl⟩
      rw [if_pos hwin, ← hd.1]
      exact h.store hW hW16 hseq.symm (by omega) hnew.1 hslot hself hrest
    · rw [if_neg hnew, Option.some.injEq, Prod.mk.injEq] at hd
      have hwin : ¬ (w.next < w.next + d ∧ w.next + d < w.next + WIN ∧
          (w.held (w.next + d)).isNone = true) := by
        rintro ⟨-, hlt, hnone⟩
        have hlt' : d < WIN := by omega
        exact hnew ⟨hlt', (hfresh hlt').2 (by simpa using hnone)⟩
      rw [if_neg hwin, ← hd.1]
      exact h

theorem OwnedAtRest.call {MTU : Nat} (hW : 0 < WIN) (hW16 : WIN ≤ 16)
    (h : OwnedAtRest S WIN r w) (hstore : FreshStores S WIN MTU r) {c : Call}
    (hfree : r.SlotsFree WIN MTU c) {obs : Observation} (hobs : obs.ErrorFree)
    (hc : r.call S WIN c = some (r', obs)) : OwnedAtRest S WIN r' (receivedAhead WIN w c) := by
  cases c with
  | handleData seq flags payload =>
    simp only [Backend.call, Option.map_eq_some_iff, Prod.mk.injEq] at hc
    obtain ⟨⟨r₁, res⟩, hd, rfl, rfl⟩ := hc
    obtain ⟨outcome, rfl⟩ := hobs
    exact h.handleData hW hW16 hstore hfree hd
  | skipGap =>
    simp only [Backend.call, Option.map_eq_some_iff, Prod.mk.injEq] at hc
    obtain ⟨⟨r₁, res⟩, hd, rfl, rfl⟩ := hc
    obtain ⟨outcome, rfl⟩ := hobs
    simp only [Backend.skipGap] at hd
    split at hd
    · cases hd
    · simp at hd
    · rename_i hloop
      simp only [Option.some.injEq, Prod.mk.injEq] at hd
      exact hd.1 ▸ h.advance hW hW16 hfree hloop
  | takeMessage | consumeMessage =>
    simp only [Backend.call, Option.some.injEq, Prod.mk.injEq] at hc
    rw [← hc.1]
    exact { h with }

end Calls

/-! ## Runs -/

/-- A bit of the map is set exactly for the numbers whose slot holds the packet that
was received for them, and every occupied slot is that of exactly one such number. -/
def SlotInvariant (S : Slots σ) (WIN : Nat) (r : Backend σ REASM) (w : Window Packet) : Prop :=
  (∀ d, 1 ≤ d → d < WIN →
    (r.base.recvBitmap.getLsbD (d - 1) = true ↔
      ∃ a p, seqOf a = r.base.expectedSeq + BitVec.ofNat 14 d ∧ w.held a = some p ∧
        r.occupied.isSet (slotIdx WIN (r.base.expectedSeq + BitVec.ofNat 14 d)) = true ∧
          S.load r.slots (slotIdx WIN (r.base.expectedSeq + BitVec.ofNat 14 d)) = some p)) ∧
    ∀ i < WIN, r.occupied.isSet i = true →
      ∃! d, 1 ≤ d ∧ d < WIN ∧ r.base.recvBitmap.getLsbD (d - 1) = true ∧
        slotIdx WIN (r.base.expectedSeq + BitVec.ofNat 14 d) = i

theorem OwnedAtRest.bit_iff (hW16 : WIN ≤ 16) {r : Backend σ REASM} {w : Window Packet}
    (h : OwnedAtRest S WIN r w) {d : Nat} (hd : 1 ≤ d) (hdW : d < WIN) :
    r.base.recvBitmap.getLsbD (d - 1) = true ↔ Window.Holds w (w.next + d) := by
  rw [h.bitmap _ (by omega), show w.next + 1 + (d - 1) = w.next + d by omega]

theorem OwnedAtRest.slotInvariant (hW16 : WIN ≤ 16) {r : Backend σ REASM} {w : Window Packet}
    (h : OwnedAtRest S WIN r w) : SlotInvariant S WIN r w := by
  have hnum : ∀ d, r.base.expectedSeq + BitVec.ofNat 14 d = seqOf (w.next + d) := fun d => by
    rw [h.expected, seqOf_add]
  refine ⟨fun d hd hdW => ?_, fun i hi hset => ?_⟩
  · rw [h.bit_iff hW16 hd hdW, hnum]
    constructor
    · intro hh
      obtain ⟨p, hp⟩ := holds_iff.1 hh
      exact ⟨_, p, rfl, hp, h.packet _ p hp⟩
    · rintro ⟨a, p, ha, hp, -⟩
      have hh : Window.Holds w a := holds_iff.2 ⟨p, hp⟩
      have hr := h.ahead a hh
      have hmod := seqOf_inj ha
      have he : a = w.next + d := by omega
      exact he ▸ hh
  · obtain ⟨a, ha, rfl⟩ := h.owner i hi hset
    have hr := h.ahead a ha
    have hne : a ≠ w.next := fun he => h.gap (he ▸ ha)
    have hsub : w.next + (a - w.next) = a := by omega
    refine ⟨a - w.next, ⟨by omega, by omega, ?_, by rw [hnum, hsub]⟩, ?_⟩
    · rw [h.bit_iff hW16 (by omega) (by omega), hsub]
      exact ha
    · rintro d ⟨hd, hdW, hbit, hslot⟩
      rw [h.bit_iff hW16 hd hdW] at hbit
      rw [hnum] at hslot
      have := h.inj _ a hbit ha hslot
      omega

def slotSystem (WIN MTU REASM : Nat) : System (FastReceiver REASM × Window Packet) Call where
  init s := s = (.new (FastReceiver.slotsOf WIN MTU) REASM, .empty)
  step s c s' :=
    (∃ obs, s.1.call (FastReceiver.slotsOf WIN MTU) WIN c = some (s'.1, obs) ∧ obs.ErrorFree) ∧
      s'.2 = receivedAhead WIN s.2 c

theorem freshStores_fast {MTU : Nat} {r : FastReceiver REASM} (hW : 0 < WIN)
    (hlen : r.slots.slots.data.length = WIN * MTU) :
    FreshStores (FastReceiver.slotsOf WIN MTU) WIN MTU r := fun _ _ _ hmtu hu16 =>
  storeKeeps_fast hlen (Nat.mod_lt _ hW) hmtu hu16

theorem owned_of_reaches {MTU : Nat} (hW : 0 < WIN) (hW16 : WIN ≤ 16)
    {ok : FastReceiver REASM × Window Packet → Call → Prop}
    (hok : ∀ s c, OwnedAtRest (FastReceiver.slotsOf WIN MTU) WIN s.1 s.2 → ok s c →
      s.1.SlotsFree WIN MTU c)
    {s : FastReceiver REASM × Window Packet} (h : (slotSystem WIN MTU REASM).Reaches ok s) :
    OwnedAtRest (FastReceiver.slotsOf WIN MTU) WIN s.1 s.2 := by
  have hinv := h.invariant
    (fun s => OwnedAtRest (FastReceiver.slotsOf WIN MTU) WIN s.1 s.2 ∧
      s.1.slots.slots.data.length = WIN * MTU)
    (fun s hs => by
      rw [show s = _ from hs]
      exact ⟨ownedAtRest_new _ WIN REASM, by simp [Backend.new, fastSlots, SlotMap.new]⟩)
    (fun s c s' hs hc hstep => by
      obtain ⟨⟨obs, hcall, hobs⟩, hw⟩ := hstep
      rw [hw]
      exact ⟨hs.1.call hW hW16 (freshStores_fast hW hs.2) (hok s c hs.1 hc) hobs hcall,
        fast_call_length hs.2 hcall⟩)
  exact hinv.1

theorem slot_invariant_of_slotsFree {MTU : Nat} (hW : 0 < WIN) (hW16 : WIN ≤ 16)
    {r : FastReceiver REASM} {w : Window Packet}
    (h : (slotSystem WIN MTU REASM).Reaches (fun s c => s.1.SlotsFree WIN MTU c) (r, w)) :
    SlotInvariant (FastReceiver.slotsOf WIN MTU) WIN r w :=
  (owned_of_reaches hW hW16 (fun _ _ _ hc => hc) h).slotInvariant hW16

theorem slot_invariant_of_slotsFree_ahead :
    ∃ r w, (slotSystem 3 2 4).Reaches (fun s c => s.1.SlotsFree 3 2 c) (r, w) ∧
      SlotInvariant (FastReceiver.slotsOf 3 2) 3 r w := by
  have h : (slotSystem 3 2 4).Reaches (fun s c => s.1.SlotsFree 3 2 c) (_, _) :=
    .step (.handleData 2 .unsegmented [7, 8]) (.init rfl) (by decide)
      ⟨⟨_, rfl, _, rfl⟩, rfl⟩
  exact ⟨_, _, h, slot_invariant_of_slotsFree (by decide) (by decide) h⟩

/-! ## Windows that divide the sequence space -/

theorem slotIdx_seqOf_of_dvd (hdvd : WIN ∣ 16384) (n : Nat) : slotIdx WIN (seqOf n) = n % WIN := by
  rw [slotIdx, seqOf_toNat, Nat.mod_mod_of_dvd _ hdvd]

theorem eq_of_slot_eq (hdvd : WIN ∣ 16384) {lo m n : Nat} (hm : lo ≤ m) (hmW : m < lo + WIN)
    (hn : lo ≤ n) (hnW : n < lo + WIN) (h : slotIdx WIN (seqOf m) = slotIdx WIN (seqOf n)) :
    m = n := by
  rw [slotIdx_seqOf_of_dvd hdvd, slotIdx_seqOf_of_dvd hdvd] at h
  have hmod : lo + (m - lo) ≡ lo + (n - lo) [MOD WIN] := by
    rw [Nat.add_sub_cancel' hm, Nat.add_sub_cancel' hn]
    exact h
  have hsub := Nat.ModEq.add_left_cancel' lo hmod
  rw [Nat.ModEq, Nat.mod_eq_of_lt (by omega), Nat.mod_eq_of_lt (by omega)] at hsub
  omega

theorem OwnedAtRest.slotsFree_of_dvd {MTU : Nat} (hW : 0 < WIN) (hW16 : WIN ≤ 16)
    (hdvd : WIN ∣ 16384) {r : Backend σ REASM} {w : Window Packet} (h : OwnedAtRest S WIN r w)
    {c : Call} (hmtu : c.bytes ≤ MTU) (hu16 : c.bytes < 65536) : r.SlotsFree WIN MTU c := by
  have hnum : ∀ d, r.base.expectedSeq + BitVec.ofNat 14 d = seqOf (w.next + d) := fun d => by
    rw [h.expected, seqOf_add]
  have hends : r.EndsFree WIN := by
    intro k hk hrun hbit hset
    rw [hnum] at hset
    obtain ⟨a, ha, hslot⟩ := h.owner _ (slotIdx_lt hW _) hset
    have hr := h.ahead a ha
    have hne : a ≠ w.next := fun he => h.gap (he ▸ ha)
    have hlast : k < WIN := by
      by_cases hlt : k < WIN
      · exact hlt
      · have hh := (h.bitmap (WIN - 1) (by omega)).1 (hrun _ (by omega))
        have := (h.ahead _ hh).2
        omega
    have hback : a < w.next + (1 + k) := by
      by_cases hlt : a < w.next + (1 + k)
      · exact hlt
      · have hlow : w.next + 1 ≤ a := by omega
        have he := eq_of_slot_eq hdvd hlow (by omega) (by omega) (by omega) hslot
        rw [Bool.eq_false_iff, Ne, h.bitmap k hk,
          show w.next + 1 + k = w.next + (1 + k) by omega, ← he] at hbit
        exact absurd ha hbit
    refine ⟨a - w.next - 1, by omega, ?_⟩
    rw [hnum, hnum, show w.next + (1 + (a - w.next - 1)) = a by omega]
    exact hslot
  cases c with
  | handleData seq flags payload =>
    simp only [Backend.SlotsFree]
    by_cases hd : r.base.distance seq = 0
    · rw [if_pos hd]
      exact hends
    · rw [if_neg hd]
      intro hlt hdup
      refine ⟨hmtu, hu16, Bool.eq_false_iff.2 fun hset => ?_⟩
      obtain ⟨a, ha, hslot⟩ := h.owner _ (slotIdx_lt hW _) hset
      have hr := h.ahead a ha
      have hseq : seq = seqOf (w.next + r.base.distance seq) := by
        rw [ReceiverBase.distance, h.expected, seqOf_add_sub]
      rw [hseq] at hslot
      have he := eq_of_slot_eq hdvd hr.1 hr.2 (by omega) (by omega) hslot
      rw [isOooDuplicate_eq _ (by omega), Bool.eq_false_iff, Ne,
        h.bit_iff hW16 (by omega) hlt, ← he] at hdup
      exact hdup ha
  | skipGap => exact hends
  | takeMessage | consumeMessage => trivial

/-- Where `WIN` divides the sequence space the invariant holds in every run of
payloads that fit a slot. -/
theorem slot_invariant_of_dvd {MTU : Nat} (hW : 0 < WIN) (hW16 : WIN ≤ 16) (hdvd : WIN ∣ 16384)
    {r : FastReceiver REASM} {w : Window Packet}
    (h : (slotSystem WIN MTU REASM).Reaches (fun _ c => c.bytes ≤ MTU ∧ c.bytes < 65536) (r, w)) :
    SlotInvariant (FastReceiver.slotsOf WIN MTU) WIN r w :=
  (owned_of_reaches hW hW16 (fun _ _ hs hc => hs.slotsFree_of_dvd hW hW16 hdvd hc.1 hc.2)
    h).slotInvariant hW16

theorem slot_invariant_of_dvd_ahead :
    ∃ r w, (slotSystem 4 2 4).Reaches (fun _ c => c.bytes ≤ 2 ∧ c.bytes < 65536) (r, w) ∧
      SlotInvariant (FastReceiver.slotsOf 4 2) 4 r w := by
  have h : (slotSystem 4 2 4).Reaches (fun _ c => c.bytes ≤ 2 ∧ c.bytes < 65536) (_, _) :=
    .step (.handleData 2 .unsegmented [7, 8]) (.init rfl) (by decide) ⟨⟨_, rfl, _, rfl⟩, rfl⟩
  exact ⟨_, _, h, slot_invariant_of_dvd (by decide) (by decide) (by decide) h⟩

/-! ## Two numbers in one slot -/

/-- A fresh receiver that has given up `n` packets. -/
def skipped (WIN MTU REASM n : Nat) : FastReceiver REASM :=
  { Backend.new (FastReceiver.slotsOf WIN MTU) REASM with base := ⟨seqOf n, 0⟩ }

theorem skipped_reachable {WIN : Nat} (hW : 0 < WIN) (MTU REASM n : Nat) :
    (slotSystem WIN MTU REASM).Reachable (skipped WIN MTU REASM n, ⟨n, fun _ => none⟩) := by
  induction n with
  | zero => exact .init rfl
  | succ n ih =>
    obtain ⟨k, rfl⟩ : ∃ k, WIN = k + 1 := ⟨WIN - 1, by omega⟩
    refine .step .skipGap ih trivial ⟨⟨.gap (.ok ⟨Bitset.new.any (k + 1)⟩), ?_, _, rfl⟩, rfl⟩
    simp only [Backend.call, Backend.skipGap, Backend.deliverBuffered, skipped, Backend.new,
      Bitset.isSet_new, Bool.false_eq_true, if_false, Option.map_some]
    simp only [ReceiverBase.advance, seqOf_succ]
    rfl

def packetsAtWrap : Nat → Option Packet :=
  Function.update (Function.update (fun _ => none) 16383 (some (.unsegmented, [1]))) 16384
    (some (.unsegmented, [2]))

/-- With `WIN = 3` the numbers 16383 and 0 share slot 0: packet 0 is marked received
while its slot holds packet 16383. -/
theorem slot_invariant_broken_at_wrap :
    ∃ r w, (slotSystem 3 1 1).Reachable (r, w) ∧
      ¬ SlotInvariant (FastReceiver.slotsOf 3 1) 3 r w := by
  have h₁ : (slotSystem 3 1 1).Reachable (_, _) :=
    .step (.handleData 16383 .unsegmented [1]) (skipped_reachable (by decide) 1 1 16382)
      trivial ⟨⟨.data (.ok ⟨false, true⟩), rfl, _, rfl⟩, rfl⟩
  have h₂ : (slotSystem 3 1 1).Reachable (_, _) :=
    .step (.handleData 0 .unsegmented [2]) h₁ trivial
      ⟨⟨.data (.ok ⟨false, true⟩), rfl, _, rfl⟩, rfl⟩
  refine ⟨_, _, h₂, fun hinv => ?_⟩
  obtain ⟨a, p, ha, hheld, -, hload⟩ := (hinv.1 2 (by decide) (by decide)).1 (by decide)
  have hp : p = (.unsegmented, [1]) := (Option.some.inj hload).symm
  have hseq : seqOf a = 0 := ha
  rw [hp] at hheld
  have hheld' : packetsAtWrap a = some (.unsegmented, [1]) := hheld
  by_cases h₄ : a = 16384
  · simp [packetsAtWrap, h₄] at hheld'
  · by_cases h₃ : a = 16383
    · rw [h₃] at hseq
      exact absurd hseq (by decide)
    · simp [packetsAtWrap, h₄, h₃] at hheld'

end Srspp
end Leodos
