/-
The receive window as a set of packet numbers.

The backends store a 14-bit sequence number, a bitmap and an occupancy set.
`Tracks` reads the three together as "every packet below `next` is done with, and
the packets in `held` are buffered", over packet numbers that never wrap.  Each
primitive move of the code (buffer a packet, pass the expected number, release a
buffered one, drop it) has one lemma here; everything about the window is derived
from these.
-/
import Mathlib.Data.Nat.ModEq
import Leodos.Srspp.Receiver.Backend

namespace Leodos
namespace Srspp

open Spp

/-- The bookkeeping describes the window `held` at `next`.  No number from `lo`
on shares the slot of a later buffered packet. -/
structure Tracks (WIN : Nat) (b : ReceiverBase) (occ : Bitset) (lo next : Nat)
    (held : Nat → Prop) : Prop where
  expected : b.expectedSeq = seqOf next
  bitmap : ∀ k < 16, (b.recvBitmap.getLsbD k = true ↔ held (next + 1 + k))
  ahead : ∀ a, held a → next ≤ a ∧ a < next + WIN
  occupied : ∀ i < WIN, (occ.isSet i = true ↔ ∃ a, held a ∧ slotIdx WIN (seqOf a) = i)
  apart : ∀ a, held a → ∀ b, lo ≤ b → b < a → slotIdx WIN (seqOf b) ≠ slotIdx WIN (seqOf a)

/-- The window between two calls: the expected packet itself is never buffered. -/
structure AtRest (WIN : Nat) (b : ReceiverBase) (occ : Bitset) (next : Nat)
    (held : Nat → Prop) : Prop extends Tracks WIN b occ (next + 1) next held where
  gap : ¬ held next

theorem slotIdx_lt {WIN : Nat} (hW : 0 < WIN) (seq : SequenceCount) : slotIdx WIN seq < WIN :=
  Nat.mod_lt _ hW

section Moves

variable {WIN : Nat} (hW : 0 < WIN) (hW16 : WIN ≤ 16)
variable {b : ReceiverBase} {occ : Bitset} {next : Nat} {held : Nat → Prop}

theorem atRest_new (WIN : Nat) : AtRest WIN .new .new 0 (fun _ => False) where
  expected := rfl
  bitmap := by simp [ReceiverBase.new]
  ahead := by simp
  occupied := by simp
  apart := by simp
  gap := by simp

include hW16 in
theorem AtRest.pass (h : AtRest WIN b occ next held) :
    Tracks WIN b.advance occ (next + 1) (next + 1) held where
  expected := by rw [ReceiverBase.advance_expectedSeq, h.expected, seqOf_succ]
  bitmap := by
    intro k hk
    rw [advance_bit]
    by_cases hk' : k + 1 < 16
    · rw [h.bitmap (k + 1) hk', show next + 1 + (k + 1) = next + 1 + 1 + k by omega]
    · have hfalse : b.recvBitmap.getLsbD (k + 1) = false := BitVec.getLsbD_of_ge _ _ (by omega)
      rw [hfalse]
      constructor
      · simp
      · intro hh
        have := h.ahead _ hh
        omega
  ahead := by
    intro a ha
    have h₁ := h.ahead a ha
    have h₂ : a ≠ next := fun e => h.gap (e ▸ ha)
    omega
  occupied := h.occupied
  apart := h.apart

include hW in
theorem Tracks.isSet_next (h : Tracks WIN b occ next next held) :
    occ.isSet (slotIdx WIN b.expectedSeq) = true ↔ held next := by
  rw [h.expected, h.occupied _ (slotIdx_lt hW _)]
  constructor
  · rintro ⟨a, ha, hidx⟩
    by_cases hn : a = next
    · exact hn ▸ ha
    · have := h.ahead a ha
      exact absurd hidx.symm (h.apart a ha next (Nat.le_refl _) (by omega))
  · exact fun hn => ⟨next, hn, rfl⟩

theorem Tracks.slot_inj (h : Tracks WIN b occ next next held) {a a' : Nat}
    (ha : held a) (ha' : held a') (he : slotIdx WIN (seqOf a) = slotIdx WIN (seqOf a')) :
    a = a' := by
  rcases Nat.lt_trichotomy a a' with hlt | heq | hgt
  · exact absurd he (h.apart a' ha' a (h.ahead a ha).1 hlt)
  · exact heq
  · exact absurd he.symm (h.apart a ha a' (h.ahead a' ha').1 hgt)

theorem AtRest.slot_inj (h : AtRest WIN b occ next held) {a a' : Nat}
    (ha : held a) (ha' : held a') (he : slotIdx WIN (seqOf a) = slotIdx WIN (seqOf a')) :
    a = a' := by
  have hlo : ∀ x, held x → next + 1 ≤ x := by
    intro x hx
    have h₁ := (h.ahead x hx).1
    have h₂ : x ≠ next := fun e => h.gap (e ▸ hx)
    omega
  rcases Nat.lt_trichotomy a a' with hlt | heq | hgt
  · exact absurd he (h.apart a' ha' a (hlo a ha) hlt)
  · exact heq
  · exact absurd he.symm (h.apart a ha a' (hlo a' ha') hgt)

include hW hW16 in
theorem Tracks.isSet_clear_next (h : Tracks WIN b occ next next held) (hn : held next)
    {i : Nat} (hi : i < WIN) :
    (occ.clear (slotIdx WIN b.expectedSeq)).isSet i = true ↔
      ∃ a, (held a ∧ a ≠ next) ∧ slotIdx WIN (seqOf a) = i := by
  have hidx := slotIdx_lt hW b.expectedSeq
  rw [Bitset.isSet_clear _ (by omega) (by omega), Bool.and_eq_true, h.occupied i hi, h.expected]
  constructor
  · rintro ⟨⟨a, ha, rfl⟩, hne⟩
    refine ⟨a, ⟨ha, ?_⟩, rfl⟩
    rintro rfl
    simp at hne
  · rintro ⟨a, ⟨ha, hne⟩, rfl⟩
    refine ⟨⟨a, ha, rfl⟩, ?_⟩
    simp only [Bool.not_eq_true', decide_eq_false_iff_not]
    exact fun he => hne (h.slot_inj ha hn he)

include hW hW16 in
theorem Tracks.release (h : Tracks WIN b occ next next held) (hn : held next) :
    Tracks WIN b.advance (occ.clear (slotIdx WIN b.expectedSeq)) (next + 1) (next + 1)
      (fun a => held a ∧ a ≠ next) where
  expected := by rw [ReceiverBase.advance_expectedSeq, h.expected, seqOf_succ]
  bitmap := by
    intro k hk
    rw [advance_bit]
    by_cases hk' : k + 1 < 16
    · rw [h.bitmap (k + 1) hk', show next + 1 + (k + 1) = next + 1 + 1 + k by omega]
      exact ⟨fun hh => ⟨hh, by omega⟩, fun hh => hh.1⟩
    · have hfalse : b.recvBitmap.getLsbD (k + 1) = false := BitVec.getLsbD_of_ge _ _ (by omega)
      rw [hfalse]
      constructor
      · simp
      · intro hh
        have := h.ahead _ hh.1
        omega
  ahead := by
    rintro a ⟨ha, hne⟩
    have := h.ahead a ha
    omega
  occupied := fun i hi => h.isSet_clear_next hW hW16 hn hi
  apart := fun a ha c hc hca => h.apart a ha.1 c (by omega) hca

include hW hW16 in
theorem Tracks.drop (h : Tracks WIN b occ next next held) (hn : held next) :
    AtRest WIN b (occ.clear (slotIdx WIN b.expectedSeq)) next (fun a => held a ∧ a ≠ next) where
  expected := h.expected
  bitmap := by
    intro k hk
    rw [h.bitmap k hk]
    exact ⟨fun hh => ⟨hh, by omega⟩, fun hh => hh.1⟩
  ahead := fun a ha => h.ahead a ha.1
  occupied := fun i hi => h.isSet_clear_next hW hW16 hn hi
  apart := fun a ha c hc hca => h.apart a ha.1 c (by omega) hca
  gap := fun hh => hh.2 rfl

theorem Tracks.settle (h : Tracks WIN b occ next next held) (hn : ¬ held next) :
    AtRest WIN b occ next held where
  expected := h.expected
  bitmap := h.bitmap
  ahead := h.ahead
  occupied := h.occupied
  apart := fun a ha c hc hca => h.apart a ha c (by omega) hca
  gap := hn

include hW hW16 in
/-- Buffer packet `next + d` in a slot no earlier number of the window uses. -/
theorem AtRest.record (h : AtRest WIN b occ next held) {d : Nat} (hd : 0 < d) (hdW : d < WIN)
    (hclear : ∀ d', 0 < d' → d' < d →
      slotIdx WIN (seqOf (next + d')) ≠ slotIdx WIN (seqOf (next + d))) :
    AtRest WIN (b.recordOoo d) (occ.set (slotIdx WIN (seqOf (next + d)))) next
      (fun a => held a ∨ a = next + d) where
  expected := h.expected
  bitmap := by
    intro k hk
    rw [recordOoo_bit _ (by omega), Bool.or_eq_true, h.bitmap k hk, decide_eq_true_iff]
    constructor
    · rintro (hh | hh)
      · exact Or.inl hh
      · exact Or.inr (by omega)
    · rintro (hh | hh)
      · exact Or.inl hh
      · exact Or.inr (by omega)
  ahead := by
    rintro a (ha | rfl)
    · exact h.ahead a ha
    · omega
  occupied := by
    intro i hi
    have hidx := slotIdx_lt hW (seqOf (next + d))
    rw [Bitset.isSet_set _ (by omega) (by omega), Bool.or_eq_true, h.occupied i hi,
      decide_eq_true_iff]
    constructor
    · rintro (⟨a, ha, he⟩ | rfl)
      · exact ⟨a, Or.inl ha, he⟩
      · exact ⟨next + d, Or.inr rfl, rfl⟩
    · rintro ⟨a, ha | rfl, he⟩
      · exact Or.inl ⟨a, ha, he⟩
      · exact Or.inr he.symm
  apart := by
    rintro a (ha | rfl) c hc hca
    · exact h.apart a ha c hc hca
    · have hd' := hclear (c - next) (by omega) (by omega)
      rwa [show next + (c - next) = c by omega] at hd'
  gap := by
    rintro (hh | hh)
    · exact h.gap hh
    · omega

end Moves

/-! ## What the calls do to the window -/

section Calls

variable {σ : Type} {REASM WIN : Nat} (hW : 0 < WIN) (hW16 : WIN ≤ 16)

include hW hW16 in
/-- The delivery loop passes a run of buffered packets and stops at the first
number that is not buffered, or at a packet the reassembly refuses, which it
drops. -/
theorem deliverBuffered_tracks {S : Slots σ} {fuel : Nat} {r r' : Backend σ REASM}
    {res : Except ReceiverError Unit} {next : Nat} {held : Nat → Prop}
    (h : Tracks WIN r.base r.occupied next next held)
    (hfuel : ∀ a, held a → a < next + fuel)
    (hd : r.deliverBuffered S WIN fuel = some (r', res)) :
    ∃ n held', next ≤ n ∧ n ≤ next + fuel ∧ (∀ a, next ≤ a → a < n → held a) ∧
      (∀ a, held' a → held a) ∧ AtRest WIN r'.base r'.occupied n held' := by
  induction fuel generalizing r next held with
  | zero =>
    simp only [Backend.deliverBuffered, Option.some.injEq, Prod.mk.injEq] at hd
    obtain ⟨rfl, -⟩ := hd
    have hnone : ¬ held next := fun hn => by
      have := hfuel next hn
      omega
    exact ⟨next, held, Nat.le_refl _, Nat.le_refl _, by omega, fun _ ha => ha, h.settle hnone⟩
  | succ fuel ih =>
    simp only [Backend.deliverBuffered] at hd
    by_cases hset : r.occupied.isSet (slotIdx WIN r.base.expectedSeq) = true
    · have hn : held next := (h.isSet_next hW).1 hset
      rw [if_pos hset] at hd
      split at hd
      · cases hd
      · split at hd
        · simp only [Option.some.injEq, Prod.mk.injEq] at hd
          obtain ⟨rfl, -⟩ := hd
          exact ⟨next, _, Nat.le_refl _, by omega, by omega, fun _ ha => ha.1,
            h.drop hW hW16 hn⟩
        · have hrel := h.release hW hW16 hn
          obtain ⟨n, held', hlo, hhi, hrun, hsub, hrest⟩ := ih hrel
            (fun a ha => by
              have := hfuel a ha.1
              omega) hd
          refine ⟨n, held', by omega, by omega, ?_, fun a ha => (hsub a ha).1, hrest⟩
          intro a ha han
          by_cases hne : a = next
          · exact hne ▸ hn
          · exact (hrun a (by omega) han).1
    · rw [if_neg hset] at hd
      simp only [Option.some.injEq, Prod.mk.injEq] at hd
      obtain ⟨rfl, -⟩ := hd
      have hnone : ¬ held next := fun hn => hset ((h.isSet_next hW).2 hn)
      exact ⟨next, held, Nat.le_refl _, by omega, by omega, fun _ ha => ha, h.settle hnone⟩

/-- The slot of a packet at distance `d` is free, and no packet of the window
before it uses the same slot.  When `WIN` divides the sequence space this always
holds of a packet that is not a duplicate. -/
def SlotClear (WIN : Nat) (b : ReceiverBase) (occ : Bitset) (d : Nat) : Prop :=
  0 < d → d < maxAhead WIN → b.isOooDuplicate d = false →
    occ.isSet (slotIdx WIN (b.expectedSeq + BitVec.ofNat 14 d)) = false ∧
    ∀ d' < d, 0 < d' → slotIdx WIN (b.expectedSeq + BitVec.ofNat 14 d') ≠
      slotIdx WIN (b.expectedSeq + BitVec.ofNat 14 d)

include hW in
theorem slotClear_of_dvd (hdvd : WIN ∣ 16384) (hW16 : WIN ≤ 16) {b : ReceiverBase}
    {occ : Bitset} {next : Nat} {held : Nat → Prop} (h : AtRest WIN b occ next held) (d : Nat) :
    SlotClear WIN b occ d := by
  intro hd hdW hdup
  have hmax : maxAhead WIN = WIN := Nat.mod_eq_of_lt (by omega)
  rw [hmax] at hdW
  have hslot : ∀ n, slotIdx WIN (seqOf n) = n % WIN := by
    intro n
    rw [slotIdx, seqOf_toNat, Nat.mod_mod_of_dvd _ hdvd]
  have hsep : ∀ i j, i < WIN → j < WIN → (next + i) % WIN = (next + j) % WIN → i = j := by
    intro i j hi hj he
    have hmod : i ≡ j [MOD WIN] := Nat.ModEq.add_left_cancel' next he
    rwa [Nat.ModEq, Nat.mod_eq_of_lt hi, Nat.mod_eq_of_lt hj] at hmod
  simp only [h.expected, seqOf_add]
  constructor
  · rw [Bool.eq_false_iff]
    intro hset
    obtain ⟨a, ha, hidx⟩ := (h.occupied _ (slotIdx_lt hW _)).1 hset
    have hrange := h.ahead a ha
    rw [hslot, hslot, show a = next + (a - next) by omega] at hidx
    have hd' := hsep (a - next) d (by omega) hdW hidx
    rw [isOooDuplicate_eq _ (by omega), Bool.eq_false_iff] at hdup
    apply hdup
    rw [h.bitmap _ (by omega), show next + 1 + (d - 1) = a by omega]
    exact ha
  · intro d' hlt hpos he
    rw [hslot, hslot] at he
    have := hsep d' d (by omega) hdW he
    omega

end Calls

end Srspp
end Leodos
