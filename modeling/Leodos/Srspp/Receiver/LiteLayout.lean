/-
What the Lite backend's buffer holds.

`Lays` reads the state of a Lite receiver in packet numbers: the buffer is laid out
from packet `o` on, the packets before `m` are delivered, and exactly the packets in
`R` have arrived.  Each operation has one lemma here; a shift moves the origin, a
placed segment adds a packet, and a delivery moves `m` to the next boundary.
-/
import Mathlib.Data.List.Perm.Subperm
import Leodos.Srspp.Framing
import Leodos.Srspp.Receiver.Lite

namespace Leodos
namespace Srspp

open Memory Spp

/-! ## Filters of a range -/

section Ranges

variable {P : Nat → Bool} {m n c : Nat}

theorem filter_range'_head (hc : P c = true) (hm : m ≤ c) (hlt : c < m + n)
    (hlo : ∀ a, m ≤ a → a < c → P a = false) (hhi : ∀ a, m + n ≤ a → P a = false) :
    (List.range' m n).filter P = c :: (List.range' (c + 1) n).filter P := by
  obtain ⟨k, rfl⟩ : ∃ k, c = m + k := ⟨c - m, by omega⟩
  obtain ⟨j, rfl⟩ : ∃ j, n = k + (j + 1) := ⟨n - k - 1, by omega⟩
  have hbefore : (List.range' m k).filter P = [] := by
    rw [List.filter_eq_nil_iff]
    intro a ha
    rw [List.mem_range'_1] at ha
    simp [hlo a ha.1 ha.2]
  have hbehind : (List.range' (m + k + 1 + j) (k + 1)).filter P = [] := by
    rw [List.filter_eq_nil_iff]
    intro a ha
    rw [List.mem_range'_1] at ha
    simp [hhi a (by omega)]
  rw [← List.range'_append_1, List.filter_append, hbefore, List.range'_succ,
    List.filter_cons_of_pos hc, List.nil_append,
    show k + (j + 1) = j + (k + 1) by omega, ← List.range'_append_1 (m := j),
    List.filter_append, hbehind, List.append_nil]

theorem filter_range'_cons {cs : List Nat} (h : (List.range' m n).filter P = c :: cs) :
    P c = true ∧ (m ≤ c ∧ c < m + n) ∧ ∀ a, m ≤ a → a < c → P a = false := by
  have hmem : c ∈ (List.range' m n).filter P := by
    rw [h]
    exact List.mem_cons_self ..
  rw [List.mem_filter, List.mem_range'_1] at hmem
  refine ⟨hmem.2, hmem.1, fun a ha hac => ?_⟩
  rw [Bool.eq_false_iff]
  intro hP
  have hin : a ∈ (List.range' m n).filter P := by
    rw [List.mem_filter, List.mem_range'_1]
    exact ⟨⟨ha, by omega⟩, hP⟩
  have hsorted : ((List.range' m n).filter P).Pairwise (· < ·) :=
    List.Pairwise.filter _ List.pairwise_lt_range'
  rw [h] at hin hsorted
  rcases List.mem_cons.1 hin with rfl | hin
  · omega
  · have := List.rel_of_pairwise_cons hsorted hin
    omega

theorem orderedInsert_of_le {v : Nat} {es : List Nat} (h : ∀ e ∈ es, v ≤ e) :
    es.orderedInsert (· < ·) v = v :: es := by
  induction es with
  | nil => rfl
  | cons e es ih =>
    have hv := h e (List.mem_cons_self ..)
    by_cases hlt : v < e
    · exact List.orderedInsert_cons_of_le _ es hlt
    · have he : e = v := by omega
      subst he
      rw [List.orderedInsert_of_not_le _ _ hlt, ih fun x hx => h x (List.mem_cons_of_mem _ hx)]

theorem orderedInsert_map_filter_range' {f : Nat → Nat} (hf : ∀ a b, m ≤ a → a < b → f a ≤ f b)
    (hc : P c = false) (hm : m ≤ c) (hlt : c < m + n) :
    (((List.range' m n).filter P).map f).orderedInsert (· < ·) (f c) =
      ((List.range' m n).filter fun a => P a || a == c).map f := by
  induction n generalizing m with
  | zero => omega
  | succ n ih =>
    have hf' : ∀ a b, m + 1 ≤ a → a < b → f a ≤ f b := fun a b ha => hf a b (by omega)
    rw [List.range'_succ]
    by_cases heq : c = m
    · subst heq
      have hrest : (List.range' (c + 1) n).filter (fun a => P a || a == c) =
          (List.range' (c + 1) n).filter P := by
        apply List.filter_congr
        intro a ha
        rw [List.mem_range'_1] at ha
        simp [show a ≠ c by omega]
      rw [List.filter_cons_of_neg (by simp [hc]), List.filter_cons_of_pos (by simp), hrest,
        List.map_cons]
      refine orderedInsert_of_le fun e he => ?_
      obtain ⟨a, ha, rfl⟩ := List.mem_map.1 he
      have := List.mem_range'_1.1 (List.mem_filter.1 ha).1
      exact hf c a (Nat.le_refl _) (by omega)
    · have hrest := ih hf' (by omega) (by omega)
      by_cases hP : P m
      · rw [List.filter_cons_of_pos hP, List.filter_cons_of_pos (by simp [hP]), List.map_cons,
          List.map_cons, List.orderedInsert_of_not_le _ _
            (Nat.not_lt.2 (hf m c (Nat.le_refl _) (by omega))), hrest]
      · rw [List.filter_cons_of_neg hP,
          List.filter_cons_of_neg (by simpa [hP] using fun h => heq h.symm), hrest]

end Ranges

/-! ## The layout -/

def completesAt (stream : List Packet) (a : Nat) : Bool :=
  (stream[a]?).any fun p => decide (Completes p)

/-- The offset where packet `a` ends in a buffer laid out from packet `o` on. -/
def endOf (stream : List Packet) (MTU o a : Nat) : Nat :=
  (a - o) * MTU + ((stream[a]?).map fun p => p.2.length).getD 0

structure Lays (REASM MTU : Nat) (stream : List Packet) (r : LiteReceiver) (o m : Nat)
    (R : Nat → Bool) : Prop where
  expected : r.base.expectedSeq = seqOf m
  bitmap : ∀ k < 16, r.base.recvBitmap.getLsbD k = R (m + 1 + k)
  le : o ≤ m
  origin : r.baseSeq = seqOf o
  pendingShift : r.pendingShift = (m - o) * MTU
  pendingSegs : r.baseSeq + BitVec.ofNat 14 r.pendingSegs = seqOf m
  buf_length : r.messageBuf.length = REASM
  stored : ∀ a p, o ≤ a → R a = true → stream[a]? = some p →
    slice r.messageBuf ((a - o) * MTU) p.2.length = p.2
  fits : ∀ a, o ≤ a → R a = true → (a - o) * MTU + MTU ≤ REASM
  tidy : r.gaps.Tidy MTU
  missing : ∀ x, r.gaps.Missing x ↔ R (o + x / MTU) = false
  ends : r.messageEnds =
    ((List.range' m 16).filter fun a => R a && completesAt stream a).map (endOf stream MTU o)

/-- What arrived lies in the stream and less than 16 packets from `m` on; the packets
before `f` arrived and packet `f` did not. -/
structure Arrived (stream : List Packet) (m f : Nat) (R : Nat → Bool) : Prop where
  before : ∀ a < f, R a = true
  awaited : R f = false
  near : ∀ a, R a = true → a < m + 16
  real : ∀ a, R a = true → a < stream.length

section Streams

variable {MTU : Nat} {stream : List Packet} {o m a : Nat} {p : Packet}

theorem completesAt_eq (hp : stream[a]? = some p) :
    completesAt stream a = decide (Completes p) := by
  rw [completesAt, hp, Option.any_some]

theorem completesAt_iff : completesAt stream a = true ↔ ∃ p, stream[a]? = some p ∧ Completes p := by
  simp [completesAt, Option.any_eq_true]

theorem endOf_eq (hp : stream[a]? = some p) :
    endOf stream MTU o a = (a - o) * MTU + p.2.length := by
  rw [endOf, hp, Option.map_some, Option.getD_some]

theorem endOf_le (ht : Tiled MTU false stream) : endOf stream MTU o a ≤ (a - o) * MTU + MTU := by
  cases hp : stream[a]? with
  | none =>
    rw [endOf, hp, Option.map_none, Option.getD_none]
    omega
  | some p =>
    rw [endOf_eq hp]
    exact Nat.add_le_add_left (tiled_getElem ht hp).1 _

theorem le_endOf : (a - o) * MTU ≤ endOf stream MTU o a := Nat.le_add_right _ _

theorem endOf_mono (ht : Tiled MTU false stream) {b : Nat} (ho : o ≤ a) (h : a < b) :
    endOf stream MTU o a ≤ endOf stream MTU o b := by
  have hrow : (a - o) * MTU + MTU ≤ (b - o) * MTU := by
    rw [← Nat.succ_mul]
    exact Nat.mul_le_mul_right _ (by omega)
  exact Nat.le_trans (Nat.le_trans (endOf_le ht) hrow) le_endOf

theorem endOf_sub (ho : o ≤ m) (hm : m ≤ a) :
    endOf stream MTU o a - (m - o) * MTU = endOf stream MTU m a := by
  have hsplit : (a - o) * MTU = (a - m) * MTU + (m - o) * MTU := by
    rw [← Nat.add_mul]
    congr 1
    omega
  rw [endOf, endOf, hsplit]
  omega

end Streams

namespace ReceiverBase

theorem advance_iterate_expectedSeq (b : ReceiverBase) (k : Nat) :
    (advance^[k] b).expectedSeq = b.expectedSeq + BitVec.ofNat 14 k := by
  induction k generalizing b with
  | zero => simp
  | succ k ih =>
    rw [Function.iterate_succ_apply, ih, advance_expectedSeq]
    bv_omega

theorem advance_iterate_bit (b : ReceiverBase) (k i : Nat) :
    (advance^[k] b).recvBitmap.getLsbD i = b.recvBitmap.getLsbD (i + k) := by
  induction k generalizing b with
  | zero => rfl
  | succ k ih =>
    rw [Function.iterate_succ_apply, ih, advance_bit, Nat.add_assoc]

end ReceiverBase

section Operations

open LiteReceiver

variable {REASM WIN MTU : Nat} {stream : List Packet} {r : LiteReceiver} {o m f : Nat}
variable {R : Nat → Bool}

theorem lays_new (REASM MTU : Nat) (stream : List Packet) :
    Lays REASM MTU stream (.new REASM) 0 0 (fun _ => false) where
  expected := rfl
  bitmap := by simp [LiteReceiver.new, ReceiverBase.new]
  le := Nat.le_refl _
  origin := rfl
  pendingShift := (Nat.zero_mul _).symm
  pendingSegs := rfl
  buf_length := List.length_replicate ..
  stored := by simp
  fits := by simp
  tidy := GapTracker.tidy_new MTU
  missing := fun x => ⟨fun _ => rfl, fun _ => GapTracker.missing_new x⟩
  ends := by simp [LiteReceiver.new]

/-- The recorded ends from `m` on, counted from `m`, when no marker arrived at `m`. -/
theorem ends_shift (ht : Tiled MTU false stream) (ho : o ≤ m) (hmtu : 0 < MTU)
    (hmarker : ∀ p, R m = true → stream[m]? = some p → ¬ IsEos p) :
    ((((List.range' m 16).filter fun a => R a && completesAt stream a).map
        (endOf stream MTU o)).filter fun e => e > (m - o) * MTU).map (fun e => e - (m - o) * MTU) =
      ((List.range' m 16).filter fun a => R a && completesAt stream a).map
        (endOf stream MTU m) := by
  have hkeep : ∀ e ∈ ((List.range' m 16).filter fun a => R a && completesAt stream a).map
      (endOf stream MTU o), decide (e > (m - o) * MTU) = true := by
    intro e he
    obtain ⟨a, ha, rfl⟩ := List.mem_map.1 he
    rw [List.mem_filter, List.mem_range'_1, Bool.and_eq_true] at ha
    obtain ⟨⟨hma, -⟩, hR, hc⟩ := ha
    obtain ⟨p, hp, hcp⟩ := completesAt_iff.1 hc
    rw [decide_eq_true_iff, endOf_eq hp]
    by_cases heq : a = m
    · subst heq
      have hne : p.2 ≠ [] := by
        intro hnil
        rcases hcp with hf | hf
        · exact hmarker p hR hp ⟨hf, hnil⟩
        · exact (tiled_getElem ht hp).2.2.1 hf hnil
      have := List.length_pos_iff.2 hne
      omega
    · have : (m - o) * MTU < (a - o) * MTU := Nat.mul_lt_mul_of_pos_right (by omega) hmtu
      omega
  rw [List.filter_eq_self.2 hkeep, List.map_map]
  apply List.map_congr_left
  intro a ha
  have hma := (List.mem_range'_1.1 (List.mem_filter.1 ha).1).1
  exact endOf_sub ho hma

theorem Lays.applyPendingShift (h : Lays REASM MTU stream r o m R)
    (ht : Tiled MTU false stream) (hmtu : 0 < MTU)
    (hmarker : ∀ p, R m = true → stream[m]? = some p → ¬ IsEos p) :
    Lays REASM MTU stream (r.applyPendingShift REASM) m m R := by
  unfold LiteReceiver.applyPendingShift
  have hle := h.le
  by_cases hz : r.pendingShift = 0
  · have hom : o = m := by
      have := h.pendingShift
      rw [hz, eq_comm, Nat.mul_eq_zero] at this
      omega
    rw [if_pos hz]
    exact hom ▸ h
  · rw [if_neg hz]
    have hshift := h.pendingShift
    have hslot : ∀ a, m ≤ a → (a - o) * MTU = (m - o) * MTU + (a - m) * MTU := by
      intro a ha
      rw [← Nat.add_mul]
      congr 1
      omega
    constructor
    · exact h.expected
    · exact h.bitmap
    · exact Nat.le_refl _
    · exact h.pendingSegs
    · simp
    · simp [h.pendingSegs]
    · simp only [shiftBy]
      split
      · rw [copyWithin_length, h.buf_length]
      · exact h.buf_length
    · intro a p ha hR hp
      have hfit := h.fits a (by omega) hR
      have hlen := (tiled_getElem ht hp).1
      have hold := h.stored a p (by omega) hR hp
      rw [hslot a ha] at hfit hold
      simp only [shiftBy, hshift]
      rw [if_pos (by omega)]
      have hpart : slice (copyWithin r.messageBuf ((m - o) * MTU) (REASM - (m - o) * MTU) 0)
          (0 + (a - m) * MTU) p.2.length =
            slice r.messageBuf ((m - o) * MTU + (a - m) * MTU) p.2.length :=
        slice_copyWithin_part (by rw [h.buf_length]; omega) (by rw [h.buf_length]; omega)
          (by omega)
      rw [Nat.zero_add] at hpart
      rw [hpart, hold]
    · intro a ha hR
      have hfit := h.fits a (by omega) hR
      rw [hslot a ha] at hfit
      omega
    · exact h.tidy.shift ⟨m - o, by rw [hshift, Nat.mul_comm]⟩
    · intro x
      show (r.gaps.shift r.pendingShift).Missing x ↔ _
      rw [GapTracker.missing_shift, h.missing, hshift, Nat.add_mul_div_right _ _ hmtu,
        show o + (x / MTU + (m - o)) = m + x / MTU by omega]
    · simp only [shiftBy, hshift, h.ends]
      exact ends_shift ht hle hmtu hmarker

theorem slot_eq_iff (hmtu : 0 < MTU) (j x : Nat) :
    (j * MTU ≤ x ∧ x < j * MTU + MTU) ↔ x / MTU = j := by
  rw [Nat.div_eq_iff hmtu, ← Nat.succ_mul]
  constructor
  · exact fun h => ⟨h.1, by have := h.2; omega⟩
  · rintro ⟨h₁, h₂⟩
    refine ⟨h₁, ?_⟩
    rw [Nat.succ_mul] at h₂ ⊢
    omega

theorem Lays.placeSegment (h : Lays REASM MTU stream r m m R) (ht : Tiled MTU false stream)
    (hmtu : 0 < MTU) {a : Nat} {p : Packet} (hp : stream[a]? = some p) (hma : m ≤ a)
    (hnear : a < m + 16) (hfit : a - m < maxSegs REASM MTU)
    (hroom : r.gaps.gaps.length < WIN) (hends : r.messageEnds.length < WIN)
    (hfresh : R a = false ∨ ¬ Completes p) :
    ∃ r', LiteReceiver.placeSegment REASM WIN MTU
        (if a - m > 0 then { r with base := r.base.recordOoo (a - m) } else r)
        (seqOf a) p.1 p.2 = (r', .ok ()) ∧
      Lays REASM MTU stream r' m m (fun b => R b || b == a) ∧
        r'.completeMessageLen = r.completeMessageLen := by
  have hlen := (tiled_getElem ht hp).1
  have hslots : (a - m) * MTU + MTU ≤ REASM := by
    rw [← Nat.succ_mul]
    exact Nat.le_trans (Nat.mul_le_mul_right _ hfit) (Nat.div_mul_le_self _ _)
  have hdist : (seqOf a - seqOf m).toNat = a - m := by
    rw [seqOf_sub_toNat hma, Nat.mod_eq_of_lt (by omega)]
  obtain ⟨htidy, hmissing⟩ := h.tidy.fill (N := WIN) hmtu hroom (a - m)
  let b' := if a - m > 0 then r.base.recordOoo (a - m) else r.base
  have hbase : (if a - m > 0 then { r with base := r.base.recordOoo (a - m) } else r) =
      { r with base := b' } := by
    simp only [b']
    split <;> rfl
  rw [hbase]
  simp only [LiteReceiver.placeSegment, LiteReceiver.segDistance, h.origin, hdist]
  rw [if_neg (Nat.not_le.2 hfit), if_neg (by omega), Nat.min_eq_left hslots]
  refine ⟨_, rfl, ?_, rfl⟩
  have hexp : b'.expectedSeq = r.base.expectedSeq := by
    simp only [b']
    split <;> rfl
  constructor
  · exact hexp.trans h.expected
  · intro k hk
    simp only [b']
    split
    · rw [recordOoo_bit _ (by omega), h.bitmap k hk]
      congr 1
      rw [beq_eq_decide, decide_eq_decide]
      omega
    · rw [h.bitmap k hk]
      simp
      omega
  · exact Nat.le_refl _
  · rfl
  · exact h.pendingShift
  · have hsegs := h.pendingSegs
    rw [h.origin] at hsegs
    exact hsegs
  · show (write r.messageBuf _ p.2).length = REASM
    rw [write_length, h.buf_length]
  · intro b q hb hR hq
    show slice (write r.messageBuf _ p.2) _ _ = q.2
    by_cases hba : b = a
    · subst hba
      rw [hp, Option.some.injEq] at hq
      subst hq
      exact slice_write_self (by rw [h.buf_length]; omega)
    · have hRb : R b = true := by simpa [hba] using hR
      have hqlen := (tiled_getElem ht hq).1
      rw [slice_write_of_disjoint, h.stored b q hb hRb hq]
      rcases Nat.lt_or_gt_of_ne hba with hlt | hgt
      · have hrow : (b - m) * MTU + MTU ≤ (a - m) * MTU := by
          rw [← Nat.succ_mul]
          exact Nat.mul_le_mul_right _ (by omega)
        omega
      · have hrow : (a - m) * MTU + MTU ≤ (b - m) * MTU := by
          rw [← Nat.succ_mul]
          exact Nat.mul_le_mul_right _ (by omega)
        omega
  · intro b hb hR
    by_cases hba : b = a
    · exact hba ▸ hslots
    · exact h.fits b hb (by simpa [hba] using hR)
  · exact htidy
  · intro x
    show (r.gaps.fill WIN _ _).Missing x ↔ _
    rw [hmissing, h.missing, slot_eq_iff hmtu, Bool.or_eq_false_iff, beq_eq_false_iff_ne]
    exact and_congr_right fun _ => not_congr ⟨fun he => by omega, fun he => by omega⟩
  · show (if _ then _ else _) = _
    have hcat := completesAt_eq hp
    by_cases hc : Completes p
    · have hnew : (R a && completesAt stream a) = false := by
        rw [hfresh.resolve_right (not_not_intro hc), Bool.false_and]
      rw [if_pos ⟨Or.comm.1 hc, hends⟩, h.ends, ← endOf_eq (o := m) hp,
        orderedInsert_map_filter_range' (fun b c hb hbc => endOf_mono ht hb hbc) hnew hma hnear]
      congr 1
      apply List.filter_congr
      intro b _
      by_cases hba : b = a
      · subst hba
        rw [hcat, decide_eq_true hc, beq_self_eq_true, Bool.or_true, Bool.or_true, Bool.and_true]
      · rw [beq_eq_false_iff_ne.2 hba, Bool.or_false, Bool.or_false]
    · rw [if_neg fun hf => hc (Or.comm.1 hf.1), h.ends]
      congr 1
      apply List.filter_congr
      intro b _
      by_cases hba : b = a
      · subst hba
        rw [hcat, decide_eq_false hc, Bool.and_false, Bool.and_false]
      · rw [beq_eq_false_iff_ne.2 hba, Bool.or_false]

theorem Lays.takeMessage (h : Lays REASM MTU stream r o m R) :
    Lays REASM MTU stream r.takeMessage.2 o m R :=
  ⟨h.expected, h.bitmap, h.le, h.origin, h.pendingShift, h.pendingSegs, h.buf_length, h.stored,
    h.fits, h.tidy, h.missing, h.ends⟩

/-! ## Deliveries -/

theorem Lays.slots (h : Lays REASM MTU stream r m m R) (ht : Tiled MTU false stream) {c : Nat}
    (hmc : m ≤ c) (hR : ∀ a, m ≤ a → a < c → R a = true) (hlen : c ≤ stream.length)
    (hopen : ∀ a p, m ≤ a → a < c → stream[a]? = some p → ¬ Completes p) :
    slice r.messageBuf 0 ((c - m) * MTU) = gathered stream m c := by
  induction c, hmc using Nat.le_induction with
  | base => simp
  | succ c hmc ih =>
    have hp : stream[c]? = some stream[c] := List.getElem?_eq_getElem (by omega)
    have hfull := (tiled_getElem ht hp).2.1 (hopen c _ hmc (by omega) hp)
    have hslot := h.stored c _ hmc (hR c hmc (by omega)) hp
    have hrest := ih (fun a ha hac => hR a ha (by omega)) (by omega)
      fun a p ha hac => hopen a p ha (by omega)
    rw [show (c + 1 - m) * MTU = (c - m) * MTU + MTU by rw [← Nat.succ_mul]; congr 1; omega,
      slice_add, hrest, Nat.zero_add, gathered_succ hmc hp, ← hfull, hfull]
    rw [hfull] at hslot
    rw [hslot]

theorem Lays.message (h : Lays REASM MTU stream r m m R) (ht : Tiled MTU false stream) {c : Nat}
    {p : Packet} (hp : stream[c]? = some p) (hmc : m ≤ c)
    (hR : ∀ a, m ≤ a → a ≤ c → R a = true)
    (hopen : ∀ a p, m ≤ a → a < c → stream[a]? = some p → ¬ Completes p) :
    slice r.messageBuf 0 (endOf stream MTU m c) = gathered stream m (c + 1) := by
  obtain ⟨hlen, -⟩ := List.getElem?_eq_some_iff.1 hp
  rw [endOf_eq hp, slice_add, h.slots ht hmc (fun a ha hac => hR a ha (by omega)) (by omega) hopen,
    Nat.zero_add, h.stored c p hmc (hR c hmc (Nat.le_refl _)) hp, gathered_succ hmc hp]

theorem segs_eq (hmtu : 0 < MTU) {k len : Nat} (hpos : 0 < len) (hlen : len ≤ MTU) :
    (k * MTU + len + MTU - 1) / MTU = k + 1 := by
  rw [← slot_eq_iff hmtu, Nat.succ_mul]
  omega

theorem Lays.deliver (h : Lays REASM MTU stream r m m R) (ht : Tiled MTU false stream)
    (hmtu : 0 < MTU) (hnear : ∀ a, R a = true → a < m + 16) {c : Nat} {p : Packet}
    (hp : stream[c]? = some p) (hc : Completes p) (heos : ¬ IsEos p) (hmc : m ≤ c)
    (hR : R c = true)
    (hleast : ∀ a, m ≤ a → a < c → (R a && completesAt stream a) = false) :
    Lays REASM MTU stream (r.deliver MTU (endOf stream MTU m c)) m (c + 1) R := by
  have hpos : 0 < p.2.length := by
    apply List.length_pos_iff.2
    intro hnil
    rcases hc with hf | hf
    · exact heos ⟨hf, hnil⟩
    · exact (tiled_getElem ht hp).2.2.1 hf hnil
  have hsegs : (endOf stream MTU m c + MTU - 1) / MTU = c + 1 - m := by
    rw [endOf_eq hp, segs_eq hmtu hpos (tiled_getElem ht hp).1]
    omega
  have hcnear := hnear c hR
  constructor
  · simp only [LiteReceiver.deliver, hsegs]
    rw [ReceiverBase.advance_iterate_expectedSeq, h.expected, seqOf_add]
    congr 1
    omega
  · intro k hk
    simp only [LiteReceiver.deliver, hsegs]
    rw [ReceiverBase.advance_iterate_bit]
    by_cases hlt : k + (c + 1 - m) < 16
    · rw [h.bitmap _ hlt]
      congr 1
      omega
    · rw [BitVec.getLsbD_of_ge _ _ (by omega), eq_comm, Bool.eq_false_iff]
      intro hRk
      have := hnear _ hRk
      omega
  · omega
  · exact h.origin
  · simp only [LiteReceiver.deliver, hsegs]
  · simp only [LiteReceiver.deliver, hsegs]
    rw [h.origin, Nat.mod_eq_of_lt (by omega), seqOf_add]
    congr 1
    omega
  · exact h.buf_length
  · exact h.stored
  · exact h.fits
  · exact h.tidy
  · exact h.missing
  · have hhit : (R c && completesAt stream c) = true := by
      rw [hR, Bool.true_and, completesAt_eq hp, decide_eq_true hc]
    have hhi : ∀ a, m + 16 ≤ a → (R a && completesAt stream a) = false := by
      intro a ha
      rw [Bool.and_eq_false_iff, Bool.eq_false_iff]
      exact Or.inl fun hRa => by
        have := hnear a hRa
        omega
    show r.messageEnds.tail = _
    rw [h.ends, filter_range'_head hhit hmc hcnear hleast hhi, List.map_cons, List.tail_cons]

theorem Lays.isCompleteTo (h : Lays REASM MTU stream r o m R) (ht : Tiled MTU false stream)
    (hmtu : 0 < MTU) (ha : Arrived stream m f R) {c : Nat} (hoc : o ≤ c) (hof : o ≤ f)
    (hR : R c = true) :
    r.gaps.isCompleteTo (endOf stream MTU o c) = true ↔ c < f := by
  have hcf : c ≠ f := by
    rintro rfl
    rw [ha.awaited] at hR
    cases hR
  have hle : endOf stream MTU o c ≤ (c - o) * MTU + MTU := endOf_le ht
  have hslot : ∀ x, x < (c - o) * MTU + MTU → x / MTU ≤ c - o := by
    intro x hx
    rw [← Nat.succ_mul] at hx
    exact Nat.le_of_lt_succ (Nat.div_lt_of_lt_mul (by rwa [Nat.mul_comm]))
  have hhigh : endOf stream MTU o c ≤ r.gaps.high := by
    by_cases hgt : r.gaps.high < endOf stream MTU o c
    · have hmiss : r.gaps.Missing ((c - o) * MTU + (MTU - 1)) := Or.inr (by omega)
      rw [h.missing, (slot_eq_iff hmtu (c - o) _).1 (by omega), Nat.add_sub_cancel' hoc,
        hR] at hmiss
      cases hmiss
    · omega
  rw [h.tidy.isCompleteTo_iff hhigh]
  constructor
  · intro hall
    by_cases hlt : f < c
    · have hx : (f - o) * MTU < endOf stream MTU o c := by
        have hrow : (f - o) * MTU + MTU ≤ (c - o) * MTU := by
          rw [← Nat.succ_mul]
          exact Nat.mul_le_mul_right _ (by omega)
        have := @le_endOf MTU stream o c
        omega
      refine absurd ((h.missing _).2 ?_) (hall _ hx)
      rw [Nat.mul_div_cancel _ hmtu, Nat.add_sub_cancel' hof]
      exact ha.awaited
    · omega
  · intro hlt x hx hmiss
    have hdiv := hslot x (by omega)
    rw [h.missing, ha.before _ (by omega)] at hmiss
    cases hmiss

theorem Arrived.messageStart_eq (ha : Arrived stream m f R) (hmf : m ≤ f)
    (hm : messageStart stream m = m)
    (hnone : ∀ a, m ≤ a → a < f → (R a && completesAt stream a) = false) :
    messageStart stream f = m := by
  refine Srspp.messageStart_eq hm hmf fun a p hma haf hp hc => ?_
  have := hnone a hma haf
  rw [ha.before a haf, completesAt_eq hp, decide_eq_true hc] at this
  cases this

/-- A round with a complete first end `c` delivers from the settled state. -/
theorem Lays.tryDeliver_round {fuel c : Nat} {cs : List Nat} (h : Lays REASM MTU stream r o m R)
    (hmtu : 0 < MTU) (hset : Lays REASM MTU stream (r.applyPendingShift REASM) m m R)
    (hE : ((List.range' m 16).filter fun a => R a && completesAt stream a) = c :: cs)
    (hcomplete : r.gaps.isCompleteTo (endOf stream MTU o c) = true) :
    r.tryDeliver REASM MTU (fuel + 1) =
      ((r.applyPendingShift REASM).deliver MTU (endOf stream MTU m c)).tryDeliver
        REASM MTU fuel := by
  have hends := h.ends
  rw [hE, List.map_cons] at hends
  simp only [LiteReceiver.tryDeliver, hends, List.head?_cons]
  rw [if_neg (by rw [hcomplete]; simp)]
  by_cases hpend : r.pendingShift > 0
  · have hset' := hset.ends
    rw [hE, List.map_cons] at hset'
    rw [if_pos hpend]
    simp only [hset', List.head?_cons]
  · have hsame : r.applyPendingShift REASM = r := if_pos (by omega)
    have hoe : o = m := by
      have hle := h.le
      have hz := h.pendingShift
      rw [show r.pendingShift = 0 by omega, eq_comm, Nat.mul_eq_zero] at hz
      omega
    rw [if_neg hpend, hsame, hoe]

/-- The delivery loop hands over every message that is complete.  It ends at the last
boundary before the awaited packet, with the last message ready. -/
theorem Lays.tryDeliver {fuel : Nat} (h : Lays REASM MTU stream r o m R)
    (ht : Tiled MTU false stream) (hmtu : 0 < MTU) (ha : Arrived stream m f R) (hmf : m ≤ f)
    (hm : messageStart stream m = m)
    (heos : ∀ a p, m ≤ a → a < f → stream[a]? = some p → ¬ IsEos p)
    (hfuel : r.messageEnds.length ≤ fuel) :
    ∃ r' o', r.tryDeliver REASM MTU fuel = some r' ∧
      Lays REASM MTU stream r' o' (messageStart stream f) R ∧
      (messageStart stream f = m → r' = r) ∧
      (messageStart stream f ≠ m → ∃ n, r'.completeMessageLen = some n ∧
        slice r'.messageBuf 0 n =
          gathered stream (messageStart stream (messageStart stream f - 1))
            (messageStart stream f)) := by
  induction fuel generalizing r o m with
  | zero =>
    have hends := h.ends
    rw [List.length_eq_zero_iff.1 (Nat.le_zero.1 hfuel), eq_comm, List.map_eq_nil_iff,
      List.filter_eq_nil_iff] at hends
    have hstart := ha.messageStart_eq hmf hm fun a hma haf => by
      have := hends a (List.mem_range'_1.2 ⟨hma, ha.near a (ha.before a haf)⟩)
      simpa using this
    exact ⟨r, o, rfl, hstart ▸ h, fun _ => rfl, fun hne => absurd hstart hne⟩
  | succ fuel ih =>
    have hom := h.le
    have hends := h.ends
    cases hE : (List.range' m 16).filter fun a => R a && completesAt stream a with
    | nil =>
      rw [hE, List.map_nil] at hends
      rw [List.filter_eq_nil_iff] at hE
      have hstart := ha.messageStart_eq hmf hm fun a hma haf => by
        have := hE a (List.mem_range'_1.2 ⟨hma, ha.near a (ha.before a haf)⟩)
        simpa using this
      refine ⟨r, o, ?_, hstart ▸ h, fun _ => rfl, fun hne => absurd hstart hne⟩
      simp only [LiteReceiver.tryDeliver, hends, List.head?_nil]
    | cons c cs =>
      obtain ⟨hhit, ⟨hmc, hcnear⟩, hleast⟩ := filter_range'_cons hE
      obtain ⟨hRc, hcc⟩ := Bool.and_eq_true_iff.1 hhit
      obtain ⟨p, hp, hc⟩ := completesAt_iff.1 hcc
      have hcomplete := h.isCompleteTo ht hmtu ha (Nat.le_trans hom hmc) (Nat.le_trans hom hmf) hRc
      by_cases hcf : c < f
      · have hmarker : ∀ q, R m = true → stream[m]? = some q → ¬ IsEos q :=
          fun q _ hq => heos m q (Nat.le_refl _) (by omega) hq
        have hset := h.applyPendingShift ht hmtu hmarker
        have hdel := hset.deliver ht hmtu ha.near hp hc (heos c p hmc hcf hp) hmc hRc hleast
        have hnext : messageStart stream (c + 1) = c + 1 := by
          rw [messageStart_succ hp, if_pos hc]
        have hopen : ∀ a q, m ≤ a → a < c → stream[a]? = some q → ¬ Completes q := by
          intro a q hma hac hq hcq
          have := hleast a hma hac
          rw [ha.before a (by omega), completesAt_eq hq, decide_eq_true hcq] at this
          cases this
        have hmono := @messageStart_mono stream f (c + 1) (by omega)
        rw [hnext] at hmono
        rw [h.tryDeliver_round hmtu hset hE (hcomplete.2 hcf)]
        obtain ⟨r', o', hr', hlays, hsame, hmsg⟩ := ih hdel
          { ha with near := fun a hRa => by have := ha.near a hRa; omega } (by omega) hnext
          (fun a q hma => heos a q (by omega)) (by
            show ((r.applyPendingShift REASM).messageEnds.tail).length ≤ fuel
            have hlen : (r.applyPendingShift REASM).messageEnds.length = r.messageEnds.length := by
              rw [hset.ends, hends, List.length_map, List.length_map]
            rw [List.length_tail, hlen]
            omega)
        refine ⟨r', o', hr', hlays, fun he => by omega, fun _ => ?_⟩
        by_cases heq : messageStart stream f = c + 1
        · have hstart := Srspp.messageStart_eq hm hmc hopen
          rw [hsame heq, heq, Nat.add_sub_cancel, hstart]
          exact ⟨_, rfl, hset.message ht hp hmc (fun a hma hac => ha.before a (by omega)) hopen⟩
        · exact hmsg heq
      · have hstart := ha.messageStart_eq hmf hm fun a hma haf => hleast a hma (by omega)
        refine ⟨r, o, ?_, hstart ▸ h, fun _ => rfl, fun hne => absurd hstart hne⟩
        rw [hE, List.map_cons] at hends
        simp only [LiteReceiver.tryDeliver, hends, List.head?_cons]
        rw [if_pos (by rw [Bool.eq_false_iff]; exact fun hi => hcf (hcomplete.1 hi))]

/-! ## An arrival -/

/-- Packet `a` is inside the buffer and the bitmap counted from `m`, or so old a copy
of a delivered packet that its count does not come round to the window. -/
structure Lays.Accepts (REASM MTU m a : Nat) : Prop where
  near : a < m + 16
  room : m ≤ a → a - m < maxSegs REASM MTU % 65536
  old : a < m → m + maxSegs REASM MTU < a + 16384

/-- Both vectors have room while what arrived lies less than `WIN` packets from the
awaited one on. -/
theorem Lays.room (h : Lays REASM MTU stream r m m R) (hmtu : 0 < MTU) (hW : 0 < WIN)
    (ha : Arrived stream m f R) (hmf : messageStart stream f = m)
    (hwin : ∀ a, R a = true → a < f + WIN) :
    r.gaps.gaps.length < WIN ∧ r.messageEnds.length < WIN := by
  have hle : m ≤ f := hmf ▸ messageStart_le stream f
  constructor
  · refine h.tidy.room ((f - m) * MTU) hW (fun x hx => ?_) ?_
    · have hdiv : x / MTU < f - m := Nat.div_lt_of_lt_mul (by rwa [Nat.mul_comm])
      rw [h.missing, ha.before _ (by omega)]
      simp
    · by_cases hpos : 0 < r.gaps.high
      · have hmark := h.tidy.not_missing_high hpos
        rw [h.missing, Bool.not_eq_false] at hmark
        have hidx := hwin _ hmark
        have hlt : (r.gaps.high - 1) / MTU < f - m + WIN := by omega
        rw [Nat.div_lt_iff_lt_mul hmtu] at hlt
        rw [← Nat.add_mul]
        omega
      · omega
  · rw [h.ends, List.length_map]
    have hsub : ((List.range' m 16).filter fun a => R a && completesAt stream a) ⊆
        List.range' (f + 1) (WIN - 1) := by
      intro a ha'
      rw [List.mem_filter, List.mem_range'_1, Bool.and_eq_true] at ha'
      obtain ⟨⟨hma, -⟩, hR, hc⟩ := ha'
      obtain ⟨p, hp, hcp⟩ := completesAt_iff.1 hc
      have hge : f ≤ a := by
        by_cases hlt : a < f
        · exact absurd hcp (not_completes_of_open (hmf.symm ▸ hma) hlt hp)
        · omega
      have hne : a ≠ f := by
        rintro rfl
        rw [ha.awaited] at hR
        cases hR
      have := hwin a hR
      rw [List.mem_range'_1]
      omega
    have hnodup : ((List.range' m 16).filter fun a => R a && completesAt stream a).Nodup :=
      List.Nodup.filter _ List.nodup_range'
    have hlen := (hnodup.subperm hsub).length_le
    rw [List.length_range'] at hlen
    omega

/-- A call began with the open message at `m` and left packet `f` awaited: everything
before the last boundary is delivered, and the last message delivered is ready. -/
structure Lays.Ready (REASM MTU : Nat) (stream : List Packet) (r : LiteReceiver) (m f : Nat)
    (R : Nat → Bool) : Prop where
  lays : ∃ o, Lays REASM MTU stream r o (messageStart stream f) R
  message : r.takeMessage.1 =
    if messageStart stream f = m then none
    else some (gathered stream (messageStart stream (messageStart stream f - 1))
      (messageStart stream f))

theorem Lays.tryDeliver_ready (h : Lays REASM MTU stream r m m R)
    (hnone : r.completeMessageLen = none)
    (ht : Tiled MTU false stream) (hmtu : 0 < MTU) (ha : Arrived stream m f R) (hmf : m ≤ f)
    (hm : messageStart stream m = m)
    (heos : ∀ a p, m ≤ a → a < f → stream[a]? = some p → ¬ IsEos p) :
    ∃ r', r.tryDeliver REASM MTU r.messageEnds.length = some r' ∧
      Lays.Ready REASM MTU stream r' m f R := by
  obtain ⟨r', o', hr', hlays, hsame, hmsg⟩ :=
    h.tryDeliver ht hmtu ha hmf hm heos (Nat.le_refl _)
  refine ⟨r', hr', ⟨o', hlays⟩, ?_⟩
  by_cases heq : messageStart stream f = m
  · rw [if_pos heq, hsame heq, LiteReceiver.takeMessage, hnone]
    rfl
  · obtain ⟨n, hn, hbytes⟩ := hmsg heq
    rw [if_neg heq, LiteReceiver.takeMessage, hn, Option.map_some, hbytes]

theorem Lays.handleData (h : Lays REASM MTU stream r o m R) (hnone : r.completeMessageLen = none)
    (ht : Tiled MTU false stream) (hmtu : 0 < MTU) (hW : 0 < WIN)
    (harr : Arrived stream m f R) (hmf : messageStart stream f = m)
    (hwin : ∀ b, R b = true → b < f + WIN) {a : Nat} {p : Packet} (hp : stream[a]? = some p)
    (hacc : Lays.Accepts REASM MTU m a) {f' : Nat} {R' : Nat → Bool}
    (hR' : ∀ b, R' b = (R b || b == a)) (harr' : Arrived stream m f' R') (hff : f ≤ f')
    (heos : ∀ b q, f ≤ b → b < f' → stream[b]? = some q → ¬ IsEos q) :
    ∃ r' outcome, r.handleData REASM WIN MTU (seqOf a) p.1 p.2 = some (r', .ok outcome) ∧
      Lays.Ready REASM MTU stream r' m f' R' := by
  obtain rfl : R' = fun b => R b || b == a := funext hR'
  have hle : m ≤ f := hmf ▸ messageStart_le stream f
  have hm : messageStart stream m = m := by
    rw [← hmf]
    exact messageStart_messageStart stream f
  have hopen : ∀ b q, m ≤ b → b < f → stream[b]? = some q → ¬ Completes q :=
    fun b q hmb hbf hq => not_completes_of_open (hmf.symm ▸ hmb) hbf hq
  have heos' : ∀ b q, m ≤ b → b < f' → stream[b]? = some q → ¬ IsEos q := by
    intro b q hmb hbf' hq he
    by_cases hbf : b < f
    · exact hopen b q hmb hbf hq (Or.inl he.1)
    · exact heos b q (by omega) hbf' hq he
  have hsettle : r.settle REASM = r.applyPendingShift REASM := by
    rw [LiteReceiver.settle, hnone]
    rfl
  have hkeep : (r.applyPendingShift REASM).completeMessageLen = none := by
    rw [← hnone, LiteReceiver.applyPendingShift]
    split <;> rfl
  have hmarker : ∀ q, R m = true → stream[m]? = some q → ¬ IsEos q := by
    intro q hR hq
    refine heos' m q (Nat.le_refl _) ?_ hq
    have hne : m ≠ f' := by
      rintro rfl
      have := harr'.awaited
      simp [hR] at this
    omega
  have hset := h.applyPendingShift ht hmtu hmarker
  generalize r.applyPendingShift REASM = s at hsettle hkeep hset
  -- a copy of a packet that arrived leaves everything as it is
  have hskip : R a = true → Lays.Ready REASM MTU stream s m f' (fun b => R b || b == a) := by
    intro hR
    have hsame : ∀ b, (R b || b == a) = R b := by
      intro b
      by_cases hba : b = a
      · rw [hba, hR, Bool.true_or]
      · rw [beq_eq_false_iff_ne.2 hba, Bool.or_false]
    have hf' : f' = f := by
      have hawait := harr'.awaited
      by_cases hlt : f < f'
      · have hbefore := harr'.before f hlt
        rw [hsame, harr.awaited] at hbefore
        cases hbefore
      · omega
    rw [hf', funext hsame]
    refine ⟨⟨m, hmf.symm ▸ hset⟩, ?_⟩
    rw [if_pos hmf, LiteReceiver.takeMessage, hkeep]
    rfl
  simp only [LiteReceiver.handleData, hsettle, ReceiverBase.distance, hset.expected]
  by_cases hma : m ≤ a
  · have hdist : (seqOf a - seqOf m).toNat = a - m := by
      have := hacc.near
      rw [seqOf_sub_toNat hma, Nat.mod_eq_of_lt (by omega)]
    have hroom := hacc.room hma
    have hfit : a - m < maxSegs REASM MTU := Nat.lt_of_lt_of_le hroom (Nat.mod_le _ _)
    have hnear := hacc.near
    rw [hdist]
    by_cases hnew : a - m = 0 ∨ s.base.isOooDuplicate (a - m) = false
    · rw [if_pos (hnew.imp_right fun hd => ⟨hroom, hd⟩)]
      have hfresh : R a = false ∨ ¬ Completes p := by
        by_cases hR : R a = true
        · refine Or.inr fun hc => ?_
          rcases hnew with hd | hd
          · have ham : a = m := by omega
            subst ham
            have hne : a ≠ f := by
              rintro rfl
              rw [harr.awaited] at hR
              cases hR
            exact hopen a p (Nat.le_refl _) (by omega) hp hc
          · by_cases ham : a = m
            · subst ham
              have hne : a ≠ f := by
                rintro rfl
                rw [harr.awaited] at hR
                cases hR
              exact hopen a p (Nat.le_refl _) (by omega) hp hc
            · rw [isOooDuplicate_eq _ (by omega), hset.bitmap _ (by omega),
                show m + 1 + (a - m - 1) = a by omega, hR] at hd
              cases hd
        · exact Or.inl (by simpa using hR)
      obtain ⟨hgaps, hends⟩ := hset.room hmtu hW harr hmf hwin
      obtain ⟨s', hs', hlays, hkeep'⟩ :=
        hset.placeSegment ht hmtu hp hma hnear hfit hgaps hends hfresh
      obtain ⟨r', hr', hready⟩ := hlays.tryDeliver_ready (hkeep'.trans hkeep) ht hmtu harr'
        (by omega) hm heos'
      rw [hs']
      simp only [hr']
      exact ⟨r', _, rfl, hready⟩
    · have hR : R a = true := by
        rw [not_or, Bool.not_eq_false] at hnew
        have hd := hnew.2
        rwa [isOooDuplicate_eq _ (by omega), hset.bitmap _ (by omega),
          show m + 1 + (a - m - 1) = a by omega] at hd
      rw [if_neg fun hc => hnew (hc.imp_right And.right)]
      exact ⟨s, _, rfl, hskip hR⟩
  · have hold := hacc.old (by omega)
    have hmod := Nat.mod_le (maxSegs REASM MTU) 65536
    have hdist : (seqOf a - seqOf m).toNat = 16384 - (m - a) := by
      rw [seqOf_sub_toNat_of_lt (by omega) (by omega), Nat.mod_eq_of_lt (by omega)]
    rw [hdist, if_neg (by omega)]
    exact ⟨s, _, rfl, hskip (harr.before a (by omega))⟩

end Operations

end Srspp
end Leodos
