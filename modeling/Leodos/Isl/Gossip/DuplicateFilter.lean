/-
The duplicate filter of the flood, `network/isl/gossip/bitmap.rs`.

The filter keeps the newest 16-bit epoch and a bit for each of the 128 epochs before it.
Read over numbers that do not wrap, it remembers exactly the numbers it was shown, as long
as they lie at most 128 behind the newest and less than half a turn ahead of it.
-/
import Mathlib.Algebra.Group.Nat.Defs

namespace Leodos
namespace Isl

abbrev Bitmap := BitVec 128

namespace Bitmap

def CAPACITY : BitVec 16 := 128

def shift (b : Bitmap) (distance : BitVec 16) : Bitmap :=
  if CAPACITY ≤ distance then 0 else b <<< distance.toNat

def mark (b : Bitmap) (index : BitVec 16) : Bitmap :=
  if CAPACITY ≤ index then b else b ||| (1#128 <<< index.toNat)

def isMarked (b : Bitmap) (index : BitVec 16) : Bool :=
  if CAPACITY ≤ index then false else (b &&& (1#128 <<< index.toNat)) != 0

end Bitmap

/-- Where an epoch lies relative to another one on the circle of epochs. -/
inductive ShortestPath where
  | coincident
  | forward (distance : BitVec 16)
  | backward (distance : BitVec 16)
  deriving DecidableEq, Repr

def ShortestPath.compute (reference target : BitVec 16) : ShortestPath :=
  let fwdDist := target - reference
  if fwdDist = 0 then .coincident
  else
    let bwdDist := reference - target
    if fwdDist < bwdDist then .forward fwdDist else .backward bwdDist

structure DuplicateFilter where
  head : BitVec 16
  history : Bitmap
  initialized : Bool
  deriving DecidableEq, Repr

namespace DuplicateFilter

def new : DuplicateFilter := ⟨0, 0, false⟩

/-- Whether the epoch has been seen; it is recorded if not. -/
def isDuplicate (f : DuplicateFilter) (epoch : BitVec 16) : Bool × DuplicateFilter :=
  if f.initialized = false then (false, { f with head := epoch, initialized := true })
  else
    match ShortestPath.compute f.head epoch with
    | .coincident => (true, f)
    | .forward distance =>
      -- the old head becomes the entry `distance` behind the new one
      (false, { f with
        head := epoch
        history := Bitmap.mark (Bitmap.shift f.history distance) (distance - 1) })
    | .backward distance =>
      if Bitmap.CAPACITY < distance then (true, f)
      else if Bitmap.isMarked f.history (distance - 1) then (true, f)
      else (false, { f with history := Bitmap.mark f.history (distance - 1) })

end DuplicateFilter

/-! ## The circle of epochs -/

theorem ShortestPath.compute_self (epoch : BitVec 16) : compute epoch epoch = .coincident :=
  if_pos (BitVec.sub_self epoch)

theorem ShortestPath.compute_ahead {top n : Nat} (hlt : top < n) (hnear : n < top + 32768) :
    compute (.ofNat 16 top) (.ofNat 16 n) = .forward (.ofNat 16 (n - top)) := by
  have hdist : BitVec.ofNat 16 n - BitVec.ofNat 16 top = BitVec.ofNat 16 (n - top) := by bv_omega
  have hback : BitVec.ofNat 16 top - BitVec.ofNat 16 n = BitVec.ofNat 16 (65536 - (n - top)) := by
    bv_omega
  have hne : ¬ BitVec.ofNat 16 (n - top) = 0 := by bv_omega
  have hshort : BitVec.ofNat 16 (n - top) < BitVec.ofNat 16 (65536 - (n - top)) := by bv_omega
  rw [compute, hdist, hback]
  dsimp only
  rw [if_neg hne, if_pos hshort]

theorem ShortestPath.compute_behind {top n : Nat} (hlt : n < top) (hnear : top < n + 32768) :
    compute (.ofNat 16 top) (.ofNat 16 n) = .backward (.ofNat 16 (top - n)) := by
  have hdist : BitVec.ofNat 16 n - BitVec.ofNat 16 top = BitVec.ofNat 16 (65536 - (top - n)) := by
    bv_omega
  have hback : BitVec.ofNat 16 top - BitVec.ofNat 16 n = BitVec.ofNat 16 (top - n) := by bv_omega
  have hne : ¬ BitVec.ofNat 16 (65536 - (top - n)) = 0 := by bv_omega
  have hshort : ¬ BitVec.ofNat 16 (65536 - (top - n)) < BitVec.ofNat 16 (top - n) := by bv_omega
  rw [compute, hdist, hback]
  dsimp only
  rw [if_neg hne, if_neg hshort]

theorem ShortestPath.compute_eq_forward {reference target distance : BitVec 16}
    (h : compute reference target = .forward distance) :
    distance = target - reference ∧ 0 < distance.toNat ∧ distance.toNat < 32768 := by
  rw [compute] at h
  dsimp only at h
  by_cases hzero : target - reference = 0
  · rw [if_pos hzero] at h
    cases h
  · rw [if_neg hzero] at h
    by_cases hlt : target - reference < reference - target
    · rw [if_pos hlt, ShortestPath.forward.injEq] at h
      refine ⟨h.symm, ?_⟩
      rw [← h]
      constructor <;> bv_omega
    · rw [if_neg hlt] at h
      cases h

/-! ## The bits -/

theorem Bitmap.getLsbD_shift (b : Bitmap) (distance : BitVec 16) {i : Nat} (hi : i < 128) :
    (b.shift distance).getLsbD i =
      (decide (distance.toNat ≤ i) && BitVec.getLsbD b (i - distance.toNat)) := by
  have hcap : CAPACITY ≤ distance ↔ 128 ≤ distance.toNat := BitVec.le_def
  rw [Bitmap.shift]
  by_cases hfar : CAPACITY ≤ distance
  · have hnot : ¬ distance.toNat ≤ i := by
      have hfar' := hcap.1 hfar
      omega
    rw [if_pos hfar, decide_eq_false hnot, Bool.false_and]
    exact BitVec.getLsbD_zero
  · rw [if_neg hfar, BitVec.getLsbD_shiftLeft, decide_eq_true hi, Bool.true_and]
    by_cases hle : distance.toNat ≤ i
    · rw [decide_eq_true hle, decide_eq_false (Nat.not_lt.2 hle)]
      rfl
    · rw [decide_eq_false hle, decide_eq_true (Nat.lt_of_not_le hle)]
      rfl

theorem Bitmap.getLsbD_mark (b : Bitmap) (index : BitVec 16) {i : Nat} (hi : i < 128) :
    (b.mark index).getLsbD i = (BitVec.getLsbD b i || decide (i = index.toNat)) := by
  have hcap : CAPACITY ≤ index ↔ 128 ≤ index.toNat := BitVec.le_def
  rw [Bitmap.mark]
  by_cases hfar : CAPACITY ≤ index
  · have hne : ¬ i = index.toNat := by
      have hfar' := hcap.1 hfar
      omega
    rw [if_pos hfar, decide_eq_false hne, Bool.or_false]
  · rw [if_neg hfar, BitVec.getLsbD_or, BitVec.getLsbD_shiftLeft, decide_eq_true hi, Bool.true_and,
      BitVec.getLsbD_one]
    congr 1
    rw [Bool.eq_iff_iff]
    simp only [Bool.and_eq_true, Bool.not_eq_true', decide_eq_false_iff_not, decide_eq_true_eq]
    omega

theorem Bitmap.isMarked_eq (b : Bitmap) {index : BitVec 16} (hi : index.toNat < 128) :
    b.isMarked index = BitVec.getLsbD b index.toNat := by
  have hcap : CAPACITY ≤ index ↔ 128 ≤ index.toNat := BitVec.le_def
  rw [Bitmap.isMarked, if_neg (fun h => Nat.not_lt.2 (hcap.1 h) hi)]
  have hbit : ∀ i, i < 128 → (b &&& (1#128 <<< index.toNat)).getLsbD i =
      (BitVec.getLsbD b i && decide (i = index.toNat)) := by
    intro i hi'
    rw [BitVec.getLsbD_and, BitVec.getLsbD_shiftLeft, decide_eq_true hi', Bool.true_and,
      BitVec.getLsbD_one]
    congr 1
    rw [Bool.eq_iff_iff]
    simp only [Bool.and_eq_true, Bool.not_eq_true', decide_eq_false_iff_not, decide_eq_true_eq]
    omega
  cases hset : BitVec.getLsbD b index.toNat with
  | true =>
    rw [bne_iff_ne]
    intro hzero
    have hone := hbit index.toNat hi
    rw [hzero, hset, decide_eq_true rfl] at hone
    cases hone.symm.trans BitVec.getLsbD_zero
  | false =>
    rw [bne_eq_false_iff_eq]
    apply BitVec.eq_of_getLsbD_eq
    intro i hi'
    rw [hbit i hi']
    by_cases heq : i = index.toNat
    · rw [heq, hset]
      exact BitVec.getLsbD_zero.symm
    · rw [decide_eq_false heq, Bool.and_false]
      exact BitVec.getLsbD_zero.symm

/-! ## What the filter remembers -/

namespace DuplicateFilter

/-- The filter was shown the numbers `seen`, of which `top` is the greatest. -/
structure Remembers (f : DuplicateFilter) (seen : List Nat) (top : Nat) : Prop where
  initialized : f.initialized = true
  head : f.head = BitVec.ofNat 16 top
  top_mem : top ∈ seen
  le_top : ∀ n ∈ seen, n ≤ top
  history : ∀ d < 128, BitVec.getLsbD f.history d = true ↔ ∃ n ∈ seen, n + d + 1 = top

theorem isDuplicate_new (n : Nat) : ∃ f, new.isDuplicate (.ofNat 16 n) = (false, f) ∧
    f.Remembers [n] n := by
  refine ⟨⟨.ofNat 16 n, 0, true⟩, rfl, rfl, rfl, List.mem_cons_self, ?_, ?_⟩
  · intro k hk
    exact Nat.le_of_eq (List.mem_singleton.1 hk)
  · intro d hd
    constructor
    · intro h
      cases h.symm.trans BitVec.getLsbD_zero
    · intro h
      obtain ⟨k, hk, hsum⟩ := h
      rw [List.mem_singleton.1 hk] at hsum
      omega

variable {f : DuplicateFilter} {seen : List Nat} {top n : Nat}

theorem Remembers.isDuplicate_eq (h : f.Remembers seen top) (n : Nat) :
    f.isDuplicate (.ofNat 16 n) =
      match ShortestPath.compute (.ofNat 16 top) (.ofNat 16 n) with
      | .coincident => (true, f)
      | .forward distance => (false, { f with
          head := .ofNat 16 n
          history := Bitmap.mark (Bitmap.shift f.history distance) (distance - 1) })
      | .backward distance =>
        if Bitmap.CAPACITY < distance then (true, f)
        else if Bitmap.isMarked f.history (distance - 1) then (true, f)
        else (false, { f with history := Bitmap.mark f.history (distance - 1) }) := by
  rw [isDuplicate, h.initialized, if_neg (by decide), h.head]

theorem Remembers.ahead (h : f.Remembers seen top) (hlt : top < n) (hnear : n < top + 32768) :
    ∃ f', f.isDuplicate (.ofNat 16 n) = (false, f') ∧ f'.Remembers (seen ++ [n]) n := by
  have hdist : (BitVec.ofNat 16 (n - top)).toNat = n - top := by bv_omega
  have hlast : (BitVec.ofNat 16 (n - top) - 1).toNat = n - top - 1 := by bv_omega
  rw [h.isDuplicate_eq, ShortestPath.compute_ahead hlt hnear]
  refine ⟨_, rfl, h.initialized, rfl, List.mem_append_right _ List.mem_cons_self, ?_, ?_⟩
  · intro k hk
    obtain hold | hnew := List.mem_append.1 hk
    · exact Nat.le_trans (h.le_top k hold) (Nat.le_of_lt hlt)
    · exact Nat.le_of_eq (List.mem_singleton.1 hnew)
  · intro d hd
    dsimp only
    rw [Bitmap.getLsbD_mark _ _ hd, Bitmap.getLsbD_shift _ _ hd, hdist, hlast, Bool.or_eq_true,
      Bool.and_eq_true, decide_eq_true_eq, decide_eq_true_eq]
    constructor
    · intro hbit
      obtain ⟨hle, hold⟩ | htop := hbit
      · obtain ⟨k, hk, hsum⟩ := (h.history (d - (n - top)) (by omega)).1 hold
        exact ⟨k, List.mem_append_left _ hk, by omega⟩
      · exact ⟨top, List.mem_append_left _ h.top_mem, by omega⟩
    · intro hseen
      obtain ⟨k, hk, hsum⟩ := hseen
      obtain hold | hnew := List.mem_append.1 hk
      · have hle := h.le_top k hold
        by_cases heq : k = top
        · exact Or.inr (by omega)
        · exact Or.inl ⟨by omega, (h.history (d - (n - top)) (by omega)).2 ⟨k, hold, by omega⟩⟩
      · rw [List.mem_singleton.1 hnew] at hsum
        omega

theorem Remembers.behind (h : f.Remembers seen top) (hle : n ≤ top) (hnear : top ≤ n + 128) :
    n ∈ seen ∧ f.isDuplicate (.ofNat 16 n) = (true, f) ∨
      n ∉ seen ∧ ∃ f', f.isDuplicate (.ofNat 16 n) = (false, f') ∧
        f'.Remembers (seen ++ [n]) top := by
  obtain rfl | hlt := Nat.eq_or_lt_of_le hle
  · refine Or.inl ⟨h.top_mem, ?_⟩
    rw [h.isDuplicate_eq, ShortestPath.compute_self]
  · have hcap : ¬ Bitmap.CAPACITY < BitVec.ofNat 16 (top - n) := by
      rw [Bitmap.CAPACITY]
      bv_omega
    have hlast : (BitVec.ofNat 16 (top - n) - 1).toNat = top - n - 1 := by bv_omega
    have hbit : BitVec.getLsbD f.history (top - n - 1) = true ↔ n ∈ seen := by
      rw [h.history _ (by omega)]
      constructor
      · intro hseen
        obtain ⟨k, hk, hsum⟩ := hseen
        have heq : k = n := by omega
        rw [← heq]
        exact hk
      · exact fun hn => ⟨n, hn, by omega⟩
    rw [h.isDuplicate_eq, ShortestPath.compute_behind hlt (by omega)]
    dsimp only
    rw [if_neg hcap, Bitmap.isMarked_eq _ (by omega), hlast]
    by_cases hn : n ∈ seen
    · rw [if_pos (hbit.2 hn)]
      exact Or.inl ⟨hn, rfl⟩
    · rw [if_neg (fun hset => hn (hbit.1 hset))]
      refine Or.inr ⟨hn, _, rfl, h.initialized, h.head, List.mem_append_left _ h.top_mem, ?_, ?_⟩
      · intro k hk
        obtain hold | hnew := List.mem_append.1 hk
        · exact h.le_top k hold
        · rw [List.mem_singleton.1 hnew]
          exact hle
      · intro d hd
        dsimp only
        rw [Bitmap.getLsbD_mark _ _ hd, hlast, Bool.or_eq_true, decide_eq_true_eq, h.history d hd]
        constructor
        · intro hset
          obtain ⟨k, hk, hsum⟩ | rfl := hset
          · exact ⟨k, List.mem_append_left _ hk, hsum⟩
          · exact ⟨n, List.mem_append_right _ List.mem_cons_self, by omega⟩
        · intro hseen
          obtain ⟨k, hk, hsum⟩ := hseen
          obtain hold | hnew := List.mem_append.1 hk
          · exact Or.inl ⟨k, hold, hsum⟩
          · rw [List.mem_singleton.1 hnew] at hsum
            exact Or.inr (by omega)

end DuplicateFilter

end Isl
end Leodos
