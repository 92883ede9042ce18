/-
Distance on a circle of `n` places.

A step the shorter way round lowers the distance by one; at exactly half way round
either step does.  A range runs forward from its first place to its last.
-/
import Mathlib.Order.Interval.Finset.Nat
import Mathlib.Data.Nat.ModEq

namespace Leodos
namespace Circle

/-- Steps forward from `a` to `b` on a ring of `n`. -/
def arc (n a b : Nat) : Nat := if a ≤ b then b - a else n - a + b

/-- Steps the shorter way round. -/
def gap (n a b : Nat) : Nat := min (arc n a b) (arc n b a)

def succ (n a : Nat) : Nat := if a + 1 = n then 0 else a + 1

def pred (n a : Nat) : Nat := if a = 0 then n - 1 else a - 1

theorem gap_self (n a : Nat) : gap n a a = 0 := by
  rw [gap, arc, if_pos (Nat.le_refl a)]
  omega

theorem gap_eq_zero {n a b : Nat} (ha : a < n) (hb : b < n) (h : gap n a b = 0) : a = b := by
  unfold gap arc at h
  split at h <;> split at h <;> omega

theorem succ_lt {n a : Nat} (ha : a < n) : succ n a < n := by
  unfold succ
  split <;> omega

theorem pred_lt {n a : Nat} (ha : a < n) : pred n a < n := by
  unfold pred
  split <;> omega

theorem arc_self (n a : Nat) : arc n a a = 0 := by
  rw [arc, if_pos (Nat.le_refl a), Nat.sub_self]

theorem arc_lt {n a b : Nat} (ha : a < n) (hb : b < n) : arc n a b < n := by
  unfold arc
  split <;> omega

theorem arc_add_arc {n a b : Nat} (ha : a < n) (hb : b < n) (hne : a ≠ b) :
    arc n a b + arc n b a = n := by
  unfold arc
  rcases Nat.lt_or_gt_of_ne hne with h | h
  · rw [if_pos (Nat.le_of_lt h), if_neg (Nat.not_le_of_lt h)]
    omega
  · rw [if_neg (Nat.not_le_of_lt h), if_pos (Nat.le_of_lt h)]
    omega

theorem arc_succ {n a b : Nat} (ha : a < n) (hb : b < n) (hne : a ≠ b) :
    arc n (succ n a) b + 1 = arc n a b := by
  unfold succ
  by_cases hlast : a + 1 = n
  · rw [if_pos hlast, arc, arc, if_pos (Nat.zero_le b), if_neg (by omega)]
    omega
  · rw [if_neg hlast, arc, arc]
    by_cases h : a ≤ b
    · rw [if_pos h, if_pos (by omega)]
      omega
    · rw [if_neg h, if_neg (by omega)]
      omega

theorem arc_pred {n a b : Nat} (hb : b < n) (hne : a ≠ b) :
    arc n b (pred n a) + 1 = arc n b a := by
  unfold pred
  by_cases hzero : a = 0
  · rw [if_pos hzero, arc, arc, if_pos (by omega), if_neg (by omega)]
    omega
  · rw [if_neg hzero, arc, arc]
    by_cases h : b ≤ a
    · rw [if_pos h, if_pos (by omega)]
      omega
    · rw [if_neg h, if_neg (by omega)]
      omega

theorem gap_succ {n a b : Nat} (ha : a < n) (hb : b < n) (hne : a ≠ b)
    (hshort : arc n a b ≤ arc n b a) : gap n (succ n a) b + 1 = gap n a b := by
  have hstep := arc_succ ha hb hne
  have hsum := arc_add_arc ha hb hne
  unfold gap
  by_cases hgoal : succ n a = b
  · rw [hgoal, arc_self] at hstep ⊢
    omega
  · have hsum' := arc_add_arc (succ_lt ha) hb hgoal
    omega

theorem gap_pred {n a b : Nat} (ha : a < n) (hb : b < n)
    (hshort : arc n b a < arc n a b) : gap n (pred n a) b + 1 = gap n a b := by
  have hne : a ≠ b := fun he => by rw [he] at hshort; exact absurd hshort (Nat.lt_irrefl _)
  have hstep := arc_pred hb hne
  have hsum := arc_add_arc ha hb hne
  unfold gap
  by_cases hgoal : pred n a = b
  · rw [hgoal, arc_self] at hstep ⊢
    omega
  · have hsum' := arc_add_arc (pred_lt ha) hb hgoal
    omega

/-! ## Ranges -/

/-- The places passed on the way forward from `a` to `b`, both included. -/
def Within (a b v : Nat) : Prop := if a ≤ b then a ≤ v ∧ v ≤ b else a ≤ v ∨ v ≤ b

instance (a b v : Nat) : Decidable (Within a b v) := by
  unfold Within
  infer_instance

theorem within_iff {n a b v : Nat} (ha : a < n) (hb : b < n) (hv : v < n) :
    Within a b v ↔ arc n a v ≤ arc n a b := by
  unfold Within arc
  by_cases hab : a ≤ b
  · rw [if_pos hab, if_pos hab]
    by_cases hav : a ≤ v
    · rw [if_pos hav]
      omega
    · rw [if_neg hav]
      omega
  · rw [if_neg hab, if_neg hab]
    by_cases hav : a ≤ v
    · rw [if_pos hav]
      omega
    · rw [if_neg hav]
      omega

theorem card_within {n a b : Nat} (ha : a < n) (hb : b < n) :
    ((Finset.range n).filter (Within a b)).card = arc n a b + 1 := by
  unfold arc
  by_cases hab : a ≤ b
  · have hset : (Finset.range n).filter (Within a b) = Finset.Icc a b := by
      ext v
      rw [Finset.mem_filter, Finset.mem_range, Finset.mem_Icc, Within, if_pos hab]
      omega
    rw [hset, Nat.card_Icc, if_pos hab]
    omega
  · have hset : (Finset.range n).filter (Within a b) = Finset.range (b + 1) ∪ Finset.Ico a n := by
      ext v
      rw [Finset.mem_filter, Finset.mem_range, Finset.mem_union, Finset.mem_range,
        Finset.mem_Ico, Within, if_neg hab]
      omega
    have hdisjoint : Disjoint (Finset.range (b + 1)) (Finset.Ico a n) := by
      rw [Finset.disjoint_left]
      intro v hlow hhigh
      rw [Finset.mem_range] at hlow
      rw [Finset.mem_Ico] at hhigh
      omega
    rw [hset, Finset.card_union_of_disjoint hdisjoint, Finset.card_range, Nat.card_Ico, if_neg hab]
    omega

/-- The place that lies `d` steps on, among the residues of `n`. -/
theorem arc_mod_eq_iff {n a d : Nat} (ha : a < n) (hd : d < n) (x : Nat) :
    arc n a (x % n) = d ↔ a + d ≡ x [MOD n] := by
  have hx : x % n < n := Nat.mod_lt x (by omega)
  have hsum : (a + d) % n = if a + d < n then a + d else a + d - n := by
    by_cases h : a + d < n
    · rw [if_pos h, Nat.mod_eq_of_lt h]
    · rw [if_neg h, Nat.mod_eq_sub_mod (Nat.le_of_not_lt h), Nat.mod_eq_of_lt (by omega)]
  rw [Nat.ModEq, hsum, arc]
  by_cases h : a ≤ x % n
  · rw [if_pos h]
    split <;> omega
  · rw [if_neg h]
    split <;> omega

end Circle
end Leodos
