/-
Potentials of an assignment problem.

Potentials that stay below the costs bound the total of every assignment from below.  An
assignment whose pairs are all tight meets the bound (`Potentials.optimal`).
-/
import Mathlib.Algebra.BigOperators.Group.Finset.Basic
import Mathlib.Algebra.Order.BigOperators.Group.Finset
import Mathlib.Data.Fintype.BigOperators

namespace Leodos
namespace Assignment

variable {ι α : Type} [Fintype ι] [AddCommGroup α] [PartialOrder α] [IsOrderedAddMonoid α]

def total (cost : ι → ι → α) (assignment : Equiv.Perm ι) : α :=
  ∑ i, cost i (assignment i)

/-- The part of the total that the marked tasks make up. -/
def spent (cost : ι → ι → α) (marked : ι → Bool) (assignment : Equiv.Perm ι) : α :=
  ∑ i, if marked i = true then cost i (assignment i) else 0

/-- `u` and `v` stay below the costs. -/
def Potentials (cost : ι → ι → α) (u v : ι → α) : Prop := ∀ i j, u i + v j ≤ cost i j

/-- No assignment costs less than this one. -/
def Optimal (cost : ι → ι → α) (assignment : Equiv.Perm ι) : Prop :=
  ∀ other, total cost assignment ≤ total cost other

variable {cost : ι → ι → α} {u v : ι → α}

omit [PartialOrder α] [IsOrderedAddMonoid α] in
theorem sum_potentials (u v : ι → α) (assignment : Equiv.Perm ι) :
    ∑ i, (u i + v (assignment i)) = ∑ i, u i + ∑ j, v j := by
  rw [Finset.sum_add_distrib, Equiv.sum_comp assignment v]

theorem Potentials.le_total (h : Potentials cost u v) (assignment : Equiv.Perm ι) :
    ∑ i, u i + ∑ j, v j ≤ total cost assignment := by
  rw [← sum_potentials u v assignment]
  exact Finset.sum_le_sum fun i _ => h i (assignment i)

theorem Potentials.optimal (h : Potentials cost u v) {assignment : Equiv.Perm ι}
    (htight : ∀ i, u i + v (assignment i) = cost i (assignment i)) : Optimal cost assignment := by
  intro other
  calc total cost assignment
    _ = ∑ i, (u i + v (assignment i)) := Finset.sum_congr rfl fun i _ => (htight i).symm
    _ = ∑ i, u i + ∑ j, v j := sum_potentials u v assignment
    _ ≤ total cost other := h.le_total other

omit [IsOrderedAddMonoid α] in
theorem Optimal.total_eq {assignment other : Equiv.Perm ι} (h : Optimal cost assignment)
    (h' : Optimal cost other) : total cost assignment = total cost other :=
  le_antisymm (h other) (h' assignment)

theorem spent_le_total (hcost : ∀ i j, 0 ≤ cost i j) (marked : ι → Bool)
    (assignment : Equiv.Perm ι) : spent cost marked assignment ≤ total cost assignment := by
  refine Finset.sum_le_sum fun i _ => ?_
  split
  · exact le_rfl
  · exact hcost i (assignment i)

omit [PartialOrder α] [IsOrderedAddMonoid α] in
theorem spent_swap [DecidableEq ι] (cost : ι → ι → α) {marked : ι → Bool} {i k : ι}
    (hi : marked i = false) (hk : marked k = false) (assignment : Equiv.Perm ι) :
    spent cost (Function.update marked i true) ((Equiv.swap i k).trans assignment) =
      spent cost marked assignment + cost i (assignment k) := by
  have hterm : ∀ l, (if Function.update marked i true l = true then
        cost l ((Equiv.swap i k).trans assignment l) else 0) =
      (if marked l = true then cost l (assignment l) else 0) +
        if l = i then cost i (assignment k) else 0 := by
    intro l
    by_cases hli : l = i
    · subst hli
      simp [hi]
    · by_cases hlk : l = k
      · subst hlk
        simp [hk, hli]
      · simp [hli, Equiv.swap_apply_of_ne_of_ne hli hlk]
  rw [spent, Finset.sum_congr rfl fun l _ => hterm l, Finset.sum_add_distrib,
    Finset.sum_ite_eq' Finset.univ i, if_pos (Finset.mem_univ i), spent]

end Assignment
end Leodos
