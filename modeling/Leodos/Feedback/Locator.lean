/-
Locating errors and finding their values.

Finitely many field elements, the locators, each with a value that is not zero, give power
sums.  The polynomial with the inverses of the locators as roots generates their sequence, no
other of that degree does, and the values come back from its derivative.
-/
import Leodos.Feedback.Synthesis
import Mathlib.Algebra.Polynomial.Derivative
import Mathlib.Algebra.Polynomial.Roots
import Mathlib.Algebra.Ring.GeomSum

namespace Leodos
namespace Feedback

open Polynomial

variable {F : Type*} [Field F]

noncomputable def locator (E : Finset F) : F[X] := ∏ x ∈ E, (1 - C x * X)

/-- The power sums of the values `e`, as the coefficients of a polynomial. -/
noncomputable def powerSums (E : Finset F) (e : F → F) (n : Nat) : F[X] :=
  ascending (fun j => ∑ x ∈ E, e x * x ^ j) n

theorem eval_locator (E : Finset F) (y : F) : (locator E).eval y = ∏ x ∈ E, (1 - x * y) := by
  rw [locator, eval_prod]
  simp only [eval_sub, eval_one, eval_mul, eval_C, eval_X]

theorem coeff_zero_locator (E : Finset F) : (locator E).coeff 0 = 1 := by
  rw [coeff_zero_eq_eval_zero, eval_locator]
  apply Finset.prod_eq_one
  intro x _
  rw [mul_zero, sub_zero]

theorem natDegree_factor {x : F} (hx : x ≠ 0) : (1 - C x * X : F[X]).natDegree = 1 := by
  rw [show (1 - C x * X : F[X]) = C (-x) * X + C 1 by rw [C_neg, C_1, neg_mul]; ring]
  exact natDegree_linear (neg_ne_zero.2 hx)

theorem natDegree_locator {E : Finset F} (h0 : (0 : F) ∉ E) : (locator E).natDegree = E.card := by
  have hone : ∀ x ∈ E, (1 - C x * X : F[X]).natDegree = 1 := by
    intro x hx
    exact natDegree_factor fun h => h0 (h ▸ hx)
  rw [locator, natDegree_prod]
  · rw [Finset.sum_congr rfl hone, Finset.sum_const, smul_eq_mul, mul_one]
  · intro x hx h
    have hd := hone x hx
    rw [h, natDegree_zero] at hd
    exact absurd hd (by decide)

theorem eval_locator_eq_zero {E : Finset F} {y : F} (hy : y ≠ 0) :
    (locator E).eval y = 0 ↔ y⁻¹ ∈ E := by
  rw [eval_locator, Finset.prod_eq_zero_iff]
  constructor
  · intro h
    obtain ⟨x, hx, hxy⟩ := h
    rw [← eq_inv_of_mul_eq_one_left (sub_eq_zero.1 hxy).symm]
    exact hx
  · intro h
    exact ⟨y⁻¹, h, by rw [inv_mul_cancel₀ hy, sub_self]⟩

variable [DecidableEq F]

noncomputable def evaluator (E : Finset F) (e : F → F) : F[X] :=
  ∑ x ∈ E, C (e x) * locator (E.erase x)

theorem locator_erase {E : Finset F} {x : F} (hx : x ∈ E) :
    locator E = (1 - C x * X) * locator (E.erase x) :=
  (Finset.mul_prod_erase E _ hx).symm

theorem degree_evaluator {E : Finset F} (h0 : (0 : F) ∉ E) (e : F → F) :
    (evaluator E e).degree < E.card := by
  rw [degree_lt_iff_coeff_zero]
  intro j hj
  rw [evaluator, finsetSum_coeff]
  apply Finset.sum_eq_zero
  intro x hx
  rw [coeff_C_mul, coeff_eq_zero_of_natDegree_lt, mul_zero]
  rw [natDegree_locator fun h => h0 (Finset.mem_of_mem_erase h), Finset.card_erase_of_mem hx]
  have := Finset.card_pos.2 ⟨x, hx⟩
  omega

theorem locator_mul_powerSums (E : Finset F) (e : F → F) (n : Nat) :
    locator E * powerSums E e n =
      evaluator E e - (∑ x ∈ E, C (e x * x ^ n) * locator (E.erase x)) * X ^ n := by
  have hgeom : ∀ x : F, (1 - C x * X : F[X]) * ∑ j ∈ Finset.range n, C (x ^ j) * X ^ j =
      1 - C (x ^ n) * X ^ n := by
    intro x
    have h := mul_neg_geom_sum (C x * X : F[X]) n
    simp only [mul_pow, ← C_pow] at h
    exact h
  have hswap : powerSums E e n =
      ∑ x ∈ E, C (e x) * ∑ j ∈ Finset.range n, C (x ^ j) * X ^ j := by
    simp only [powerSums, ascending, map_sum, Finset.sum_mul, Finset.mul_sum]
    rw [Finset.sum_comm]
    apply Finset.sum_congr rfl
    intro x _
    apply Finset.sum_congr rfl
    intro j _
    rw [C_mul, mul_assoc]
  rw [hswap, Finset.mul_sum, evaluator, Finset.sum_mul, ← Finset.sum_sub_distrib]
  apply Finset.sum_congr rfl
  intro x hx
  rw [locator_erase hx]
  calc (1 - C x * X) * locator (E.erase x) *
        (C (e x) * ∑ j ∈ Finset.range n, C (x ^ j) * X ^ j)
      = C (e x) * locator (E.erase x) *
        ((1 - C x * X) * ∑ j ∈ Finset.range n, C (x ^ j) * X ^ j) := by ring
    _ = C (e x) * locator (E.erase x) * (1 - C (x ^ n) * X ^ n) := by rw [hgeom x]
    _ = C (e x) * locator (E.erase x) -
        C (e x * x ^ n) * locator (E.erase x) * X ^ n := by rw [C_mul]; ring

theorem coeff_evaluator (E : Finset F) (e : F → F) {n j : Nat} (hj : j < n) :
    (evaluator E e).coeff j = (locator E * powerSums E e n).coeff j := by
  rw [locator_mul_powerSums, coeff_sub, coeff_mul_X_pow', if_neg (by omega), sub_zero]

theorem generates_locator {E : Finset F} (h0 : (0 : F) ∉ E) (e : F → F) (n : Nat) :
    Generates (locator E) (powerSums E e n) E.card n := by
  intro j hl hj
  rw [← coeff_evaluator E e hj]
  exact (degree_lt_iff_coeff_zero _ _).1 (degree_evaluator h0 e) j hl

theorem eval_evaluator {E : Finset F} (e : F → F) {x : F} (hx : x ∈ E) (hx0 : x ≠ 0) :
    (evaluator E e).eval x⁻¹ = e x * (locator (E.erase x)).eval x⁻¹ := by
  rw [evaluator, eval_finsetSum, Finset.sum_eq_single x]
  · rw [eval_mul, eval_C]
  · intro y hy hyx
    rw [eval_mul, (eval_locator_eq_zero (inv_ne_zero hx0)).2, mul_zero]
    rw [inv_inv]
    exact Finset.mem_erase.2 ⟨hyx.symm, hx⟩
  · intro h
    exact absurd hx h

theorem eval_locator_erase_ne_zero (E : Finset F) {x : F} (hx0 : x ≠ 0) :
    (locator (E.erase x)).eval x⁻¹ ≠ 0 := by
  rw [Ne, eval_locator_eq_zero (inv_ne_zero hx0), inv_inv]
  exact Finset.notMem_erase x E

theorem eval_derivative_locator {E : Finset F} {x : F} (hx : x ∈ E) (hx0 : x ≠ 0) :
    (derivative (locator E)).eval x⁻¹ = -(x * (locator (E.erase x)).eval x⁻¹) := by
  rw [locator_erase hx, derivative_mul, eval_add, eval_mul, eval_mul]
  have hd : derivative (1 - C x * X : F[X]) = -C x := by
    rw [derivative_sub, derivative_one, derivative_C_mul_X, zero_sub]
  rw [hd, eval_neg, eval_C, eval_sub, eval_one, eval_mul, eval_C, eval_X, mul_inv_cancel₀ hx0,
    sub_self, zero_mul, add_zero, neg_mul]

theorem value_eq {E : Finset F} (e : F → F) {x : F} (hx : x ∈ E) (hx0 : x ≠ 0) :
    -(x * ((evaluator E e).eval x⁻¹ / (derivative (locator E)).eval x⁻¹)) = e x := by
  have hne := eval_locator_erase_ne_zero E hx0
  rw [eval_evaluator e hx hx0, eval_derivative_locator hx hx0, div_neg, mul_neg, neg_neg,
    mul_div_mul_right _ _ hne, mul_div_cancel₀ _ hx0]

/-- A generator with constant term one that is no longer than the locator polynomial is the
locator polynomial. -/
theorem eq_locator {E : Finset F} (h0 : (0 : F) ∉ E) {e : F → F} (he : ∀ x ∈ E, e x ≠ 0)
    {n l : Nat} {f : F[X]} (hhead : f.coeff 0 = 1) (hdegree : f.natDegree ≤ l)
    (hgen : Generates f (powerSums E e n) l n) (hl : l ≤ E.card) (hn : 2 * E.card ≤ n) :
    f = locator E ∧ l = E.card := by
  obtain ⟨p, hp, hps⟩ := hgen.exists_low
  have hcross : locator E * p = f * evaluator E e :=
    cross hdegree (natDegree_locator h0).le (by omega) hp hps (degree_evaluator h0 e)
      fun j hj => coeff_evaluator E e hj
  have hroot : ∀ x ∈ E, f.eval x⁻¹ = 0 := by
    intro x hx
    have hx0 : x ≠ 0 := fun h => h0 (h ▸ hx)
    have h := congrArg (eval x⁻¹) hcross
    have hz : (locator E).eval x⁻¹ = 0 :=
      (eval_locator_eq_zero (inv_ne_zero hx0)).2 (by rwa [inv_inv])
    rw [eval_mul, eval_mul, hz, zero_mul, eval_evaluator e hx hx0] at h
    exact (mul_eq_zero.1 h.symm).resolve_right
      (mul_ne_zero (he x hx) (eval_locator_erase_ne_zero E hx0))
  -- the two agree at zero and at the inverses of the locators
  have heq : f = locator E := by
    have hinj : Set.InjOn (fun x : F => x⁻¹) (insert 0 E : Finset F) :=
      fun _ _ _ _ h => inv_injective h
    have hcard : (insert 0 E : Finset F).card = E.card + 1 := Finset.card_insert_of_notMem h0
    apply Polynomial.eq_of_degrees_lt_of_eval_index_eq (insert 0 E) hinj
    · rw [hcard]
      exact degree_le_natDegree.trans_lt (by exact_mod_cast Nat.lt_succ_of_le (hdegree.trans hl))
    · rw [hcard]
      apply degree_le_natDegree.trans_lt
      exact_mod_cast Nat.lt_succ_of_le (natDegree_locator h0).le
    · intro x hx
      rcases Finset.mem_insert.1 hx with rfl | hx
      · rw [inv_zero, ← coeff_zero_eq_eval_zero, ← coeff_zero_eq_eval_zero, hhead,
          coeff_zero_locator]
      · have hx0 : x ≠ 0 := fun h => h0 (h ▸ hx)
        rw [hroot x hx, (eval_locator_eq_zero (inv_ne_zero hx0)).2 (by rwa [inv_inv])]
  refine ⟨heq, Nat.le_antisymm hl ?_⟩
  rw [← natDegree_locator h0, ← heq]
  exact hdegree

end Feedback
end Leodos
