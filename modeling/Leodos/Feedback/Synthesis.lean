/-
Sequences of coefficients as polynomials, from either end.

`horner a x n` is the value at `x` of the polynomial with `a 0` as the coefficient of the
highest of `n` powers, the way a register computes it.  `ascending a n` has `a 0` as its
constant term.
-/
import Mathlib.Algebra.Polynomial.Coeff
import Mathlib.Data.List.GetD
import Mathlib.LinearAlgebra.Lagrange

namespace Leodos
namespace Feedback

open Polynomial

variable {F : Type*} [Field F]

def horner (a : Nat → F) (x : F) : Nat → F
  | 0 => 0
  | n + 1 => horner a x n * x + a n

theorem horner_zero (a : Nat → F) (x : F) : horner a x 0 = 0 := rfl

theorem horner_succ (a : Nat → F) (x : F) (n : Nat) :
    horner a x (n + 1) = horner a x n * x + a n := rfl

theorem horner_congr {a b : Nat → F} {n : Nat} (h : ∀ i < n, a i = b i) (x : F) :
    horner a x n = horner b x n := by
  induction n with
  | zero => rfl
  | succ n ih =>
    rw [horner_succ, horner_succ, ih fun i hi => h i (Nat.lt_succ_of_lt hi),
      h n (Nat.lt_succ_self n)]

theorem horner_append (a : Nat → F) (x : F) (m n : Nat) :
    horner a x (m + n) = horner a x m * x ^ n + horner (fun i => a (m + i)) x n := by
  induction n with
  | zero => rw [Nat.add_zero, pow_zero, mul_one, horner_zero, add_zero]
  | succ n ih =>
    rw [← Nat.add_assoc, horner_succ, ih, horner_succ, pow_succ]
    ring

theorem horner_head (a : Nat → F) (x : F) (n : Nat) :
    horner a x (n + 1) = a 0 * x ^ n + horner (fun i => a (i + 1)) x n := by
  rw [Nat.add_comm n 1, horner_append, horner_succ, horner_zero, zero_mul, zero_add]
  simp only [Nat.add_comm 1]

theorem horner_add (a b : Nat → F) (x : F) (n : Nat) :
    horner (fun i => a i + b i) x n = horner a x n + horner b x n := by
  induction n with
  | zero => rw [horner_zero, horner_zero, horner_zero, add_zero]
  | succ n ih =>
    rw [horner_succ, ih, horner_succ, horner_succ]
    ring

theorem horner_mul_left (c : F) (a : Nat → F) (x : F) (n : Nat) :
    horner (fun i => c * a i) x n = c * horner a x n := by
  induction n with
  | zero => rw [horner_zero, horner_zero, mul_zero]
  | succ n ih =>
    rw [horner_succ, ih, horner_succ]
    ring

theorem horner_eq_sum (a : Nat → F) (x : F) (n : Nat) :
    horner a x n = ∑ i ∈ Finset.range n, a i * x ^ (n - 1 - i) := by
  induction n with
  | zero => rfl
  | succ n ih =>
    rw [horner_succ, ih, Finset.sum_range_succ, Finset.sum_mul, Nat.add_sub_cancel, Nat.sub_self,
      pow_zero, mul_one]
    congr 1
    apply Finset.sum_congr rfl
    intro i hi
    have hin := Finset.mem_range.1 hi
    rw [mul_assoc, ← pow_succ, show n - 1 - i + 1 = n - i by omega]

noncomputable def ascending (a : Nat → F) (n : Nat) : F[X] :=
  ∑ i ∈ Finset.range n, C (a i) * X ^ i

theorem coeff_ascending (a : Nat → F) (n i : Nat) :
    (ascending a n).coeff i = if i < n then a i else 0 := by
  rw [ascending, finsetSum_coeff]
  simp only [coeff_C_mul_X_pow]
  rw [Finset.sum_ite_eq]
  simp only [Finset.mem_range]

theorem degree_ascending (a : Nat → F) (n : Nat) : (ascending a n).degree < n := by
  rw [degree_lt_iff_coeff_zero]
  intro i hi
  rw [coeff_ascending, if_neg (Nat.not_lt.2 hi)]

theorem eq_ascending {p : F[X]} {n : Nat} (hp : p.degree < n) {a : Nat → F}
    (h : ∀ i < n, p.coeff i = a i) : p = ascending a n := by
  ext i
  rw [coeff_ascending]
  split
  · next hi => exact h i hi
  · next hi => exact (degree_lt_iff_coeff_zero p n).1 hp i (Nat.le_of_not_lt hi)

theorem eval_ascending (a : Nat → F) (x : F) (n : Nat) :
    (ascending a n).eval x = horner (fun i => a (n - 1 - i)) x n := by
  rw [horner_eq_sum, ascending, eval_finsetSum, ← Finset.sum_range_reflect]
  apply Finset.sum_congr rfl
  intro i _
  rw [eval_mul, eval_C, eval_pow, eval_X]

theorem eq_zero_of_horner {a : Nat → F} {n : Nat} {x : Nat → F}
    (hinj : Set.InjOn x (Finset.range n)) (h : ∀ j < n, horner a (x j) n = 0) :
    ∀ i < n, a i = 0 := by
  have hrev : ∀ y, (ascending (fun i => a (n - 1 - i)) n).eval y = horner a y n := by
    intro y
    rw [eval_ascending]
    apply horner_congr
    intro i hi
    congr 1
    omega
  have hzero : ascending (fun i => a (n - 1 - i)) n = 0 := by
    apply Polynomial.eq_zero_of_degree_lt_of_eval_index_eq_zero (Finset.range n) hinj
    · rw [Finset.card_range]
      exact degree_ascending _ n
    · intro j hj
      rw [hrev, h j (Finset.mem_range.1 hj)]
  intro i hi
  have hcoeff := coeff_ascending (fun i => a (n - 1 - i)) n (n - 1 - i)
  rw [hzero, coeff_zero, if_pos (by omega), show n - 1 - (n - 1 - i) = i by omega] at hcoeff
  exact hcoeff.symm

theorem foldl_horner (xs : List F) (x : F) :
    xs.foldl (fun result coef => result * x + coef) 0 =
      horner (fun i => xs.getD i 0) x xs.length := by
  induction xs using List.reverseRecOn with
  | nil => rfl
  | append_singleton xs c ih =>
    rw [List.foldl_append, ih, List.length_append, List.length_singleton, horner_succ,
      List.foldl_cons, List.foldl_nil]
    have hlast : (xs ++ [c]).getD xs.length 0 = c := by
      rw [List.getD_append_right _ _ _ _ (le_refl _), Nat.sub_self]
      rfl
    rw [hlast]
    congr 2
    apply horner_congr
    intro i hi
    rw [List.getD_append _ _ _ _ hi]

end Feedback
end Leodos

/-
Synthesis of the shortest linear feedback for a sequence over a field.

A polynomial `f` with constant term one generates the coefficients of `s` from `l` on when
their product with `f` has none of degree `l` or more.  Two polynomials are carried along: the
one found so far, and one whose product has a single one at the next place.
-/

namespace Leodos
namespace Feedback

open Polynomial

variable {F : Type*} [Field F]

/-- The product of `f` and `s` vanishes from `l` up to `n`. -/
def Generates (f s : F[X]) (l n : Nat) : Prop := ∀ j, l ≤ j → j < n → (f * s).coeff j = 0

namespace Generates

variable {f g s : F[X]} {l n : Nat}

theorem mono (h : Generates f s l n) {l' n' : Nat} (hl : l ≤ l') (hn : n' ≤ n) :
    Generates f s l' n' :=
  fun j hlj hjn => h j (hl.trans hlj) (hjn.trans_le hn)

theorem sub_C_mul (hf : Generates f s l n) (hg : Generates g s l n) (c : F) :
    Generates (f - C c * g) s l n := by
  intro j hlj hjn
  rw [sub_mul, mul_assoc, coeff_sub, coeff_C_mul, hf j hlj hjn, hg j hlj hjn, mul_zero, sub_zero]

theorem C_mul (h : Generates f s l n) (c : F) : Generates (C c * f) s l n := by
  intro j hlj hjn
  rw [mul_assoc, coeff_C_mul, h j hlj hjn, mul_zero]

theorem X_mul (h : Generates f s l n) : Generates (X * f) s (l + 1) (n + 1) := by
  intro j hlj hjn
  cases j with
  | zero => exact absurd hlj (Nat.not_succ_le_zero l)
  | succ j =>
    rw [mul_assoc, coeff_X_mul]
    exact h j (Nat.le_of_succ_le_succ hlj) (Nat.lt_of_succ_lt_succ hjn)

theorem succ (h : Generates f s l n) (hn : (f * s).coeff n = 0) : Generates f s l (n + 1) := by
  intro j hlj hjn
  rcases Nat.lt_succ_iff_lt_or_eq.1 hjn with hjn | rfl
  · exact h j hlj hjn
  · exact hn

/-- At a place that `g` generates, a factor `f` of low degree leaves only its constant term. -/
theorem coeff_mul_mul (hg : Generates g s l n) (hf : f.natDegree + l ≤ n) :
    (f * (g * s)).coeff n = f.coeff 0 * (g * s).coeff n := by
  rw [coeff_mul, Finset.Nat.sum_antidiagonal_eq_sum_range_succ
    (fun i j => f.coeff i * (g * s).coeff j), Finset.sum_eq_single 0]
  · rw [Nat.sub_zero]
  · intro i hi hi0
    have hin : i ≤ n := Nat.lt_succ_iff.1 (Finset.mem_range.1 hi)
    rcases Nat.lt_or_ge f.natDegree i with hd | hd
    · rw [coeff_eq_zero_of_natDegree_lt hd, zero_mul]
    · rw [hg (n - i) (by omega) (by omega), mul_zero]
  · intro h0
    exact absurd (Finset.mem_range.2 (Nat.succ_pos n)) h0

end Generates

/-! ## One step -/

/-- What is known once `n` terms are read.  The auxiliary polynomial is already shifted to the
next place. -/
structure Synthesis (s : F[X]) (n : Nat) (f aux : F[X]) (l : Nat) : Prop where
  head : f.coeff 0 = 1
  degree : f.natDegree ≤ l
  le : l ≤ n
  generates : Generates f s l n
  aux_degree : aux.natDegree ≤ n + 1 - l
  aux_generates : Generates aux s (n + 1 - l) n
  aux_head : aux.coeff 0 = 0
  aux_one : l = 0 ∨ (aux * s).coeff n = 1

namespace Synthesis

variable {s f aux : F[X]} {n l : Nat}

theorem start (s : F[X]) : Synthesis s 0 1 X 0 where
  head := coeff_one_zero
  degree := natDegree_one.le
  le := le_refl 0
  generates := fun _ _ h => absurd h (Nat.not_lt_zero _)
  aux_degree := natDegree_X_le
  aux_generates := fun _ _ h => absurd h (Nat.not_lt_zero _)
  aux_head := coeff_X_zero
  aux_one := .inl rfl

theorem shift (h : Synthesis s n f aux l) {f' : F[X]} (hhead : f'.coeff 0 = 1)
    (hdegree : f'.natDegree ≤ l) (hgen : Generates f' s l (n + 1)) :
    Synthesis s (n + 1) f' (X * aux) l where
  head := hhead
  degree := hdegree
  le := h.le.trans (Nat.le_succ n)
  generates := hgen
  aux_degree := by
    have hle := h.le
    calc (X * aux).natDegree ≤ (X : F[X]).natDegree + aux.natDegree := natDegree_mul_le
      _ ≤ 1 + (n + 1 - l) := Nat.add_le_add natDegree_X_le h.aux_degree
      _ = n + 1 + 1 - l := by omega
  aux_generates := by
    have hle := h.le
    have hX := h.aux_generates.X_mul
    rwa [show n + 1 - l + 1 = n + 1 + 1 - l by omega] at hX
  aux_head := by rw [coeff_X_mul_zero]
  aux_one := by
    rcases h.aux_one with hl | hone
    · exact .inl hl
    · right
      rw [mul_assoc, coeff_X_mul, hone]

theorem keep (h : Synthesis s n f aux l) (hδ : (f * s).coeff n = 0) :
    Synthesis s (n + 1) f (X * aux) l :=
  h.shift h.head h.degree (h.generates.succ hδ)

theorem coeff_repaired_zero (h : Synthesis s n f aux l) (δ : F) :
    (f - C δ * aux).coeff 0 = 1 := by
  rw [coeff_sub, coeff_C_mul, h.aux_head, mul_zero, sub_zero, h.head]

theorem natDegree_repaired (h : Synthesis s n f aux l) (δ : F) :
    (f - C δ * aux).natDegree ≤ max l (n + 1 - l) :=
  (natDegree_sub_le _ _).trans
    (max_le_max h.degree ((natDegree_C_mul_le _ _).trans h.aux_degree))

theorem coeff_repaired (h : Synthesis s n f aux l) (hl : l ≠ 0) :
    ((f - C ((f * s).coeff n) * aux) * s).coeff n = 0 := by
  rw [sub_mul, mul_assoc, coeff_sub, coeff_C_mul, h.aux_one.resolve_left hl, mul_one, sub_self]

theorem repair (h : Synthesis s n f aux l) (hl : n < 2 * l) :
    Synthesis s (n + 1) (f - C ((f * s).coeff n) * aux) (X * aux) l := by
  have hle : n + 1 - l ≤ l := by omega
  apply h.shift (h.coeff_repaired_zero _)
  · rw [← max_eq_left hle]
    exact h.natDegree_repaired _
  · exact (h.generates.sub_C_mul (h.aux_generates.mono hle le_rfl) _).succ
      (h.coeff_repaired (by omega))

theorem lengthen (h : Synthesis s n f aux l) (hl : 2 * l ≤ n) (hδ : (f * s).coeff n ≠ 0) :
    Synthesis s (n + 1) (f - C ((f * s).coeff n) * aux)
      (X * (C ((f * s).coeff n)⁻¹ * f)) (n + 1 - l) where
  head := h.coeff_repaired_zero _
  degree := by
    have hle : l ≤ n + 1 - l := by omega
    rw [← max_eq_right hle]
    exact h.natDegree_repaired _
  le := Nat.sub_le _ _
  generates := by
    have hle : l ≤ n + 1 - l := by omega
    have hgen := (h.generates.mono hle le_rfl).sub_C_mul h.aux_generates ((f * s).coeff n)
    by_cases hl0 : l = 0
    · intro j hlj hjn
      omega
    · exact hgen.succ (h.coeff_repaired hl0)
  aux_degree := by
    calc (X * (C ((f * s).coeff n)⁻¹ * f)).natDegree
        ≤ (X : F[X]).natDegree + (C ((f * s).coeff n)⁻¹ * f).natDegree := natDegree_mul_le
      _ ≤ 1 + l := Nat.add_le_add natDegree_X_le ((natDegree_C_mul_le _ _).trans h.degree)
      _ = n + 1 + 1 - (n + 1 - l) := by have := h.le; omega
  aux_generates := by
    have hX := (h.generates.C_mul ((f * s).coeff n)⁻¹).X_mul
    have hle := h.le
    rwa [show l + 1 = n + 1 + 1 - (n + 1 - l) by omega] at hX
  aux_head := coeff_X_mul_zero _
  aux_one := by
    right
    rw [mul_assoc, coeff_X_mul, mul_assoc, coeff_C_mul, inv_mul_cancel₀ hδ]

theorem lengthen_le (h : Synthesis s n f aux l) (hδ : (f * s).coeff n ≠ 0) {g : F[X]} {v N : Nat}
    (hhead : g.coeff 0 = 1) (hdegree : g.natDegree ≤ v) (hgen : Generates g s v N) (hn : n < N) :
    n + 1 - l ≤ v := by
  by_contra hlt
  have hf : (g * (f * s)).coeff n = (f * s).coeff n := by
    rw [h.generates.coeff_mul_mul (by omega), hhead, one_mul]
  have hg : (f * (g * s)).coeff n = 0 := by
    have hdeg := h.degree
    rw [(hgen.mono le_rfl hn.le).coeff_mul_mul (by omega), hgen n (by omega) hn, mul_zero]
  rw [← hf, mul_left_comm, hg] at hδ
  exact hδ rfl

end Synthesis

/-! ## Two generators of one sequence -/

theorem Generates.exists_low {f s : F[X]} {l n : Nat} (h : Generates f s l n) :
    ∃ r : F[X], r.degree < l ∧ ∀ j < n, r.coeff j = (f * s).coeff j := by
  refine ⟨ascending (fun j => (f * s).coeff j) l, degree_ascending _ l, ?_⟩
  intro j hj
  rw [coeff_ascending]
  split
  · rfl
  · next hjl => exact (h j (Nat.le_of_not_lt hjl) hj).symm

theorem coeff_mul_congr {f p q : F[X]} {n : Nat} (h : ∀ j < n, p.coeff j = q.coeff j) :
    ∀ j < n, (f * p).coeff j = (f * q).coeff j := by
  intro j hj
  rw [coeff_mul, coeff_mul]
  apply Finset.sum_congr rfl
  intro i hi
  have hij := Finset.HasAntidiagonal.mem_antidiagonal.1 hi
  rw [h i.2 (by omega)]

theorem degree_mul_lt {f p : F[X]} {l v : Nat} (hf : f.natDegree ≤ l) (hp : p.degree < v) :
    (f * p).degree < (l + v : Nat) := by
  rw [degree_lt_iff_coeff_zero] at hp ⊢
  intro j hj
  rw [coeff_mul]
  apply Finset.sum_eq_zero
  intro i hi
  have hij := Finset.HasAntidiagonal.mem_antidiagonal.1 hi
  rcases Nat.lt_or_ge l i.1 with hl | hl
  · rw [coeff_eq_zero_of_natDegree_lt (hf.trans_lt hl), zero_mul]
  · rw [hp i.2 (by omega), mul_zero]

theorem cross {f g s p q : F[X]} {l v n : Nat} (hf : f.natDegree ≤ l) (hg : g.natDegree ≤ v)
    (hn : l + v ≤ n) (hp : p.degree < l) (hps : ∀ j < n, p.coeff j = (f * s).coeff j)
    (hq : q.degree < v) (hqs : ∀ j < n, q.coeff j = (g * s).coeff j) : g * p = f * q := by
  ext j
  rcases Nat.lt_or_ge j n with hj | hj
  · rw [coeff_mul_congr hps j hj, coeff_mul_congr hqs j hj, mul_left_comm]
  · have hgp := degree_mul_lt hg hp
    have hfq := degree_mul_lt hf hq
    rw [degree_lt_iff_coeff_zero] at hgp hfq
    rw [hgp j (by omega), hfq j (by omega)]

end Feedback
end Leodos
