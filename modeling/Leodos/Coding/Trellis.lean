/-
Survivor paths through a trellis.

A search keeps for every state the best way into it, up to a number that is the same for all
states.  A survivor is followed backwards from its end.  Where it leaves another path it pays
at least as much as that path would, so it cannot leave a path that every detour is worse than
(`Survivors.agree`).
-/
import Mathlib.Algebra.BigOperators.Intervals
import Mathlib.Algebra.Order.BigOperators.Group.Finset
import Mathlib.Tactic.Linarith

namespace Leodos
namespace Trellis

variable {S : Type*} {E : S → S → Prop} {w : Nat → S → S → Int}

/-- The states of `x` follow each other from `a` to `b`. -/
def Path (E : S → S → Prop) (x : Nat → S) (a b : Nat) : Prop :=
  ∀ t, a ≤ t → t < b → E (x t) (x (t + 1))

def weight (w : Nat → S → S → Int) (x : Nat → S) (a b : Nat) : Int :=
  ∑ t ∈ Finset.Ico a b, w t (x t) (x (t + 1))

theorem weight_succ {x : Nat → S} {a b : Nat} (h : a ≤ b) :
    weight w x a (b + 1) = weight w x a b + w b (x b) (x (b + 1)) :=
  Finset.sum_Ico_succ_top h _

/-- The search over `n` steps. -/
structure Survivors (E : S → S → Prop) (w : Nat → S → S → Int) (metric : Nat → S → Int)
    (shift : Nat → Int) (parent : Nat → S → S) (n : Nat) : Prop where
  edge : ∀ t < n, ∀ s, E (parent t s) s
  value : ∀ t < n, ∀ s, metric (t + 1) s + shift t = metric t (parent t s) + w t (parent t s) s
  best : ∀ t < n, ∀ p s, E p s → metric t p + w t p s ≤ metric (t + 1) s + shift t

/-- The path that is followed backwards from time `n`. -/
def Follows (parent : Nat → S → S) (y : Nat → S) (n : Nat) : Prop :=
  ∀ t < n, y t = parent t (y (t + 1))

/-- The states backwards from `s` at time `n`. -/
def backwards (parent : Nat → S → S) (n : Nat) (s : S) : Nat → S
  | 0 => s
  | k + 1 => parent (n - (k + 1)) (backwards parent n s k)

theorem follows_backwards (parent : Nat → S → S) (n : Nat) (s : S) :
    Follows parent (fun t => backwards parent n s (n - t)) n := by
  intro t ht
  obtain ⟨k, hk⟩ : ∃ k, n - t = k + 1 := ⟨n - t - 1, by omega⟩
  change backwards parent n s (n - t) = parent t (backwards parent n s (n - (t + 1)))
  rw [hk, backwards, show n - (k + 1) = t by omega, show n - (t + 1) = k by omega]

namespace Survivors

variable {metric : Nat → S → Int} {shift : Nat → Int} {parent : Nat → S → S} {n : Nat}

theorem follows_path (h : Survivors E w metric shift parent n) {y : Nat → S} {m : Nat}
    (hy : Follows parent y m) (hm : m ≤ n) {a b : Nat} (hb : b ≤ m) : Path E y a b := by
  intro t _ htb
  have hedge := h.edge t (by omega) (y (t + 1))
  rwa [← hy t (by omega)] at hedge

theorem le (h : Survivors E w metric shift parent n) {x : Nat → S} {a b : Nat} (hab : a ≤ b)
    (hb : b ≤ n) (hx : Path E x a b) :
    metric a (x a) + weight w x a b ≤ metric b (x b) + ∑ t ∈ Finset.Ico a b, shift t := by
  induction b, hab using Nat.le_induction with
  | base =>
    rw [weight, Finset.Ico_self, Finset.sum_empty, Finset.sum_empty]
  | succ b hab ih =>
    have hprev := ih (Nat.le_of_succ_le hb) fun t ht htb => hx t ht (Nat.lt_succ_of_lt htb)
    have hstep := h.best b hb (x b) (x (b + 1)) (hx b hab (Nat.lt_succ_self b))
    rw [weight_succ hab, Finset.sum_Ico_succ_top hab]
    linarith

theorem eq (h : Survivors E w metric shift parent n) {y : Nat → S} {m : Nat}
    (hy : Follows parent y m) (hm : m ≤ n) {a b : Nat} (hab : a ≤ b) (hb : b ≤ m) :
    metric a (y a) + weight w y a b = metric b (y b) + ∑ t ∈ Finset.Ico a b, shift t := by
  induction b, hab using Nat.le_induction with
  | base =>
    rw [weight, Finset.Ico_self, Finset.sum_empty, Finset.sum_empty]
  | succ b hab ih =>
    have hprev := ih (Nat.le_of_succ_le hb)
    have hstep := h.value b (by omega) (y (b + 1))
    rw [← hy b (by omega)] at hstep
    rw [weight_succ hab, Finset.sum_Ico_succ_top hab]
    linarith

theorem exchange (h : Survivors E w metric shift parent n) {x y : Nat → S} {m : Nat}
    (hy : Follows parent y m) (hm : m ≤ n) {a b : Nat} (hab : a ≤ b) (hb : b ≤ m)
    (hx : Path E x a b) (hend : metric b (x b) ≤ metric b (y b)) :
    metric a (x a) + weight w x a b ≤ metric a (y a) + weight w y a b := by
  have hle := h.le hab (hb.trans hm) hx
  have heq := h.eq hy hm hab hb
  linarith

end Survivors

/-- The stretch around `j` in which two paths are apart: it begins where they were last together,
or at the start, and ends where they meet again, or at `m`. -/
theorem exists_detour [DecidableEq S] (x y : Nat → S) {j m : Nat} (hj : j < m) :
    ∃ a b, a ≤ j ∧ j < b ∧ b ≤ m ∧ (x a = y a ∨ a = 0) ∧ (x b = y b ∨ b = m) ∧
      ∀ t, a < t → t < b → x t ≠ y t := by
  have hbefore : ∃ a ≤ j, (x a = y a ∨ a = 0) ∧ ∀ t, a < t → t ≤ j → x t ≠ y t := by
    by_cases hsome : ∃ a ≤ j, x a = y a
    · obtain ⟨a₀, ha₀, heq₀⟩ := hsome
      refine ⟨Nat.findGreatest (fun a => x a = y a) j, Nat.findGreatest_le j,
        .inl (Nat.findGreatest_spec (P := fun a => x a = y a) ha₀ heq₀), ?_⟩
      intro t hat htj heq
      exact absurd (Nat.le_findGreatest htj heq) (Nat.not_le.2 hat)
    · exact ⟨0, Nat.zero_le j, .inr rfl, fun t _ htj heq => hsome ⟨t, htj, heq⟩⟩
  have hbehind : ∃ b, j < b ∧ b ≤ m ∧ (x b = y b ∨ b = m) ∧ ∀ t, j < t → t < b → x t ≠ y t := by
    have hex : ∃ b, j < b ∧ (x b = y b ∨ b = m) := ⟨m, hj, .inr rfl⟩
    refine ⟨Nat.find hex, (Nat.find_spec hex).1, Nat.find_min' hex ⟨hj, .inr rfl⟩,
      (Nat.find_spec hex).2, ?_⟩
    intro t hjt htb heq
    exact Nat.find_min hex htb ⟨hjt, .inl heq⟩
  obtain ⟨a, haj, ha, hapart⟩ := hbefore
  obtain ⟨b, hjb, hbm, hb, hbpart⟩ := hbehind
  refine ⟨a, b, haj, hjb, hbm, ha, hb, ?_⟩
  intro t hat htb
  rcases Nat.lt_or_ge j t with hjt | htj
  · exact hbpart t hjt htb
  · exact hapart t hat htj

/-- A survivor agrees with a path that every detour is worse than, up to `L` steps before its
end, or to its end when the two end in one state. -/
theorem Survivors.agree [DecidableEq S] {metric : Nat → S → Int} {shift : Nat → Int}
    {parent : Nat → S → S} {n : Nat} (h : Survivors E w metric shift parent n) {x y : Nat → S}
    {m L : Nat} (hy : Follows parent y m) (hm : m ≤ n) (hx : Path E x 0 n)
    (hend : metric m (x m) ≤ metric m (y m))
    (hdetour : ∀ a b (z : Nat → S), a < b → b ≤ n → Path E z a b → x a = z a →
      x (a + 1) ≠ z (a + 1) → (∀ t, a < t → t < b → x t ≠ z t) → (x b = z b ∨ a + L ≤ b) →
      weight w z a b < weight w x a b)
    (hstart : ∀ b (z : Nat → S), b ≤ n → Path E z 0 b → x 0 ≠ z 0 →
      metric 0 (z 0) + weight w z 0 b < metric 0 (x 0) + weight w x 0 b)
    {j : Nat} (hj : j < m) (hlast : x m = y m ∨ j + L ≤ m) : x (j + 1) = y (j + 1) := by
  by_contra hne
  obtain ⟨a, b, haj, hjb, hbm, ha, hb, hapart⟩ := exists_detour x y hj
  have hypath : Path E y a b := h.follows_path hy hm hbm
  have hxpath : Path E x a b := fun t _ htb => hx t (Nat.zero_le t) (by omega)
  have hbend : metric b (x b) ≤ metric b (y b) := by
    rcases hb with hb | rfl
    · rw [hb]
    · exact hend
  have hle := h.exchange hy hm (show a ≤ b by omega) hbm hxpath hbend
  by_cases hab : x a = y a
  · have hclose : x b = y b ∨ a + L ≤ b := by
      rcases hb with hb | rfl
      · exact .inl hb
      · rcases hlast with hlast | hlast
        · exact .inl hlast
        · exact .inr (by omega)
    have hnext : x (a + 1) ≠ y (a + 1) := by
      rcases Nat.lt_or_eq_of_le haj with hlt | rfl
      · exact hapart (a + 1) (Nat.lt_succ_self a) (by omega)
      · exact hne
    have hlt := hdetour a b y (by omega) (by omega) hypath hab hnext hapart hclose
    rw [hab] at hle
    omega
  · obtain rfl : a = 0 := ha.resolve_left hab
    have hlt := hstart b y (by omega) hypath hab
    omega

end Trellis
end Leodos
