/-
How far apart the paths of the trellis are.

Two paths that part are at least nine symbols apart when they meet again, or after twenty steps.
By linearity it is enough to look at the paths that leave the state zero.
-/
import Mathlib.Algebra.BigOperators.Ring.Finset
import Mathlib.Data.Nat.Bitwise
import Mathlib.Tactic.Ring
import Leodos.Coding.Convolutional.Code

namespace Leodos
namespace Coding
namespace Convolutional

open Trellis

/-! ## Linearity -/

def parity (x : Nat) : Bool := (List.range 8).foldl (fun acc i => acc ^^ x.testBit i) false

theorem countOnes_mod (x : Nat) : countOnes x &&& 1 = (parity x).toNat := by
  have h : ∀ (xs : List Nat) (acc : Bool),
      (acc.toNat + xs.countP fun i => x.testBit i) % 2 =
        (xs.foldl (fun acc i => acc ^^ x.testBit i) acc).toNat := by
    intro xs
    induction xs with
    | nil => intro acc; cases acc <;> rfl
    | cons i xs ih =>
      intro acc
      rw [List.foldl_cons, ← ih, List.countP_cons]
      cases acc <;> cases x.testBit i <;> simp <;> omega
  rw [Nat.and_one_is_mod, countOnes, parity, ← h]
  simp

theorem parity_xor (x y : Nat) : parity (x ^^^ y) = (parity x ^^ parity y) := by
  have h : ∀ (xs : List Nat) (a b : Bool),
      xs.foldl (fun acc i => acc ^^ (x ^^^ y).testBit i) (a ^^ b) =
        (xs.foldl (fun acc i => acc ^^ x.testBit i) a ^^
          xs.foldl (fun acc i => acc ^^ y.testBit i) b) := by
    intro xs
    induction xs with
    | nil => exact fun _ _ => rfl
    | cons i xs ih =>
      intro a b
      rw [List.foldl_cons, List.foldl_cons, List.foldl_cons, ← ih, Nat.testBit_xor]
      congr 1
      cases a <;> cases b <;> cases x.testBit i <;> cases y.testBit i <;> rfl
  exact h (List.range 8) false false

theorem or_shiftLeft_xor {n s s' : Nat} (hs : s < 2 ^ n) (hs' : s' < 2 ^ n) (b b' : Nat) :
    (s ||| (b <<< n)) ^^^ (s' ||| (b' <<< n)) = (s ^^^ s') ||| ((b ^^^ b') <<< n) := by
  apply Nat.eq_of_testBit_eq
  intro i
  simp only [Nat.testBit_xor, Nat.testBit_or, Nat.testBit_shiftLeft]
  rcases Nat.lt_or_ge i n with hi | hi
  · simp [Nat.not_le.2 hi]
  · have hz : ∀ {a : Nat}, a < 2 ^ n → a.testBit i = false := fun ha =>
      Nat.testBit_lt_two_pow (ha.trans_le (Nat.pow_le_pow_right (by decide) hi))
    simp [hi, hz hs, hz hs']

def xorState (s s' : State) : State := ⟨s.1 ^^^ s'.1, Nat.xor_lt_two_pow (n := 6) s.2 s'.2⟩

theorem toNat_xor (b b' : Bool) : (b ^^ b').toNat = b.toNat ^^^ b'.toNat := by
  cases b <;> cases b' <;> rfl

theorem next_xor (s s' : State) (b b' : Bool) :
    next (xorState s s') (b ^^ b') = xorState (next s b) (next s' b') := by
  have hs : s.1 >>> 1 < 2 ^ 5 := by have h : s.1 < 64 := s.2; omega
  have hs' : s'.1 >>> 1 < 2 ^ 5 := by have h : s'.1 < 64 := s'.2; omega
  apply Fin.ext
  change ((s.1 ^^^ s'.1) >>> 1) ||| ((b ^^ b').toNat <<< 5) =
    ((s.1 >>> 1) ||| (b.toNat <<< 5)) ^^^ ((s'.1 >>> 1) ||| (b'.toNat <<< 5))
  rw [or_shiftLeft_xor hs hs', toNat_xor, Nat.shiftRight_xor_distrib]

theorem xorState_eq_zero {s s' : State} : xorState s s' = ⟨0, by decide⟩ ↔ s = s' := by
  rw [Fin.ext_iff, Fin.ext_iff]
  exact Nat.xor_eq_zero_iff

/-- In how many of its two symbols one branch differs from another. -/
def apart (g g' : Nat × Nat) : Nat :=
  (if g.1 = g'.1 then 0 else 1) + (if g.2 = g'.2 then 0 else 1)

def load (s : State) (b : Bool) : Nat := (BRANCH s b.toNat).1 + (BRANCH s b.toNat).2

theorem branch_eq (s b : Nat) : BRANCH s b =
    ((parity ((s ||| (b <<< 6)) &&& G1)).toNat, (parity ((s ||| (b <<< 6)) &&& G2)).toNat) := by
  rw [BRANCH, countOnes_mod, countOnes_mod, Nat.or_comm]

theorem apart_branch (s s' : State) (b b' : Bool) :
    apart (BRANCH s b.toNat) (BRANCH s' b'.toNat) = load (xorState s s') (b ^^ b') := by
  have hreg : ∀ G : Nat, parity (((xorState s s').1 ||| ((b ^^ b').toNat <<< 6)) &&& G) =
      (parity ((s.1 ||| (b.toNat <<< 6)) &&& G) ^^
        parity ((s'.1 ||| (b'.toNat <<< 6)) &&& G)) := by
    intro G
    rw [← parity_xor, ← Nat.and_xor_distrib_right, or_shiftLeft_xor s.2 s'.2, toNat_xor]
    rfl
  have hbit : ∀ p q : Bool, (if p.toNat = q.toNat then 0 else 1) = (p ^^ q).toNat := by
    decide
  rw [apart, load, branch_eq, branch_eq, branch_eq, hreg, hreg, hbit, hbit]

/-! ## The least load -/

/-- The least load of a path from each state, until it comes to zero or `k` steps are over. -/
def leastLoads : Nat → List Nat
  | 0 => List.replicate NUM_STATES 0
  | k + 1 =>
    let loads := leastLoads k
    (List.finRange NUM_STATES).map fun e =>
      if e.1 = 0 then 0
      else min (load e false + loads.getD (next e false).1 0)
        (load e true + loads.getD (next e true).1 0)

def leastLoad (k : Nat) (e : State) : Nat := (leastLoads k).getD e.1 0

theorem leastLoad_zero (e : State) : leastLoad 0 e = 0 := by
  rw [leastLoad, leastLoads, List.getD_eq_getElem?_getD, List.getElem?_replicate]
  split <;> rfl

theorem leastLoad_succ (k : Nat) (e : State) : leastLoad (k + 1) e =
    if e.1 = 0 then 0 else min (load e false + leastLoad k (next e false))
      (load e true + leastLoad k (next e true)) := by
  rw [leastLoad, leastLoads, List.getD_eq_getElem _ _ (by
    rw [List.length_map, List.length_finRange]; exact e.2), List.getElem_map, List.getElem_finRange]
  rfl

theorem nine_le_leastLoad :
    9 ≤ load ⟨0, by decide⟩ true + leastLoad 19 (next ⟨0, by decide⟩ true) := by
  decide +kernel

/-- A path is loaded at least that much over `r` steps, when it comes to zero or lasts. -/
theorem leastLoad_le (e : Nat → State) (b : Nat → Bool) (k r s : Nat)
    (h : ∀ t, s ≤ t → t < s + r → e (t + 1) = next (e t) (b t)) (hr : r ≤ k)
    (hend : r = k ∨ (e (s + r)).1 = 0) :
    leastLoad k (e s) ≤ ∑ t ∈ Finset.Ico s (s + r), load (e t) (b t) := by
  induction k generalizing r s with
  | zero =>
    rw [leastLoad_zero]
    exact Nat.zero_le _
  | succ k ih =>
    rw [leastLoad_succ]
    split
    · exact Nat.zero_le _
    · next hne =>
      cases r with
      | zero => exact absurd (hend.resolve_left (Nat.succ_ne_zero k).symm) hne
      | succ r =>
        have hshift : s + (r + 1) = s + 1 + r := by omega
        rw [hshift] at h hend
        have hrest := ih r (s + 1) (fun t ht => h t (by omega)) (Nat.le_of_succ_le_succ hr)
          (hend.imp Nat.succ.inj id)
        rw [h s (Nat.le_refl s) (by omega)] at hrest
        rw [hshift, Finset.sum_eq_sum_Ico_succ_bot (by omega)]
        cases hb : b s with
        | false =>
          rw [hb] at hrest
          exact (Nat.min_le_left _ _).trans (Nat.add_le_add_left hrest _)
        | true =>
          rw [hb] at hrest
          exact (Nat.min_le_right _ _).trans (Nat.add_le_add_left hrest _)

theorem next_of_edge {p s : State} (h : Edge p s) : s = next p (input s == 1) := by
  obtain ⟨d, rfl⟩ := h
  exact (next_before s d).symm

theorem input_eq (s : State) : input s = (input s == 1).toNat := by
  revert s
  decide

/-- The path that two paths differ by. -/
def gap (x z : Nat → State) (t : Nat) : State := xorState (x t) (z t)

def gapInput (x z : Nat → State) (t : Nat) : Bool :=
  (input (x (t + 1)) == 1) ^^ (input (z (t + 1)) == 1)

/-- In how many symbols two paths differ in a step. -/
def apartAt (x z : Nat → State) (t : Nat) : Nat :=
  apart (BRANCH (x t) (input (x (t + 1)))) (BRANCH (z t) (input (z (t + 1))))

theorem apartAt_eq (x z : Nat → State) (t : Nat) :
    apartAt x z t = load (gap x z t) (gapInput x z t) := by
  rw [gap, gapInput, ← apart_branch, ← input_eq, ← input_eq, apartAt]

theorem nine_le_apart {x z : Nat → State} {a b : Nat} (hab : a < b) (hx : Path Edge x a b)
    (hz : Path Edge z a b) (heq : x a = z a) (hne : x (a + 1) ≠ z (a + 1))
    (hclose : x b = z b ∨ a + 20 ≤ b) : 9 ≤ ∑ t ∈ Finset.Ico a b, apartAt x z t := by
  have hstep : ∀ t, a ≤ t → t < b → gap x z (t + 1) = next (gap x z t) (gapInput x z t) := by
    intro t hat htb
    rw [gap, gap, gapInput, next_xor, ← next_of_edge (hx t hat htb), ← next_of_edge (hz t hat htb)]
  simp only [apartAt_eq]
  have hzero : gap x z a = ⟨0, by decide⟩ := xorState_eq_zero.2 heq
  have hfirst := hstep a (Nat.le_refl a) hab
  rw [hzero] at hfirst
  -- the paths part, so the first input differs
  have htrue : gapInput x z a = true := by
    cases hb : gapInput x z a with
    | true => rfl
    | false =>
      rw [hb] at hfirst
      exact absurd (xorState_eq_zero.1 hfirst) hne
  rw [htrue] at hfirst
  rw [Finset.sum_eq_sum_Ico_succ_bot hab, hzero, htrue]
  have hrest : leastLoad 19 (next ⟨0, by decide⟩ true) ≤
      ∑ t ∈ Finset.Ico (a + 1) b, load (gap x z t) (gapInput x z t) := by
    rw [← hfirst]
    rcases Nat.lt_or_ge (a + 20) b with hlong | hshort
    · calc leastLoad 19 (gap x z (a + 1))
          ≤ ∑ t ∈ Finset.Ico (a + 1) (a + 1 + 19), load (gap x z t) (gapInput x z t) :=
            leastLoad_le _ _ 19 19 (a + 1) (fun t h1 h2 => hstep t (by omega) (by omega))
              (Nat.le_refl 19) (.inl rfl)
        _ ≤ _ := Finset.sum_le_sum_of_subset (Finset.Ico_subset_Ico_right (by omega))
    · obtain ⟨r, rfl⟩ : ∃ r, b = a + 1 + r := ⟨b - (a + 1), by omega⟩
      apply leastLoad_le _ _ 19 r (a + 1) (fun t h1 h2 => hstep t (by omega) h2) (by omega)
      rcases hclose with hmeet | hlong
      · exact .inr (congrArg Fin.val (xorState_eq_zero.2 hmeet))
      · exact .inl (by omega)
  exact nine_le_leastLoad.trans (Nat.add_le_add_left hrest _)

end Convolutional
end Coding
end Leodos

/-
Survivors follow the sent path, so the decoder returns the data.
-/

namespace Leodos
namespace Coding
namespace Convolutional

open Assignment BitStream Spp Trellis

/-! ## The sent path -/

theorem edge_pathAt (bits : Nat → Bool) (t : Nat) : Edge (pathAt bits t) (pathAt bits (t + 1)) :=
  ⟨_, (before_next (pathAt bits t) (bits t)).symm⟩

theorem input_pathAt (bits : Nat → Bool) (t : Nat) :
    input (pathAt bits (t + 1)) = (bits t).toNat := input_next _ _

theorem pathAt_end {bits : Nat → Bool} {n : Nat} (h : ∀ t, n ≤ t → bits t = false) :
    pathAt bits (n + MEMORY) = ⟨0, by decide⟩ := by
  have hflush : ∀ s : State, next (next (next (next (next (next s false) false) false) false)
      false) false = ⟨0, by decide⟩ := by decide
  rw [show n + MEMORY = n + 1 + 1 + 1 + 1 + 1 + 1 from rfl]
  simp only [pathAt]
  rw [h n (by omega), h (n + 1) (by omega), h (n + 1 + 1) (by omega), h (n + 1 + 1 + 1) (by omega),
    h (n + 1 + 1 + 1 + 1) (by omega), h (n + 1 + 1 + 1 + 1 + 1) (by omega)]
  exact hflush _

/-! ## What a detour loses -/

/-- The code symbol with index `i` on a path. -/
def symbolOn (x : Nat → State) (i : Nat) : Nat :=
  let g := BRANCH (x (i / 2)) (input (x (i / 2 + 1)))
  if i % 2 = 0 then g.1 else g.2

theorem symbolOn_pathAt (bits : Nat → Bool) (i : Nat) :
    symbolOn (pathAt bits) i = symbolAt bits i := by
  rw [symbolOn, input_pathAt, symbolAt]

/-- What a value says for the symbol `c`. -/
def favour (c : Nat) (v : Int) : Int := if c = 0 then v else -v

theorem branchMetric_eq (l1 l2 : Int) (g : Nat × Nat) :
    branchMetric l1 l2 g = favour g.1 l1 + favour g.2 l2 := by
  rw [branchMetric, favour, favour]
  split <;> split <;> ring

theorem favour_sub {c c' : Nat} (hc : c < 2) (hc' : c' < 2) (v : Int) :
    favour c v - favour c' v = 2 * if c = c' then 0 else favour c v := by
  unfold favour
  split <;> split <;> split <;> omega

theorem sum_Ico_two_mul {M : Type*} [AddCommMonoid M] (f : Nat → M) {a b : Nat} (hab : a ≤ b) :
    ∑ t ∈ Finset.Ico a b, (f (2 * t) + f (2 * t + 1)) = ∑ i ∈ Finset.Ico (2 * a) (2 * b), f i := by
  induction b, hab using Nat.le_induction with
  | base => rw [Finset.Ico_self, Finset.Ico_self, Finset.sum_empty, Finset.sum_empty]
  | succ b hab ih =>
    rw [Finset.sum_Ico_succ_top hab, ih, show 2 * (b + 1) = 2 * b + 1 + 1 by omega,
      Finset.sum_Ico_succ_top (by omega), Finset.sum_Ico_succ_top (by omega), add_assoc]

def differing (x z : Nat → State) (a b : Nat) : Finset Nat :=
  (Finset.Ico (2 * a) (2 * b)).filter fun i => symbolOn x i ≠ symbolOn z i

def valueAt (llrs : List Int16) (i : Nat) : Int := (llrs.getD i 0).toInt

theorem symbolOn_even (x : Nat → State) (t : Nat) :
    symbolOn x (2 * t) = (BRANCH (x t) (input (x (t + 1)))).1 := by
  rw [symbolOn, Nat.mul_div_cancel_left t (by decide), Nat.mul_mod_right]
  rfl

theorem symbolOn_odd (x : Nat → State) (t : Nat) :
    symbolOn x (2 * t + 1) = (BRANCH (x t) (input (x (t + 1)))).2 := by
  rw [symbolOn, show (2 * t + 1) / 2 = t by omega, show (2 * t + 1) % 2 = 1 by omega]
  rfl

theorem weight_sub (llrs : List Int16) (x z : Nat → State) {a b : Nat} (hab : a ≤ b) :
    weight (branchWeight (pairs llrs)) x a b - weight (branchWeight (pairs llrs)) z a b =
      2 * ∑ i ∈ differing x z a b, favour (symbolOn x i) (valueAt llrs i) := by
  have hstep : ∀ t, branchWeight (pairs llrs) t (x t) (x (t + 1)) -
      branchWeight (pairs llrs) t (z t) (z (t + 1)) =
      2 * (if symbolOn x (2 * t) = symbolOn z (2 * t) then 0
          else favour (symbolOn x (2 * t)) (valueAt llrs (2 * t))) +
        2 * (if symbolOn x (2 * t + 1) = symbolOn z (2 * t + 1) then 0
          else favour (symbolOn x (2 * t + 1)) (valueAt llrs (2 * t + 1))) := by
    intro t
    obtain ⟨h1, h2⟩ := branch_lt (x t) (input (x (t + 1)))
    obtain ⟨h1', h2'⟩ := branch_lt (z t) (input (z (t + 1)))
    rw [symbolOn_even, symbolOn_even, symbolOn_odd, symbolOn_odd, ← favour_sub h1 h1',
      ← favour_sub h2 h2', branchWeight, branchWeight, branchMetric_eq, branchMetric_eq, pairs,
      valueAt, valueAt]
    ring
  rw [weight, weight, ← Finset.sum_sub_distrib, Finset.sum_congr rfl fun t _ => hstep t,
    sum_Ico_two_mul (fun i => 2 * (if symbolOn x i = symbolOn z i then 0
      else favour (symbolOn x i) (valueAt llrs i))) hab, ← Finset.mul_sum, differing,
    Finset.sum_filter]
  congr 1
  apply Finset.sum_congr rfl
  intro i _
  rw [ite_not]

theorem card_differing (x z : Nat → State) {a b : Nat} (hab : a ≤ b) :
    (differing x z a b).card = ∑ t ∈ Finset.Ico a b, apartAt x z t := by
  rw [differing, Finset.card_filter, ← sum_Ico_two_mul _ hab]
  apply Finset.sum_congr rfl
  intro t _
  rw [symbolOn_even, symbolOn_even, symbolOn_odd, symbolOn_odd, ite_not, ite_not, apartAt, apart]

/-- The values speak for the sent symbols: for any nine of them together, and not far against
any of them. -/
structure Reliable (bits : Nat → Bool) (llrs : List Int16) : Prop where
  nine : ∀ D : Finset Nat, (∀ i ∈ D, i < llrs.length) → 9 ≤ D.card →
    0 < ∑ i ∈ D, favour (symbolAt bits i) (valueAt llrs i)
  any : ∀ D : Finset Nat, (∀ i ∈ D, i < llrs.length) →
    -2 ^ 29 < ∑ i ∈ D, favour (symbolAt bits i) (valueAt llrs i)

section Sent

variable {bits : Nat → Bool} {llrs : List Int16} {numSteps : Nat}

theorem Reliable.agree (h : Reliable bits llrs) (hlen : llrs.length = 2 * numSteps)
    {y : Nat → State} {m : Nat} (hy : Follows (parentAt (pairs llrs)) y m) (hm : m ≤ numSteps)
    (hend : (metricsAt (pairs llrs) m)[pathAt bits m] ≤ (metricsAt (pairs llrs) m)[y m]) {j : Nat}
    (hj : j < m) (hlast : pathAt bits m = y m ∨ j + TRACEBACK_DEPTH ≤ m) :
    pathAt bits (j + 1) = y (j + 1) := by
  have hD : TRACEBACK_DEPTH = 35 := rfl
  have hpath : ∀ a b, Path Edge (pathAt bits) a b := fun _ _ t _ _ => edge_pathAt bits t
  have hin : ∀ (z : Nat → State) {a b : Nat}, b ≤ numSteps →
      ∀ i ∈ differing (pathAt bits) z a b, i < llrs.length := by
    intro z a b hb i hi
    have hlt := (Finset.mem_Ico.1 (Finset.mem_filter.1 hi).1).2
    omega
  have hloss : ∀ (z : Nat → State) {a b : Nat}, a ≤ b →
      weight (branchWeight (pairs llrs)) (pathAt bits) a b -
        weight (branchWeight (pairs llrs)) z a b =
      2 * ∑ i ∈ differing (pathAt bits) z a b, favour (symbolAt bits i) (valueAt llrs i) := by
    intro z a b hab
    rw [weight_sub llrs (pathAt bits) z hab]
    simp only [symbolOn_pathAt]
  apply (survivors (pair_pairs llrs) numSteps).agree hy hm (hpath 0 numSteps) hend ?_ ?_ hj hlast
  · intro a b z hab hb hz heq hne _ hclose
    have hcard := nine_le_apart hab (hpath a b) hz heq hne (hclose.imp id (by omega))
    rw [← card_differing _ _ hab.le] at hcard
    have hpos := h.nine _ (hin z hb) hcard
    have hdiff := hloss z hab.le
    omega
  · intro b z hb _ hne
    have hany := h.any _ (hin z (a := 0) hb)
    have hdiff := hloss z (Nat.zero_le b)
    have hx0 : (metricsAt (pairs llrs) 0)[pathAt bits 0] = 0 := by
      change startMetrics[(⟨0, by decide⟩ : State)] = 0
      rw [startMetrics, Fin.getElem_fin, Vector.getElem_ofFn, if_pos rfl]
    have hz0 : (metricsAt (pairs llrs) 0)[z 0] = NEGINF := by
      change startMetrics[z 0] = NEGINF
      rw [startMetrics, Fin.getElem_fin, Vector.getElem_ofFn, if_neg]
      exact fun h0 => hne (Fin.ext h0.symm)
    rw [hx0, hz0]
    unfold NEGINF
    omega

theorem Reliable.bitFor_eq (h : Reliable bits llrs) (hlen : llrs.length = 2 * numSteps)
    (hend : pathAt bits numSteps = ⟨0, by decide⟩) {i : Nat} (hi : i < numSteps) :
    bitFor (pairs llrs) numSteps i = (bits i).toNat := by
  have hD : TRACEBACK_DEPTH = 35 := rfl
  rw [bitFor]
  split
  · next hwindow =>
    have hbest : backwards (parentAt (pairs llrs)) (i + TRACEBACK_DEPTH)
        (bestState (metricsAt (pairs llrs) (i + TRACEBACK_DEPTH)))
        (i + TRACEBACK_DEPTH - (i + TRACEBACK_DEPTH)) =
        bestState (metricsAt (pairs llrs) (i + TRACEBACK_DEPTH)) := by
      rw [Nat.sub_self]
      rfl
    have hagree := h.agree hlen (follows_backwards (parentAt (pairs llrs)) (i + TRACEBACK_DEPTH)
      (bestState (metricsAt (pairs llrs) (i + TRACEBACK_DEPTH)))) hwindow
      ((le_bestState _ _).trans_eq (congrArg (fun s : State =>
        (metricsAt (pairs llrs) (i + TRACEBACK_DEPTH))[s]) hbest.symm))
      (show i < i + TRACEBACK_DEPTH by omega) (.inr le_rfl)
    rw [windowBit, ← input_pathAt bits i, hagree,
      show i + TRACEBACK_DEPTH - (i + 1) = TRACEBACK_DEPTH - 1 by omega]
  · next hlast =>
    have hsame : pathAt bits numSteps = backwards (parentAt (pairs llrs)) numSteps
        ⟨0, by decide⟩ (numSteps - numSteps) := by
      rw [Nat.sub_self, hend]
      rfl
    have hagree := h.agree hlen (follows_backwards (parentAt (pairs llrs)) numSteps
      ⟨0, by decide⟩) le_rfl
      (le_of_eq (congrArg (fun s : State => (metricsAt (pairs llrs) numSteps)[s]) hsame)) hi
      (.inl hsame)
    rw [lastBit, ← input_pathAt bits i, hagree, show numSteps - (i + 1) = numSteps - 1 - i by omega]

end Sent

/-! ## The data -/

theorem ext_bitAt {bytes bytes' : Bytes} (hlen : bytes.length = bytes'.length)
    (h : ∀ i, bitAt bytes i = bitAt bytes' i) : bytes = bytes' := by
  rw [← octetBits_inj]
  apply List.ext_getElem?
  intro i
  by_cases hi : i < 8 * bytes.length
  · rw [getElem?_octetBits hi, getElem?_octetBits (hlen ▸ hi), h]
  · rw [List.getElem?_eq_none (by rw [length_octetBits]; omega),
      List.getElem?_eq_none (by rw [length_octetBits]; omega)]

theorem bitsOfData_eq {data : Bytes} {i : Nat} (h : i < 8 * data.length) :
    bitsOfData data i = bitAt data i := by
  rw [bitsOfData, List.getD_eq_getElem?_getD, getElem?_octetBits h, Option.getD_some]

theorem bitsOfData_of_ge {data : Bytes} {i : Nat} (h : 8 * data.length ≤ i) :
    bitsOfData data i = false := by
  rw [bitsOfData, List.getD_eq_default _ _ (by rwa [length_octetBits])]

theorem bitAt_append_left {bytes : Bytes} (rest : Bytes) {i : Nat} (h : i < 8 * bytes.length) :
    bitAt (bytes ++ rest) i = bitAt bytes i := by
  rw [bitAt, bitAt, List.getD_append _ _ _ _ (by omega)]

theorem bitAt_append_right {bytes bytes' : Bytes} (rest : Bytes)
    (hlen : bytes.length = bytes'.length) {i : Nat} (h : 8 * bytes.length ≤ i) :
    bitAt (bytes ++ rest) i = bitAt (bytes' ++ rest) i := by
  rw [bitAt, bitAt, List.getD_append_right _ _ _ _ (by omega),
    List.getD_append_right _ _ _ _ (hlen ▸ (by omega)), hlen]

theorem Reliable.decode_eq {data : Bytes} {llrs : List Int16}
    (h : Reliable (bitsOfData data) llrs) (hlen : llrs.length = 2 * (8 * data.length + MEMORY))
    {output : Bytes} (houtput : data.length ≤ output.length) :
    decode llrs output = some (.ok data.length, data ++ output.drop data.length) := by
  have hbytes : (8 * data.length + MEMORY - MEMORY + 7) / 8 = data.length := by omega
  obtain ⟨out, hdecode, hsize, hbits⟩ :=
    Convolutional.decode_eq output hlen (Nat.le_add_left _ _) (by rw [hbytes]; exact houtput)
  rw [hbytes] at hdecode hsize hbits
  rw [Nat.add_sub_cancel] at hbits
  have hend : pathAt (bitsOfData data) (8 * data.length + MEMORY) = ⟨0, by decide⟩ :=
    pathAt_end fun t ht => bitsOfData_of_ge ht
  have hout : out = data ++ output.drop data.length := by
    apply ext_bitAt
    · rw [hsize, List.length_append, List.length_append, List.length_replicate]
    · intro i
      rw [hbits]
      split
      · next hi =>
        rw [h.bitFor_eq hlen hend (by omega), bitAt_append_left _ hi, bitsOfData_eq hi]
        cases bitAt data i <;> rfl
      · next hi =>
        exact bitAt_append_right _ List.length_replicate
          (by rw [List.length_replicate]; omega)
  rw [hdecode, hout]

/-! ## Values that speak for the data -/

/-- The values of some symbols, negated. -/
def negateAt (E : Finset Nat) (llrs : List Int16) : List Int16 :=
  llrs.mapIdx fun i l => if i ∈ E then -l else l

theorem favour_of_sign {c : Nat} (hc : c < 2) {v : Int} (h : if c = 1 then v < 0 else 0 < v) :
    0 < favour c v := by
  unfold favour
  split at h <;> split <;> omega

theorem reliable_of_sign {bits : Nat → Bool} {llrs : List Int16}
    (h : ∀ i < llrs.length,
      if symbolAt bits i = 1 then valueAt llrs i < 0 else 0 < valueAt llrs i) :
    Reliable bits llrs := by
  have hpos : ∀ i < llrs.length, 0 < favour (symbolAt bits i) (valueAt llrs i) := by
    intro i hi
    apply favour_of_sign _ (h i hi)
    obtain ⟨h1, h2⟩ := branch_lt (pathAt bits (i / 2)) (bits (i / 2)).toNat
    unfold symbolAt
    dsimp only
    split
    · exact h1
    · exact h2
  constructor
  · intro D hD hcard
    exact Finset.sum_pos (fun i hi => hpos i (hD i hi)) (Finset.card_pos.1 (by omega))
  · intro D hD
    have hsum := Finset.sum_nonneg fun i hi => le_of_lt (hpos i (hD i hi))
    omega

/-- Every value has the right sign and magnitude `m`, but for at most four. -/
theorem reliable_of_magnitude {bits : Nat → Bool} {llrs : List Int16} {m : Int} (hm : 0 < m)
    (hm' : m < 2 ^ 15) {E : Finset Nat} (hE : E.card ≤ 4)
    (h : ∀ i < llrs.length, favour (symbolAt bits i) (valueAt llrs i) = if i ∈ E then -m else m) :
    Reliable bits llrs := by
  have hsum : ∀ D : Finset Nat, (∀ i ∈ D, i < llrs.length) →
      ∑ i ∈ D, favour (symbolAt bits i) (valueAt llrs i) = m * (D.card - 2 * (D ∩ E).card) := by
    intro D hD
    have hcard : (D.filter (· ∉ E)).card + (D ∩ E).card = D.card := by
      rw [← Finset.filter_mem_eq_inter, Nat.add_comm]
      exact Finset.card_filter_add_card_filter_not _
    rw [Finset.sum_congr rfl fun i hi => h i (hD i hi), Finset.sum_ite, Finset.sum_const,
      Finset.sum_const, Finset.filter_mem_eq_inter, nsmul_eq_mul, nsmul_eq_mul, ← hcard]
    push_cast
    ring
  have hinter : ∀ D : Finset Nat, (D ∩ E).card ≤ 4 := fun D =>
    (Finset.card_le_card Finset.inter_subset_right).trans hE
  constructor
  · intro D hD hcard
    rw [hsum D hD]
    have hle := hinter D
    exact mul_pos hm (by omega)
  · intro D hD
    rw [hsum D hD]
    have hle := hinter D
    have hlow : m * (-8) ≤ m * ((D.card : Int) - 2 * (D ∩ E).card) :=
      mul_le_mul_of_nonneg_left (by omega) hm.le
    omega

theorem hardToLlr_eq {coded : Bytes} {n : Nat} (hcoded : n ≤ 8 * coded.length) (m : Int16)
    {llrs : List Int16} (hlen : llrs.length = n) :
    ∃ hard, hardToLlr coded n m llrs = some hard ∧ hard.length = n ∧
      ∀ i < n, hard.getD i 0 = if bitAt coded i then -m else m := by
  obtain ⟨hard, hfold, hlen', hget⟩ := foldlM_range_of_inv (hardStep coded m)
    (fun k hard => hard.length = n ∧ ∀ i < k, hard.getD i 0 = if bitAt coded i then -m else m)
    n llrs ⟨hlen, fun i hi => absurd hi (Nat.not_lt_zero i)⟩
    (by
      intro k hk hard hinv
      obtain ⟨hlen', hget⟩ := hinv
      have hbyte : k / 8 < coded.length := by omega
      have hbit : (((coded.getD (k / 8) 0).toNat >>> (7 - k % 8)) &&& 1 = 0) ↔
          bitAt coded k = false := by
        rw [bitAt, Nat.testBit, Nat.and_comm]
        simp
      refine ⟨hard.set k (if bitAt coded k then -m else m), ?_, ?_, ?_⟩
      · rw [hardStep, List.getElem?_eq_getElem hbyte, ← List.getD_eq_getElem _ 0 hbyte]
        simp only [Option.bind_eq_bind, Option.bind_some]
        rw [if_congr hbit rfl rfl]
        cases bitAt coded k <;> rfl
      · rw [List.length_set, hlen']
      · intro i hi
        rw [List.getD_eq_getElem?_getD]
        by_cases hik : k = i
        · subst hik
          rw [List.getElem?_set_self (by omega), Option.getD_some]
        · rw [List.getElem?_set_ne hik, ← List.getD_eq_getElem?_getD]
          exact hget i (by omega))
  refine ⟨hard, ?_, hlen', hget⟩
  rw [hardToLlr, hlen, Nat.min_self]
  exact hfold

theorem getD_negateAt (E : Finset Nat) {llrs : List Int16} {i : Nat} (hi : i < llrs.length) :
    (negateAt E llrs).getD i 0 = if i ∈ E then -llrs.getD i 0 else llrs.getD i 0 := by
  rw [negateAt, List.getD_eq_getElem _ _ (by rwa [List.length_mapIdx]), List.getElem_mapIdx,
    List.getD_eq_getElem _ _ hi]

theorem reliable_hard {bits : Nat → Bool} {coded : Bytes} {n : Nat} {m : Int16} (hm : 0 < m)
    {hard : List Int16} (hlen : hard.length = n)
    (hhard : ∀ i < n, hard.getD i 0 = if bitAt coded i then -m else m)
    (hcoded : ∀ i < n, bitAt coded i = decide (symbolAt bits i = 1)) {E : Finset Nat}
    (hE : E.card ≤ 4) : Reliable bits (negateAt E hard) := by
  have hpos : 0 < m.toInt := Int16.lt_iff_toInt_lt.1 hm
  have hlt : m.toInt < 2 ^ 15 := Int16.toInt_lt m
  have hneg : (-m).toInt = -m.toInt := by
    rw [Int16.toInt_neg]
    exact Int.bmod_eq_of_le (by omega) (by omega)
  apply reliable_of_magnitude hpos hlt hE
  intro i hi
  rw [negateAt, List.length_mapIdx] at hi
  rw [valueAt, getD_negateAt E hi, hhard i (hlen ▸ hi), hcoded i (hlen ▸ hi), favour]
  obtain ⟨h1, h2⟩ := branch_lt (pathAt bits (i / 2)) (bits (i / 2)).toNat
  have hsym : symbolAt bits i = 0 ∨ symbolAt bits i = 1 := by
    unfold symbolAt
    dsimp only
    split <;> omega
  rcases hsym with hsym | hsym
  · rw [hsym]
    by_cases hiE : i ∈ E <;> simp [hiE, hneg]
  · rw [hsym]
    by_cases hiE : i ∈ E <;> simp [hiE, hneg]

/-! ## The decoder -/

theorem exists_decode (llrs : List Int16) (output : Bytes) : ∃ r, decode llrs output = some r := by
  by_cases hodd : llrs.length % 2 ≠ 0
  · exact ⟨_, if_pos hodd⟩
  by_cases hshort : llrs.length / 2 < MEMORY
  · rw [decode, if_neg hodd]
    exact ⟨_, if_pos hshort⟩
  by_cases hsmall : output.length < (llrs.length / 2 - MEMORY + 7) / 8
  · rw [decode, if_neg hodd]
    simp only [if_neg hshort]
    exact ⟨_, if_pos hsmall⟩
  · obtain ⟨out, hdecode, _⟩ := decode_eq output (show llrs.length = 2 * (llrs.length / 2) by omega)
      (Nat.le_of_not_lt hshort) (Nat.le_of_not_lt hsmall)
    exact ⟨_, hdecode⟩

/-- The decoder returns the data when up to four hard values are wrong, and when every value has
the right sign; no sum of its metrics leaves the range. -/
theorem viterbi_corrects :
    (∀ data buffer output : Bytes, encodedLen data.length ≤ buffer.length →
      data.length ≤ output.length →
      ∃ coded, encode data buffer = some (.ok (encodedLen data.length), coded) ∧
        (∀ (m : Int16) (llrs : List Int16) (E : Finset Nat), 0 < m →
          llrs.length = (8 * data.length + 6) * 2 → E.card ≤ 4 →
          ∃ hard, hardToLlr coded ((8 * data.length + 6) * 2) m llrs = some hard ∧
            decode (negateAt E hard) output =
              some (.ok data.length, data ++ output.drop data.length)) ∧
        ∀ llrs : List Int16, llrs.length = (8 * data.length + 6) * 2 →
          (∀ i < llrs.length, if bitAt coded i then valueAt llrs i < 0 else 0 < valueAt llrs i) →
          decode llrs output = some (.ok data.length, data ++ output.drop data.length)) ∧
    ∀ (llrs : List Int16) (output : Bytes), (∃ r, decode llrs output = some r) ∧
      ∀ t < llrs.length / 2, ∃ d, run llrs (llrs.length / 2 - MEMORY) output t = some d ∧
        ∀ ns b, InRange (sum (pairs llrs t).1 (pairs llrs t).2 d.pm ns b) := by
  constructor
  · intro data buffer output hbuffer houtput
    obtain ⟨coded, hencode, hsize, hcoded⟩ := encode_eq data hbuffer
    have hroom : (8 * data.length + 6) * 2 ≤ 8 * coded.length := by
      rw [hsize]
      rw [encodedLen] at hbuffer
      have hM : MEMORY = 6 := rfl
      omega
    have hcount : (8 * data.length + 6) * 2 = 2 * (8 * data.length + MEMORY) := Nat.mul_comm _ _
    refine ⟨coded, hencode, ?_, ?_⟩
    · intro m llrs E hm hlen hE
      obtain ⟨hard, hhard, hlen', hget⟩ := hardToLlr_eq hroom m hlen
      have hreliable : Reliable (bitsOfData data) (negateAt E hard) :=
        reliable_hard hm hlen' hget (hcount ▸ hcoded) hE
      refine ⟨hard, hhard, hreliable.decode_eq ?_ houtput⟩
      rw [negateAt, List.length_mapIdx, hlen', hcount]
    · intro llrs hlen hsign
      apply (reliable_of_sign ?_).decode_eq (hlen.trans hcount) houtput
      intro i hi
      have h := hsign i hi
      rw [hcoded i (by omega)] at h
      simpa using h
  · intro llrs output
    refine ⟨exists_decode llrs output, ?_⟩
    intro t ht
    obtain ⟨d, hrun, hd⟩ := exists_run llrs (llrs.length / 2 - MEMORY) output
      (show 2 * t ≤ llrs.length by omega)
    refine ⟨d, hrun, ?_⟩
    rw [hd.pm]
    exact (tame (pair_pairs llrs) t).exact (pair_pairs llrs t)

end Convolutional
end Coding
end Leodos
