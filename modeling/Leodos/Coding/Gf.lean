/-
The field of 256 elements, the module `gf` of `coding/fec/reed_solomon.rs`.

The octets are the elements.  The tables of powers and of logarithms are filled by loops, and
the operations look up in them.
-/
import Leodos.Feedback.Synthesis
import Leodos.Gf2.Register
import Leodos.Spp.Sequence
import Mathlib.Algebra.Field.MinimalAxioms
import Mathlib.Tactic.NormNum.Prime

namespace Leodos
namespace Coding
namespace Gf

open Gf2 Spp

def POLY : UInt16 := 0x187

/-- `val *= α`. -/
def timesAlpha (val : UInt16) : UInt16 :=
  let val := val <<< 1
  if val &&& 0x100 ≠ 0 then val ^^^ POLY else val

def expStep (s : Bytes × UInt16) (i : Nat) : Bytes × UInt16 :=
  ((s.1.set i s.2.toUInt8).set (i + 255) s.2.toUInt8, timesAlpha s.2)

def EXP : Bytes :=
  let t := ((List.range 255).foldl expStep (List.replicate 512 0, 1)).1
  t.set 255 (t.getD 0 0)

def LOG : Bytes :=
  (List.range 255).foldl (fun t i => t.set (EXP.getD i 0).toNat (UInt8.ofNat i))
    (List.replicate 256 0)

def exp (n : Nat) : UInt8 := EXP.getD (n % 255) 0

def log (x : UInt8) : UInt8 := LOG.getD x.toNat 0

def mul (a b : UInt8) : UInt8 :=
  if a = 0 ∨ b = 0 then 0 else exp ((log a).toNat + (log b).toNat)

def add (a b : UInt8) : UInt8 := a ^^^ b

def inv (a : UInt8) : UInt8 := if a = 0 then 0 else EXP.getD (255 - (LOG.getD a.toNat 0).toNat) 0

def div (a b : UInt8) : UInt8 := if a = 0 then 0 else mul a (inv b)

def polyEval (poly : Bytes) (x : UInt8) : UInt8 :=
  match poly with
  | [] => 0
  | first :: rest => rest.foldl (fun result coef => add (mul result x) coef) first

def polyEvalAsc (poly : Bytes) (x : UInt8) : UInt8 :=
  match poly.reverse with
  | [] => 0
  | last :: rest => rest.foldl (fun result coef => add (mul result x) coef) last

/-! ## The tables -/

/-- `α ^ n`. -/
def alpha (n : Nat) : UInt8 := UInt8.ofBitVec (power 0x87#8 n)

set_option maxRecDepth 12000 in
theorem power_full : power 0x87#8 255 = 1#8 := by decide

set_option maxRecDepth 4000 in
theorem primitive : Primitive 0x87#8 255 where
  low := rfl
  pos := by decide
  card := rfl
  period := power_full
  order i hpos hi := by
    refine power_ne_one power_full ?_ hpos hi
    intro p hp hdvd
    have hfactors : (255 : Nat) = 3 * 5 * 17 := rfl
    rw [hfactors, hp.dvd_mul, hp.dvd_mul, Nat.prime_dvd_prime_iff_eq hp Nat.prime_three,
      Nat.prime_dvd_prime_iff_eq hp Nat.prime_five,
      Nat.prime_dvd_prime_iff_eq hp (by norm_num)] at hdvd
    rcases hdvd with (rfl | rfl) | rfl <;> decide

set_option maxRecDepth 2000 in
theorem timesAlpha_toUInt16 (a : UInt8) :
    timesAlpha a.toUInt16 = (UInt8.ofBitVec (shift 0x87#8 a.toBitVec)).toUInt16 := by
  have h : ∀ n < 256, timesAlpha (UInt8.ofNat n).toUInt16 =
      (UInt8.ofBitVec (shift 0x87#8 (UInt8.ofNat n).toBitVec)).toUInt16 := by decide
  rw [← UInt8.ofNat_toNat (x := a)]
  exact h a.toNat (UInt8.toNat_lt a)

theorem timesAlpha_alpha (n : Nat) : timesAlpha (alpha n).toUInt16 = (alpha (n + 1)).toUInt16 := by
  rw [timesAlpha_toUInt16, alpha, alpha, power_succ]

theorem alpha_zero : alpha 0 = 1 := rfl

theorem alpha_add_period (n : Nat) : alpha (n + 255) = alpha n := by
  rw [alpha, primitive.power_add_period, alpha]

theorem alpha_mod (n : Nat) : alpha (n % 255) = alpha n := by
  rw [alpha, primitive.power_mod, alpha]

theorem alpha_ne_zero (n : Nat) : alpha n ≠ 0 := by
  intro h
  exact primitive.power_ne_zero n (congrArg UInt8.toBitVec h)

theorem alpha_inj {i j : Nat} (hi : i < 255) (hj : j < 255) (h : alpha i = alpha j) : i = j :=
  primitive.power_injOn (Finset.mem_range.2 hi) (Finset.mem_range.2 hj)
    (congrArg UInt8.toBitVec h)

theorem exists_alpha {a : UInt8} (ha : a ≠ 0) : ∃ i < 255, alpha i = a := by
  have ha' : a.toBitVec ≠ 0#8 := fun h => ha (UInt8.toBitVec_inj.1 h)
  obtain ⟨i, hi, h⟩ := primitive.exists_power ha'
  exact ⟨i, hi, UInt8.toBitVec_inj.1 h⟩

theorem foldl_expStep {k : Nat} (hk : k ≤ 255) :
    ((List.range k).foldl expStep (List.replicate 512 0, 1)).2 = (alpha k).toUInt16 ∧
      ((List.range k).foldl expStep (List.replicate 512 0, 1)).1.length = 512 ∧
      ∀ j, j < k ∨ (255 ≤ j ∧ j < 255 + k) →
        ((List.range k).foldl expStep (List.replicate 512 0, 1)).1.getD j 0 = alpha j := by
  induction k with
  | zero => exact ⟨rfl, List.length_replicate, fun j hj => by omega⟩
  | succ k ih =>
    obtain ⟨hval, hlen, htable⟩ := ih (by omega)
    rw [List.range_succ, List.foldl_append, List.foldl_cons, List.foldl_nil]
    generalize (List.range k).foldl expStep (List.replicate 512 0, 1) = s at hval hlen htable ⊢
    refine ⟨?_, ?_, ?_⟩
    · rw [expStep, hval, timesAlpha_alpha]
    · rw [expStep, List.length_set, List.length_set, hlen]
    · intro j hj
      rw [expStep, hval, UInt8.toUInt8_toUInt16, List.getD_eq_getElem?_getD, List.getElem?_set,
        List.getElem?_set, List.length_set, hlen]
      by_cases hhigh : k + 255 = j
      · subst hhigh
        rw [if_pos rfl, if_pos (by omega), Option.getD_some, alpha_add_period]
      · rw [if_neg hhigh]
        by_cases hlow : k = j
        · subst hlow
          rw [if_pos rfl, if_pos (by omega), Option.getD_some]
        · rw [if_neg hlow, ← List.getD_eq_getElem?_getD]
          exact htable j (by omega)

theorem EXP_getD {j : Nat} (hj : j < 510) : EXP.getD j 0 = alpha j := by
  obtain ⟨_, hlen, htable⟩ := foldl_expStep (le_refl 255)
  rw [EXP, htable 0 (by omega), List.getD_eq_getElem?_getD, List.getElem?_set, hlen]
  by_cases h : 255 = j
  · subst h
    rw [if_pos rfl, if_pos (by decide), Option.getD_some, alpha_zero]
    exact (alpha_add_period 0).symm
  · rw [if_neg h, ← List.getD_eq_getElem?_getD]
    exact htable j (by omega)

theorem exp_eq (n : Nat) : exp n = alpha n := by
  have hlt : n % 255 < 255 := Nat.mod_lt n (by decide)
  rw [exp, EXP_getD (by omega), alpha_mod]

theorem foldl_log {k : Nat} (hk : k ≤ 255) :
    ((List.range k).foldl (fun t i => t.set (EXP.getD i 0).toNat (UInt8.ofNat i))
        (List.replicate 256 0)).length = 256 ∧
      ∀ i < k, ((List.range k).foldl (fun t i => t.set (EXP.getD i 0).toNat (UInt8.ofNat i))
        (List.replicate 256 (0 : UInt8))).getD (alpha i).toNat 0 = UInt8.ofNat i := by
  induction k with
  | zero => exact ⟨List.length_replicate, fun i hi => absurd hi (Nat.not_lt_zero i)⟩
  | succ k ih =>
    obtain ⟨hlen, htable⟩ := ih (by omega)
    rw [List.range_succ, List.foldl_append, List.foldl_cons, List.foldl_nil]
    generalize (List.range k).foldl _ (List.replicate 256 (0 : UInt8)) = t at hlen htable ⊢
    refine ⟨by rw [List.length_set, hlen], ?_⟩
    intro i hi
    rw [EXP_getD (by omega), List.getD_eq_getElem?_getD, List.getElem?_set, hlen]
    by_cases hik : i = k
    · subst hik
      rw [if_pos rfl, if_pos (UInt8.toNat_lt _), Option.getD_some]
    · rw [if_neg fun h => hik (alpha_inj (by omega) (by omega) (UInt8.toNat_inj.1 h)).symm,
        ← List.getD_eq_getElem?_getD]
      exact htable i (by omega)

theorem log_alpha {i : Nat} (hi : i < 255) : (log (alpha i)).toNat = i := by
  rw [log, LOG, (foldl_log (le_refl 255)).2 i hi, UInt8.toNat_ofNat']
  exact Nat.mod_eq_of_lt (by omega)

/-! ## The field -/

theorem mul_eq {a b : UInt8} (ha : a ≠ 0) (hb : b ≠ 0) :
    mul a b = alpha ((log a).toNat + (log b).toNat) := by
  rw [mul, if_neg (not_or.2 ⟨ha, hb⟩), exp_eq]

theorem zero_mul (a : UInt8) : mul 0 a = 0 := if_pos (.inl rfl)

theorem mul_zero (a : UInt8) : mul a 0 = 0 := if_pos (.inr rfl)

theorem inv_zero : inv 0 = 0 := if_pos rfl

theorem mul_alpha (i j : Nat) : mul (alpha i) (alpha j) = alpha (i + j) := by
  rw [mul_eq (alpha_ne_zero i) (alpha_ne_zero j), ← alpha_mod i, ← alpha_mod j,
    log_alpha (Nat.mod_lt i (by decide)), log_alpha (Nat.mod_lt j (by decide)), ← alpha_mod,
    ← Nat.add_mod, alpha_mod]

theorem alpha_mul (i : Nat) (b : UInt8) :
    mul (alpha i) b = UInt8.ofBitVec ((shift 0x87#8)^[i] b.toBitVec) := by
  by_cases hb : b = 0
  · subst hb
    rw [mul_zero]
    exact congrArg UInt8.ofBitVec (shift_iterate_zero 0x87#8 i).symm
  · obtain ⟨j, _, rfl⟩ := exists_alpha hb
    rw [mul_alpha, alpha, power_add, alpha]

theorem mul_comm (a b : UInt8) : mul a b = mul b a := by
  rw [mul, mul, Nat.add_comm]
  exact if_congr or_comm rfl rfl

theorem mul_assoc (a b c : UInt8) : mul (mul a b) c = mul a (mul b c) := by
  by_cases ha : a = 0
  · rw [ha, zero_mul, zero_mul, zero_mul]
  by_cases hb : b = 0
  · rw [hb, mul_zero, zero_mul, mul_zero]
  by_cases hc : c = 0
  · rw [hc, mul_zero, mul_zero, mul_zero]
  obtain ⟨i, _, rfl⟩ := exists_alpha ha
  obtain ⟨j, _, rfl⟩ := exists_alpha hb
  obtain ⟨k, _, rfl⟩ := exists_alpha hc
  rw [mul_alpha, mul_alpha, mul_alpha, mul_alpha, Nat.add_assoc]

theorem mul_add (a b c : UInt8) : mul a (add b c) = add (mul a b) (mul a c) := by
  by_cases ha : a = 0
  · rw [ha, zero_mul, zero_mul, zero_mul]
    rfl
  · obtain ⟨i, _, rfl⟩ := exists_alpha ha
    rw [alpha_mul, alpha_mul, alpha_mul, add, UInt8.toBitVec_xor, shift_iterate_xor]
    rfl

theorem inv_alpha {i : Nat} (hi : i < 255) : inv (alpha i) = alpha (255 - i) := by
  have hlog := log_alpha hi
  rw [log] at hlog
  rw [inv, if_neg (alpha_ne_zero i), hlog, EXP_getD (by omega)]

theorem mul_inv {a : UInt8} (ha : a ≠ 0) : mul a (inv a) = 1 := by
  obtain ⟨i, hi, rfl⟩ := exists_alpha ha
  rw [inv_alpha hi, mul_alpha, Nat.add_sub_cancel' hi.le]
  exact alpha_add_period 0

theorem one_mul (a : UInt8) : mul 1 a = a := by
  rw [← alpha_zero, alpha_mul]
  rfl

end Gf

/-- An octet as an element of the field. -/
@[ext]
structure Gf256 where
  byte : UInt8
  deriving DecidableEq

namespace Gf256

open Feedback Spp

instance : Add Gf256 := ⟨fun a b => ⟨Gf.add a.byte b.byte⟩⟩

instance : Mul Gf256 := ⟨fun a b => ⟨Gf.mul a.byte b.byte⟩⟩

instance : Neg Gf256 := ⟨fun a => a⟩

instance : Inv Gf256 := ⟨fun a => ⟨Gf.inv a.byte⟩⟩

instance : Zero Gf256 := ⟨⟨0⟩⟩

instance : One Gf256 := ⟨⟨1⟩⟩

instance : Field Gf256 := Field.ofMinimalAxioms Gf256
  (fun a b c => Gf256.ext (UInt8.xor_assoc a.byte b.byte c.byte))
  (fun a => Gf256.ext UInt8.zero_xor)
  (fun a => Gf256.ext UInt8.xor_self)
  (fun a b c => Gf256.ext (Gf.mul_assoc a.byte b.byte c.byte))
  (fun a b => Gf256.ext (Gf.mul_comm a.byte b.byte))
  (fun a => Gf256.ext (Gf.one_mul a.byte))
  (fun a ha => Gf256.ext (Gf.mul_inv fun h => ha (Gf256.ext h)))
  (Gf256.ext Gf.inv_zero)
  (fun a b c => Gf256.ext (Gf.mul_add a.byte b.byte c.byte))
  ⟨0, 1, fun h => absurd (congrArg byte h) (by decide)⟩

theorem mk_add (a b : UInt8) : (⟨Gf.add a b⟩ : Gf256) = ⟨a⟩ + ⟨b⟩ := rfl

theorem mk_mul (a b : UInt8) : (⟨Gf.mul a b⟩ : Gf256) = ⟨a⟩ * ⟨b⟩ := rfl

theorem mk_inv (a : UInt8) : (⟨Gf.inv a⟩ : Gf256) = ⟨a⟩⁻¹ := rfl

theorem mk_zero : (⟨0⟩ : Gf256) = 0 := rfl

theorem mk_one : (⟨1⟩ : Gf256) = 1 := rfl

theorem mk_eq_zero {a : UInt8} : (⟨a⟩ : Gf256) = 0 ↔ a = 0 :=
  ⟨congrArg byte, congrArg mk⟩

theorem mk_div (a b : UInt8) : (⟨Gf.div a b⟩ : Gf256) = ⟨a⟩ / ⟨b⟩ := by
  rw [Gf.div, div_eq_mul_inv]
  split
  · next h => rw [h, mk_zero, zero_mul]
  · rw [mk_mul, mk_inv]

theorem add_self (a : Gf256) : a + a = 0 := Gf256.ext UInt8.xor_self

theorem neg_eq (a : Gf256) : -a = a := rfl

theorem sub_eq (a b : Gf256) : a - b = a + b := by
  rw [sub_eq_add_neg, neg_eq]

/-! ## Powers of `α` -/

def alpha : Gf256 := ⟨Gf.alpha 1⟩

theorem mk_alpha (n : Nat) : (⟨Gf.alpha n⟩ : Gf256) = alpha ^ n := by
  induction n with
  | zero => rw [pow_zero, Gf.alpha_zero, mk_one]
  | succ n ih => rw [pow_succ, ← ih, alpha, ← mk_mul, Gf.mul_alpha]

theorem mk_exp (n : Nat) : (⟨Gf.exp n⟩ : Gf256) = alpha ^ n := by
  rw [Gf.exp_eq, mk_alpha]

theorem alpha_pow_period : alpha ^ 255 = 1 := by
  rw [← mk_alpha, ← Nat.zero_add 255, Gf.alpha_add_period, Gf.alpha_zero, mk_one]

theorem alpha_pow_mod (n : Nat) : alpha ^ (n % 255) = alpha ^ n := by
  rw [← mk_alpha, Gf.alpha_mod, mk_alpha]

theorem alpha_pow_ne_zero (n : Nat) : alpha ^ n ≠ 0 := by
  rw [← mk_alpha, Ne, mk_eq_zero]
  exact Gf.alpha_ne_zero n

theorem alpha_pow_inj {i j : Nat} (hi : i < 255) (hj : j < 255) (h : alpha ^ i = alpha ^ j) :
    i = j := by
  rw [← mk_alpha, ← mk_alpha] at h
  exact Gf.alpha_inj hi hj (congrArg byte h)

/-! ## Values of polynomials -/

/-- The symbols of an array as elements, with zeros behind them. -/
def symbols (xs : Bytes) (i : Nat) : Gf256 := ⟨xs.getD i 0⟩

theorem foldl_eq_horner (xs : Bytes) (x : UInt8) :
    (⟨xs.foldl (fun result coef => Gf.add (Gf.mul result x) coef) 0⟩ : Gf256) =
      horner (symbols xs) ⟨x⟩ xs.length := by
  have hmap : ∀ r : UInt8,
      (⟨xs.foldl (fun result coef => Gf.add (Gf.mul result x) coef) r⟩ : Gf256) =
        (xs.map mk).foldl (fun result coef => result * ⟨x⟩ + coef) ⟨r⟩ := by
    induction xs with
    | nil => exact fun _ => rfl
    | cons c xs ih => exact fun r => ih _
  rw [hmap, mk_zero, foldl_horner, List.length_map]
  apply horner_congr
  intro i hi
  rw [symbols, List.getD_eq_getElem _ _ hi, List.getD_eq_getElem _ _ (by rwa [List.length_map]),
    List.getElem_map]

theorem mk_polyEval (xs : Bytes) (x : UInt8) :
    (⟨Gf.polyEval xs x⟩ : Gf256) = horner (symbols xs) ⟨x⟩ xs.length := by
  rw [← foldl_eq_horner]
  cases xs with
  | nil => rfl
  | cons first rest =>
    rw [List.foldl_cons, Gf.zero_mul, show Gf.add 0 first = first from UInt8.zero_xor]
    rfl

theorem mk_polyEvalAsc (xs : Bytes) (x : UInt8) :
    (⟨Gf.polyEvalAsc xs x⟩ : Gf256) = (ascending (symbols xs) xs.length).eval ⟨x⟩ := by
  have hrev : Gf.polyEvalAsc xs x = Gf.polyEval xs.reverse x := by
    rw [Gf.polyEvalAsc, Gf.polyEval.eq_def]
    cases xs.reverse with
    | nil => rfl
    | cons last rest => rfl
  rw [hrev, mk_polyEval, eval_ascending, List.length_reverse]
  apply horner_congr
  intro i hi
  rw [symbols, symbols, List.getD_eq_getElem _ _ (by rwa [List.length_reverse]),
    List.getElem_reverse, List.getD_eq_getElem _ _ (by omega)]

end Gf256

end Coding
end Leodos
