/-
Shift registers with feedback as polynomials over the field of two elements.

Bit `i` of a register is the coefficient of `X ^ i`.  A shift multiplies by `X` and, when a
bit falls out at the top, adds the taps.  So a register of width `w` computes modulo
`X ^ w` plus the polynomial of the taps, and feeding bits into it divides the polynomial of
the bits by that modulus (`toPoly_feedAll`).
-/
import Mathlib.Algebra.CharP.Two
import Mathlib.Algebra.Field.ZMod
import Mathlib.Algebra.Polynomial.Div
import Mathlib.Algebra.Polynomial.OfFn
import Leodos.Bits.Stream

namespace Leodos
namespace Gf2

open BitStream Polynomial

variable {w : Nat}

def bit (b : Bool) : ZMod 2 := if b then 1 else 0

theorem bit_xor (a b : Bool) : bit (a ^^ b) = bit a + bit b := by
  cases a <;> cases b <;> rfl

theorem bit_not (b : Bool) : bit (!b) = bit b + 1 := by
  cases b <;> rfl

theorem bit_inj {a b : Bool} : bit a = bit b ↔ a = b := by
  cases a <;> cases b <;> decide

noncomputable def toPoly (v : BitVec w) : (ZMod 2)[X] := ofFn w fun i => bit (v.getLsbD i)

@[simp] theorem coeff_toPoly (v : BitVec w) (i : Nat) :
    (toPoly v).coeff i = bit (v.getLsbD i) := by
  by_cases h : i < w
  · exact ofFn_coeff_eq_val_of_lt _ h
  · have hge := Nat.le_of_not_lt h
    rw [toPoly, ofFn_coeff_eq_zero_of_ge _ hge, BitVec.getLsbD_of_ge v i hge]
    rfl

theorem degree_toPoly_lt (v : BitVec w) : (toPoly v).degree < w := ofFn_degree_lt _

theorem toPoly_xor (a b : BitVec w) : toPoly (a ^^^ b) = toPoly a + toPoly b := by
  ext i
  rw [coeff_add, coeff_toPoly, coeff_toPoly, coeff_toPoly, BitVec.getLsbD_xor, bit_xor]

@[simp] theorem toPoly_zero : toPoly (0#w) = 0 := by
  ext i
  rw [coeff_toPoly, BitVec.getLsbD_zero, coeff_zero]
  rfl

theorem toPoly_inj {a b : BitVec w} : toPoly a = toPoly b ↔ a = b := by
  constructor
  · intro h
    apply BitVec.eq_of_getLsbD_eq
    intro i _
    rw [← bit_inj, ← coeff_toPoly, ← coeff_toPoly, h]
  · exact congrArg toPoly

/-! ## Shifting -/

def shift (taps v : BitVec w) : BitVec w := if v.msb then v <<< 1 ^^^ taps else v <<< 1

/-- A register with these taps computes modulo this polynomial. -/
noncomputable def modulus (taps : BitVec w) : (ZMod 2)[X] := X ^ w + toPoly taps

theorem monic_modulus (taps : BitVec w) : (modulus taps).Monic :=
  monic_X_pow_add (degree_toPoly_lt taps)

theorem degree_modulus (taps : BitVec w) : (modulus taps).degree = w := by
  have hpow : (X ^ w : (ZMod 2)[X]).degree = w := degree_X_pow w
  have hlt : (toPoly taps).degree < (X ^ w : (ZMod 2)[X]).degree :=
    hpow.symm ▸ degree_toPoly_lt taps
  rw [modulus, degree_add_eq_left_of_degree_lt hlt, hpow]

theorem getLsbD_shift_zero (taps v : BitVec w) :
    (shift taps v).getLsbD 0 = (v.msb && taps.getLsbD 0) := by
  rw [shift]
  cases hmsb : v.msb <;> simp

theorem getLsbD_shift_succ (taps v : BitVec w) {i : Nat} (hi : i + 1 < w) :
    (shift taps v).getLsbD (i + 1) = (v.getLsbD i ^^ (v.msb && taps.getLsbD (i + 1))) := by
  have hbit : (v <<< 1).getLsbD (i + 1) = v.getLsbD i := by
    rw [BitVec.getLsbD_shiftLeft]
    simp [hi]
  rw [shift]
  cases hmsb : v.msb <;> simp [BitVec.getLsbD_xor, hbit]

theorem toPoly_shift (taps v : BitVec w) :
    toPoly (shift taps v) = X * toPoly v + C (bit v.msb) * modulus taps := by
  ext i
  rw [coeff_add, coeff_C_mul, modulus, coeff_add, coeff_X_pow, coeff_toPoly, coeff_toPoly]
  cases i with
  | zero =>
    rw [mul_coeff_zero, coeff_X_zero, zero_mul, zero_add, getLsbD_shift_zero]
    rcases Nat.eq_zero_or_pos w with rfl | hpos
    · rw [BitVec.msb_eq_getLsbD_last, BitVec.getLsbD_of_ge v _ (Nat.zero_le _)]
      exact (zero_mul _).symm
    · rw [if_neg (Nat.ne_of_lt hpos), zero_add]
      cases v.msb <;> simp [bit]
  | succ i =>
    rw [coeff_X_mul, coeff_toPoly]
    rcases Nat.lt_trichotomy (i + 1) w with hlt | heq | hgt
    · rw [getLsbD_shift_succ taps v hlt, if_neg (Nat.ne_of_lt hlt), zero_add, bit_xor]
      cases v.msb <;> simp [bit]
    · have hmsb : v.getLsbD i = v.msb := by
        rw [BitVec.msb_eq_getLsbD_last]
        exact congrArg v.getLsbD (by omega)
      rw [if_pos heq, BitVec.getLsbD_of_ge _ _ (Nat.le_of_eq heq.symm),
        BitVec.getLsbD_of_ge _ _ (Nat.le_of_eq heq.symm), hmsb]
      cases v.msb <;> decide
    · rw [if_neg (Nat.ne_of_gt hgt), BitVec.getLsbD_of_ge _ _ (Nat.le_of_lt hgt),
        BitVec.getLsbD_of_ge _ _ (Nat.le_of_lt hgt),
        BitVec.getLsbD_of_ge _ _ (Nat.le_of_lt_succ hgt)]
      cases v.msb <;> decide

theorem modByMonic_eq_toPoly {taps v : BitVec w} {p : (ZMod 2)[X]}
    (h : modulus taps ∣ p + toPoly v) : p %ₘ modulus taps = toPoly v := by
  obtain ⟨q, hq⟩ := h
  refine (div_modByMonic_unique q _ (monic_modulus taps) ⟨?_, ?_⟩).2
  · rw [← hq, add_comm p, ← add_assoc, CharTwo.add_self_eq_zero, zero_add]
  · exact degree_modulus taps ▸ degree_toPoly_lt v

theorem dvd_shift {taps v : BitVec w} {p : (ZMod 2)[X]} (h : modulus taps ∣ p + toPoly v) :
    modulus taps ∣ X * p + toPoly (shift taps v) := by
  rw [toPoly_shift, ← add_assoc, ← mul_add]
  exact dvd_add (h.mul_left X) (dvd_mul_left _ _)

theorem dvd_shift_iterate {taps v : BitVec w} {p : (ZMod 2)[X]}
    (h : modulus taps ∣ p + toPoly v) (n : Nat) :
    modulus taps ∣ X ^ n * p + toPoly ((shift taps)^[n] v) := by
  induction n with
  | zero =>
    rw [pow_zero, one_mul]
    exact h
  | succ n ih =>
    rw [Function.iterate_succ_apply', pow_succ', mul_assoc]
    exact dvd_shift ih

@[simp] theorem shift_zero (taps : BitVec w) : shift taps 0#w = 0#w := by
  simp [shift]

theorem eq_zero_of_shift {taps v : BitVec w} (htap : taps.getLsbD 0 = true)
    (h : shift taps v = 0#w) : v = 0#w := by
  have hmsb : v.msb = false := by
    have hlow := getLsbD_shift_zero taps v
    rw [h, htap, Bool.and_true, BitVec.getLsbD_zero] at hlow
    exact hlow.symm
  apply BitVec.eq_of_getLsbD_eq
  intro i hi
  rw [BitVec.getLsbD_zero]
  by_cases hlast : i + 1 < w
  · have hnext := getLsbD_shift_succ taps v hlast
    rw [h, BitVec.getLsbD_zero, hmsb, Bool.false_and, Bool.xor_false] at hnext
    exact hnext.symm
  · rw [← hmsb, BitVec.msb_eq_getLsbD_last]
    exact congrArg v.getLsbD (by omega)

theorem eq_zero_of_shift_iterate {taps v : BitVec w} (htap : taps.getLsbD 0 = true) {n : Nat}
    (h : (shift taps)^[n] v = 0#w) : v = 0#w := by
  induction n with
  | zero => exact h
  | succ n ih =>
    rw [Function.iterate_succ_apply'] at h
    exact ih (eq_zero_of_shift htap h)

/-! ## Dividing -/

/-- The polynomial that the bits write, the highest coefficient first. -/
noncomputable def ofBits (bits : List Bool) : (ZMod 2)[X] :=
  bits.foldl (fun p b => X * p + C (bit b)) 0

def feed (taps v : BitVec w) (b : Bool) : BitVec w := shift taps v ^^^ BitVec.ofNat w b.toNat

def feedAll (taps : BitVec w) (bits : List Bool) : BitVec w := bits.foldl (feed taps) 0#w

theorem ofBits_concat (bits : List Bool) (b : Bool) :
    ofBits (bits ++ [b]) = X * ofBits bits + C (bit b) := by
  rw [ofBits, List.foldl_append]
  rfl

@[simp] theorem ofBits_nil : ofBits [] = 0 := rfl

theorem ofBits_append (bits bits' : List Bool) :
    ofBits (bits ++ bits') = X ^ bits'.length * ofBits bits + ofBits bits' := by
  induction bits' using List.reverseRecOn with
  | nil => simp
  | append_singleton bits' b ih =>
    rw [← List.append_assoc, ofBits_concat, ih, ofBits_concat, List.length_append,
      List.length_singleton, pow_succ', mul_add, ← add_assoc, mul_assoc]

theorem coeff_ofBits (bits : List Bool) (i : Nat) :
    (ofBits bits).coeff i = bit (bits.reverse[i]?.getD false) := by
  induction bits using List.reverseRecOn generalizing i with
  | nil => simp [bit]
  | append_singleton bits b ih =>
    rw [ofBits_concat, coeff_add, List.reverse_concat]
    cases i with
    | zero => simp
    | succ i => rw [coeff_X_mul, ih, coeff_C_succ, add_zero, List.getElem?_cons_succ]

theorem ofBits_bitsOf (w n : Nat) : ofBits (bitsOf w n) = toPoly (BitVec.ofNat w n) := by
  ext i
  rw [coeff_ofBits, coeff_toPoly, BitVec.getLsbD_ofNat]
  by_cases hi : i < w
  · rw [List.getElem?_reverse (by rw [length_bitsOf]; exact hi), length_bitsOf,
      bitsOf_getElem? n (by omega), decide_eq_true hi, Bool.true_and, Option.getD_some]
    congr 2
    omega
  · rw [List.getElem?_eq_none (by rw [List.length_reverse, length_bitsOf]; omega),
      decide_eq_false hi, Bool.false_and]
    rfl

theorem ofBits_zipWith_xor {bits bits' : List Bool} (h : bits.length = bits'.length) :
    ofBits (List.zipWith (· ^^ ·) bits bits') = ofBits bits + ofBits bits' := by
  induction bits using List.reverseRecOn generalizing bits' with
  | nil =>
    rw [List.eq_nil_of_length_eq_zero h.symm]
    simp
  | append_singleton bits b ih =>
    rcases List.eq_nil_or_concat bits' with rfl | ⟨bits', b', rfl⟩
    · simp at h
    · have hlen : bits.length = bits'.length := by simpa using h
      rw [List.concat_eq_append, List.zipWith_append hlen, List.zipWith_cons_cons,
        List.zipWith_nil_right, ofBits_concat, ofBits_concat, ofBits_concat, ih hlen, bit_xor,
        C_add, mul_add, add_add_add_comm]

theorem toPoly_ofNat_toNat (hw : 0 < w) (b : Bool) :
    toPoly (BitVec.ofNat w b.toNat) = C (bit b) := by
  ext i
  rw [coeff_toPoly, coeff_C, BitVec.getLsbD_ofNat, Nat.testBit_bool_toNat]
  cases i with
  | zero => simp [hw]
  | succ i => simp [bit]

theorem dvd_feed (hw : 0 < w) {taps v : BitVec w} {p : (ZMod 2)[X]}
    (h : modulus taps ∣ p + toPoly v) (b : Bool) :
    modulus taps ∣ (X * p + C (bit b)) + toPoly (feed taps v b) := by
  have hsum : (X * p + C (bit b)) + toPoly (feed taps v b) = X * p + toPoly (shift taps v) := by
    rw [feed, toPoly_xor, toPoly_ofNat_toNat hw, add_add_add_comm, CharTwo.add_self_eq_zero,
      add_zero]
  exact hsum ▸ dvd_shift h

theorem dvd_feedAll (hw : 0 < w) (taps : BitVec w) (bits : List Bool) :
    modulus taps ∣ ofBits bits + toPoly (feedAll taps bits) := by
  induction bits using List.reverseRecOn with
  | nil =>
    show modulus taps ∣ 0 + toPoly 0#w
    rw [toPoly_zero, add_zero]
    exact dvd_zero _
  | append_singleton bits b ih =>
    rw [ofBits_concat, feedAll, List.foldl_append]
    exact dvd_feed hw ih b

theorem toPoly_feedAll (hw : 0 < w) (taps : BitVec w) (bits : List Bool) :
    toPoly (feedAll taps bits) = ofBits bits %ₘ modulus taps :=
  (modByMonic_eq_toPoly (dvd_feedAll hw taps bits)).symm

/-! ## Few errors -/

theorem eq_of_count_zipWith_xor {bits bits' : List Bool} (hlen : bits.length = bits'.length)
    (h : (List.zipWith (· ^^ ·) bits bits').count true = 0) : bits = bits' := by
  induction bits generalizing bits' with
  | nil => exact (List.eq_nil_of_length_eq_zero hlen.symm).symm
  | cons b bits ih =>
    cases bits' with
    | nil => cases hlen
    | cons b' bits' =>
      rw [List.zipWith_cons_cons, List.count_cons, Nat.add_eq_zero_iff] at h
      have hhead : b = b' := by
        have hne := h.2
        revert hne
        cases b <;> cases b' <;> decide
      rw [hhead, ih (Nat.succ_inj.1 hlen) h.1]

theorem feed_false (taps v : BitVec w) : feed taps v false = shift taps v := by
  simp [feed]

theorem foldl_feed_of_count_zero {taps : BitVec w} {bits : List Bool} (h : bits.count true = 0)
    (v : BitVec w) : bits.foldl (feed taps) v = (shift taps)^[bits.length] v := by
  induction bits generalizing v with
  | nil => rfl
  | cons b bits ih =>
    cases b with
    | false =>
      rw [List.count_cons_of_ne (by decide)] at h
      rw [List.foldl_cons, ih h, feed_false, List.length_cons, Function.iterate_succ_apply]
    | true =>
      rw [List.count_cons_self] at h
      omega

theorem exists_of_count_one {taps : BitVec w} (htap : taps.getLsbD 0 = true) {bits : List Bool}
    (h : bits.count true = 1) {v : BitVec w} (hzero : bits.foldl (feed taps) v = 0#w) :
    ∃ k, 0 < k ∧ k ≤ bits.length ∧ (shift taps)^[k] v = 1#w := by
  induction bits generalizing v with
  | nil => cases h
  | cons b bits ih =>
    rw [List.foldl_cons] at hzero
    cases b with
    | false =>
      rw [List.count_cons_of_ne (by decide)] at h
      rw [feed_false] at hzero
      obtain ⟨k, -, hk, hround⟩ := ih h hzero
      exact ⟨k + 1, Nat.succ_pos k, Nat.succ_le_succ hk, hround⟩
    | true =>
      rw [List.count_cons_self, Nat.add_eq_right] at h
      rw [foldl_feed_of_count_zero h] at hzero
      have hcancel := eq_zero_of_shift_iterate htap hzero
      exact ⟨1, Nat.one_pos, Nat.succ_pos _, BitVec.xor_eq_zero_iff.1 hcancel⟩

theorem exists_of_count_two {taps : BitVec w} (htap : taps.getLsbD 0 = true) {bits : List Bool}
    (h : bits.count true = 2) (hzero : feedAll taps bits = 0#w) :
    ∃ k, 0 < k ∧ k < bits.length ∧ (shift taps)^[k] 1#w = 1#w := by
  unfold feedAll at hzero
  induction bits with
  | nil => cases h
  | cons b bits ih =>
    rw [List.foldl_cons] at hzero
    cases b with
    | false =>
      rw [List.count_cons_of_ne (by decide)] at h
      rw [feed_false, shift_zero] at hzero
      obtain ⟨k, hpos, hk, hround⟩ := ih h hzero
      exact ⟨k, hpos, Nat.lt_succ_of_lt hk, hround⟩
    | true =>
      rw [List.count_cons_self, Nat.succ_inj] at h
      rw [feed, shift_zero, BitVec.zero_xor] at hzero
      obtain ⟨k, hpos, hk, hround⟩ := exists_of_count_one htap h hzero
      exact ⟨k, hpos, Nat.lt_succ_of_le hk, hround⟩

theorem eval_ofBits (bits : List Bool) : (ofBits bits).eval 1 = (bits.count true : ZMod 2) := by
  induction bits using List.reverseRecOn with
  | nil => exact eval_zero
  | append_singleton bits b ih =>
    rw [ofBits_concat, eval_add, eval_mul, eval_X, one_mul, ih, eval_C, List.count_append,
      Nat.cast_add]
    cases b <;> rfl

theorem feedAll_ne_zero_of_odd (hw : 0 < w) {taps : BitVec w} (hone : (modulus taps).eval 1 = 0)
    {bits : List Bool} (h : ¬ 2 ∣ bits.count true) : feedAll taps bits ≠ 0#w := by
  intro hzero
  have hdvd := dvd_feedAll hw taps bits
  rw [hzero, toPoly_zero, add_zero] at hdvd
  have heval := eval_dvd (x := 1) hdvd
  rw [hone, eval_ofBits, zero_dvd_iff, ZMod.natCast_eq_zero_iff] at heval
  exact h heval

/-- A modulus that vanishes at 1 and comes round to 1 only after `n` shifts detects up to three
errors in `n` bits. -/
theorem feedAll_ne_zero_of_few (hw : 0 < w) {taps : BitVec w} (htap : taps.getLsbD 0 = true)
    (hone : (modulus taps).eval 1 = 0) {n : Nat}
    (hround : ∀ k, 0 < k → k < n → (shift taps)^[k] 1#w ≠ 1#w) {bits : List Bool}
    (hlen : bits.length ≤ n) (hpos : 0 < bits.count true) (hfew : bits.count true < 4) :
    feedAll taps bits ≠ 0#w := by
  by_cases htwo : bits.count true = 2
  · intro hzero
    obtain ⟨k, hk, hlt, hcome⟩ := exists_of_count_two htap htwo hzero
    exact hround k hk (by omega) hcome
  · exact feedAll_ne_zero_of_odd hw hone (by omega)

end Gf2
end Leodos

/-
Registers whose shifts run through every value but zero.

The contents of such a register are the powers of one element, so a value that is not zero has
a logarithm.
-/

namespace Leodos
namespace Gf2

variable {w : Nat} {taps : BitVec w}

theorem shift_xor (taps a b : BitVec w) : shift taps (a ^^^ b) = shift taps a ^^^ shift taps b := by
  rw [← toPoly_inj, toPoly_xor, toPoly_shift, toPoly_shift, toPoly_shift, toPoly_xor,
    BitVec.msb_xor, bit_xor, Polynomial.C_add]
  ring

theorem shift_iterate_xor (taps a b : BitVec w) (n : Nat) :
    (shift taps)^[n] (a ^^^ b) = (shift taps)^[n] a ^^^ (shift taps)^[n] b := by
  induction n with
  | zero => rfl
  | succ n ih =>
    rw [Function.iterate_succ_apply', Function.iterate_succ_apply', Function.iterate_succ_apply',
      ih, shift_xor]

theorem shift_iterate_zero (taps : BitVec w) (n : Nat) : (shift taps)^[n] 0#w = 0#w :=
  Function.iterate_fixed (shift_zero taps) n

theorem shift_iterate_injective (htap : taps.getLsbD 0 = true) (n : Nat) :
    Function.Injective (shift taps)^[n] := by
  intro a b h
  rw [← BitVec.xor_eq_zero_iff]
  apply eq_zero_of_shift_iterate htap (n := n)
  rw [shift_iterate_xor, BitVec.xor_eq_zero_iff]
  exact h

def power (taps : BitVec w) (i : Nat) : BitVec w := (shift taps)^[i] 1#w

theorem power_succ (taps : BitVec w) (i : Nat) : power taps (i + 1) = shift taps (power taps i) :=
  Function.iterate_succ_apply' _ _ _

theorem power_add (taps : BitVec w) (i j : Nat) :
    power taps (i + j) = (shift taps)^[i] (power taps j) :=
  Function.iterate_add_apply _ _ _ _

/-- The shifts do not come back before `n` steps when none of the largest proper divisors of `n`
brings them back. -/
theorem power_ne_one {taps : BitVec w} {n : Nat} (hperiod : power taps n = 1#w)
    (hprime : ∀ p, p.Prime → p ∣ n → power taps (n / p) ≠ 1#w) {i : Nat} (hi : 0 < i)
    (hlt : i < n) : power taps i ≠ 1#w := by
  intro h
  have hone : Function.IsPeriodicPt (shift taps) (i.gcd n) 1#w :=
    Function.IsPeriodicPt.gcd h hperiod
  obtain ⟨k, hk⟩ := Nat.gcd_dvd_right i n
  have hkne : k ≠ 1 := by
    intro hk1
    rw [hk1, Nat.mul_one] at hk
    exact absurd (Nat.gcd_le_left n hi) (by omega)
  obtain ⟨p, hp, m, hm⟩ := Nat.exists_prime_and_dvd hkne
  have hdiv : n / p = i.gcd n * m := by
    rw [hm, Nat.mul_left_comm] at hk
    exact Nat.div_eq_of_eq_mul_right hp.pos hk
  apply hprime p hp (Dvd.intro (i.gcd n * m) (by rw [Nat.mul_left_comm, ← hm, ← hk]))
  rw [hdiv]
  exact hone.mul_const m

/-- The shifts come back to one after `n` steps and not before, and leave out only zero. -/
structure Primitive (taps : BitVec w) (n : Nat) : Prop where
  low : taps.getLsbD 0 = true
  pos : 0 < w
  card : n + 1 = 2 ^ w
  period : power taps n = 1#w
  order : ∀ i, 0 < i → i < n → power taps i ≠ 1#w

namespace Primitive

variable {n : Nat}

theorem power_add_period (h : Primitive taps n) (i : Nat) : power taps (i + n) = power taps i := by
  rw [power_add, h.period, power]

theorem power_mod (h : Primitive taps n) (i : Nat) : power taps (i % n) = power taps i := by
  have hmul : ∀ k, power taps (i % n + n * k) = power taps (i % n) := by
    intro k
    induction k with
    | zero => rfl
    | succ k ih => rw [Nat.mul_succ, ← Nat.add_assoc, h.power_add_period, ih]
  rw [← hmul (i / n), Nat.mod_add_div]

theorem power_ne_zero (h : Primitive taps n) (i : Nat) : power taps i ≠ 0#w := by
  intro hz
  have hone : (1#w).toNat = (0#w).toNat := by rw [eq_zero_of_shift_iterate h.low hz]
  rw [BitVec.toNat_ofNat, BitVec.toNat_ofNat, Nat.mod_eq_of_lt (Nat.one_lt_two_pow h.pos.ne'),
    Nat.zero_mod] at hone
  exact absurd hone Nat.one_ne_zero

theorem power_injOn (h : Primitive taps n) : Set.InjOn (power taps) (Finset.range n) := by
  have hlt : ∀ {i j : Nat}, i < j → j < n → power taps i ≠ power taps j := by
    intro i j hij hjn heq
    apply h.order (j - i) (Nat.sub_pos_of_lt hij) (Nat.lt_of_le_of_lt (Nat.sub_le j i) hjn)
    apply shift_iterate_injective h.low i
    rw [← power_add, Nat.add_sub_of_le hij.le, ← heq, power]
  intro i hi j hj heq
  have hin : i < n := Finset.mem_range.1 hi
  have hjn : j < n := Finset.mem_range.1 hj
  rcases Nat.lt_trichotomy i j with hij | hij | hij
  · exact absurd heq (hlt hij hjn)
  · exact hij
  · exact absurd heq.symm (hlt hij hin)

theorem exists_power (h : Primitive taps n) {a : BitVec w} (ha : a ≠ 0#w) :
    ∃ i < n, power taps i = a := by
  have hinj : Set.InjOn (fun i => (power taps i).toNat) (Finset.range n) :=
    fun i hi j hj hij => h.power_injOn hi hj (BitVec.eq_of_toNat_eq hij)
  have hsub : (Finset.range n).image (fun i => (power taps i).toNat) ⊆
      (Finset.range (2 ^ w)).erase 0 := by
    intro b hb
    obtain ⟨i, _, rfl⟩ := Finset.mem_image.1 hb
    rw [Finset.mem_erase, Finset.mem_range]
    exact ⟨fun hz => h.power_ne_zero i (BitVec.eq_of_toNat_eq hz), BitVec.isLt _⟩
  have hcard : ((Finset.range (2 ^ w)).erase 0).card ≤
      ((Finset.range n).image fun i => (power taps i).toNat).card := by
    rw [Finset.card_image_of_injOn hinj, Finset.card_range,
      Finset.card_erase_of_mem (Finset.mem_range.2 (Nat.two_pow_pos w)), Finset.card_range,
      ← h.card, Nat.add_sub_cancel]
  have hmem : a.toNat ∈ (Finset.range n).image fun i => (power taps i).toNat := by
    rw [Finset.eq_of_subset_of_card_le hsub hcard, Finset.mem_erase, Finset.mem_range]
    exact ⟨fun hz => ha (BitVec.eq_of_toNat_eq hz), BitVec.isLt a⟩
  obtain ⟨i, hi, hia⟩ := Finset.mem_image.1 hmem
  exact ⟨i, Finset.mem_range.1 hi, BitVec.eq_of_toNat_eq hia⟩

end Primitive

end Gf2
end Leodos
