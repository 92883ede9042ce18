/-
Streams of bits over octets, the highest bit of an octet first.

A number is written as its low bits, or in unary as zeros and a one.  What stands in the
octets is said position by position, so writers and readers that work in pieces of an octet
meet in the same statements.
-/
import Mathlib.Algebra.Group.Nat.Defs

namespace Leodos
namespace BitStream

/-- The low bits of a number, the highest of them first. -/
def bitsOf : Nat → Nat → List Bool
  | 0, _ => []
  | n + 1, v => v.testBit n :: bitsOf n v

def value : List Bool → Nat
  | [] => 0
  | b :: bits => b.toNat <<< bits.length + value bits

def unary (m : Nat) : List Bool := List.replicate m false ++ [true]

@[simp] theorem length_bitsOf (n v : Nat) : (bitsOf n v).length = n := by
  induction n with
  | zero => rfl
  | succ n ih => rw [bitsOf, List.length_cons, ih]

@[simp] theorem length_unary (m : Nat) : (unary m).length = m + 1 := by
  rw [unary, List.length_append, List.length_replicate, List.length_singleton]

theorem bitsOf_getElem? {n i : Nat} (v : Nat) (h : i < n) :
    (bitsOf n v)[i]? = some (v.testBit (n - 1 - i)) := by
  induction n generalizing i with
  | zero => omega
  | succ n ih =>
    cases i with
    | zero => rfl
    | succ i =>
      rw [bitsOf, List.getElem?_cons_succ, ih (by omega)]
      congr 2
      omega

theorem bitsOf_add (n m v : Nat) : bitsOf (n + m) v = bitsOf n (v >>> m) ++ bitsOf m v := by
  induction n with
  | zero =>
    rw [Nat.zero_add]
    rfl
  | succ n ih =>
    rw [Nat.succ_add, bitsOf, bitsOf, ih, Nat.testBit_shiftRight, Nat.add_comm m n]
    rfl

theorem bitsOf_mask (k d : Nat) : bitsOf k (d &&& ((1 <<< k) - 1)) = bitsOf k d := by
  apply List.ext_getElem?
  intro i
  by_cases hi : i < k
  · rw [bitsOf_getElem? _ hi, bitsOf_getElem? _ hi, Nat.one_shiftLeft,
      Nat.and_two_pow_sub_one_eq_mod, Nat.testBit_mod_two_pow, decide_eq_true (by omega),
      Bool.true_and]
  · rw [List.getElem?_eq_none (by rw [length_bitsOf]; omega),
      List.getElem?_eq_none (by rw [length_bitsOf]; omega)]

theorem value_lt (bits : List Bool) : value bits < 2 ^ bits.length := by
  induction bits with
  | nil => exact Nat.one_pos
  | cons b bits ih =>
    rw [value, List.length_cons, Nat.pow_succ, Nat.shiftLeft_eq]
    have hb : b.toNat ≤ 1 := Bool.toNat_le b
    have hmul : b.toNat * 2 ^ bits.length ≤ 1 * 2 ^ bits.length := Nat.mul_le_mul_right _ hb
    omega

theorem value_bitsOf (n v : Nat) : value (bitsOf n v) = v % 2 ^ n := by
  induction n with
  | zero =>
    rw [Nat.pow_zero, Nat.mod_one]
    rfl
  | succ n ih =>
    rw [bitsOf, value, length_bitsOf, ih, Nat.shiftLeft_eq, Nat.mod_pow_succ, Nat.toNat_testBit]
    rw [Nat.mul_comm, Nat.add_comm]

theorem value_bitsOf_of_lt {n v : Nat} (h : v < 2 ^ n) : value (bitsOf n v) = v := by
  rw [value_bitsOf, Nat.mod_eq_of_lt h]

theorem value_append (bits bits' : List Bool) :
    value (bits ++ bits') = value bits <<< bits'.length + value bits' := by
  induction bits with
  | nil =>
    rw [List.nil_append, value, Nat.zero_shiftLeft, Nat.zero_add]
  | cons b bits ih =>
    rw [List.cons_append, value, value, ih, List.length_append, ← Nat.add_assoc]
    congr 1
    rw [Nat.shiftLeft_eq, Nat.shiftLeft_eq, Nat.shiftLeft_eq, Nat.shiftLeft_eq, Nat.add_mul,
      Nat.pow_add, Nat.mul_assoc]

theorem testBit_value {bits : List Bool} {j : Nat} (h : j < bits.length) :
    some ((value bits).testBit j) = bits[bits.length - 1 - j]? := by
  induction bits with
  | nil => exact absurd h (Nat.not_lt_zero j)
  | cons b bits ih =>
    have hlt := value_lt bits
    rw [value, Nat.shiftLeft_eq, Nat.mul_comm, List.length_cons]
    by_cases htop : j = bits.length
    · rw [htop, Nat.add_sub_cancel, Nat.sub_self, Nat.testBit_two_pow_mul_add _ hlt,
        if_neg (Nat.lt_irrefl _), Nat.sub_self]
      cases b <;> rfl
    · have hj : j < bits.length := by
        rw [List.length_cons] at h
        omega
      have hindex : bits.length + 1 - 1 - j = bits.length - 1 - j + 1 := by omega
      rw [Nat.testBit_two_pow_mul_add _ hlt, if_pos hj, ih hj, hindex, List.getElem?_cons_succ]

/-! ## Bits of octets -/

/-- Bit `i` of octets, the highest bit of the first octet being bit 0. -/
def bitAt (bytes : List UInt8) (i : Nat) : Bool :=
  (bytes.getD (i / 8) 0).toNat.testBit (7 - i % 8)

theorem bitAt_set {bytes : List UInt8} {pos : Nat} (h : pos < bytes.length) (byte : UInt8)
    (i : Nat) : bitAt (bytes.set pos byte) i =
      if i / 8 = pos then byte.toNat.testBit (7 - i % 8) else bitAt bytes i := by
  rw [bitAt, bitAt, List.getD_eq_getElem?_getD, List.getElem?_set]
  by_cases hpos : i / 8 = pos
  · rw [if_pos hpos, if_pos hpos.symm, if_pos h]
    rfl
  · rw [if_neg hpos, if_neg (fun hp => hpos hp.symm), ← List.getD_eq_getElem?_getD]

theorem bitAt_of_ge {bytes : List UInt8} {i : Nat} (h : 8 * bytes.length ≤ i) :
    bitAt bytes i = false := by
  rw [bitAt, List.getD_eq_getElem?_getD, List.getElem?_eq_none (by omega)]
  exact Nat.zero_testBit _

def octetBits (bytes : List UInt8) : List Bool := bytes.flatMap fun byte => bitsOf 8 byte.toNat

theorem octetBits_cons (byte : UInt8) (bytes : List UInt8) :
    octetBits (byte :: bytes) = bitsOf 8 byte.toNat ++ octetBits bytes := rfl

theorem octetBits_append (bytes bytes' : List UInt8) :
    octetBits (bytes ++ bytes') = octetBits bytes ++ octetBits bytes' :=
  List.flatMap_append

@[simp] theorem length_octetBits (bytes : List UInt8) :
    (octetBits bytes).length = 8 * bytes.length := by
  induction bytes with
  | nil => rfl
  | cons byte bytes ih =>
    rw [octetBits_cons, List.length_append, ih, length_bitsOf, List.length_cons, Nat.mul_succ,
      Nat.add_comm]

theorem octetBits_inj {bytes bytes' : List UInt8} :
    octetBits bytes = octetBits bytes' ↔ bytes = bytes' := by
  refine ⟨fun h => ?_, congrArg octetBits⟩
  induction bytes generalizing bytes' with
  | nil =>
    have hlen := congrArg List.length h
    rw [length_octetBits, length_octetBits, List.length_nil] at hlen
    exact (List.eq_nil_of_length_eq_zero (by omega)).symm
  | cons byte bytes ih =>
    cases bytes' with
    | nil =>
      have hlen := congrArg List.length h
      rw [length_octetBits, length_octetBits, List.length_nil, List.length_cons] at hlen
      omega
    | cons byte' bytes' =>
      rw [octetBits_cons, octetBits_cons] at h
      obtain ⟨hhead, htail⟩ := List.append_inj h (by rw [length_bitsOf, length_bitsOf])
      have hvalue := congrArg value hhead
      rw [value_bitsOf_of_lt byte.toNat_lt, value_bitsOf_of_lt byte'.toNat_lt] at hvalue
      rw [UInt8.toNat_inj.1 hvalue, ih htail]

theorem getElem?_octetBits {bytes : List UInt8} {i : Nat} (h : i < 8 * bytes.length) :
    (octetBits bytes)[i]? = some (bitAt bytes i) := by
  induction bytes generalizing i with
  | nil => exact absurd h (Nat.not_lt_zero i)
  | cons byte bytes ih =>
    rw [octetBits_cons, bitAt]
    by_cases hi : i < 8
    · rw [List.getElem?_append_left (by rw [length_bitsOf]; exact hi), bitsOf_getElem? _ hi,
        Nat.div_eq_of_lt hi, Nat.mod_eq_of_lt hi]
      rfl
    · have hsub : i - 8 < 8 * bytes.length := by
        rw [List.length_cons] at h
        omega
      have hdiv : i / 8 = (i - 8) / 8 + 1 := by omega
      have hmod : i % 8 = (i - 8) % 8 := by omega
      rw [List.getElem?_append_right (by rw [length_bitsOf]; omega), length_bitsOf, ih hsub, bitAt,
        hdiv, hmod, List.getD_cons_succ]

/-- The bits stand in the octets from bit `off` on. -/
def Stands (bytes : List UInt8) (off : Nat) (bits : List Bool) : Prop :=
  off + bits.length ≤ 8 * bytes.length ∧ ∀ i b, bits[i]? = some b → bitAt bytes (off + i) = b

theorem stands_take {bytes : List UInt8} {n : Nat} {bits : List Bool}
    (h : ∀ i b, bits[i]? = some b → bitAt bytes i = b) (hbits : bits.length ≤ 8 * n)
    (hn : n ≤ bytes.length) : Stands (bytes.take n) 0 bits := by
  refine ⟨?_, fun i b hi => ?_⟩
  · rw [List.length_take, Nat.min_eq_left hn, Nat.zero_add]
    exact hbits
  · have hlt := (List.getElem?_eq_some_iff.1 hi).1
    rw [Nat.zero_add, ← h i b hi, bitAt, bitAt, List.getD_eq_getElem?_getD,
      List.getD_eq_getElem?_getD, List.getElem?_take_of_lt (by omega)]

theorem stands_append {bytes : List UInt8} {off : Nat} {bits bits' : List Bool} :
    Stands bytes off (bits ++ bits') ↔
      Stands bytes off bits ∧ Stands bytes (off + bits.length) bits' := by
  rw [Stands, Stands, Stands, List.length_append]
  constructor
  · intro h
    refine ⟨⟨by omega, fun i b hi => h.2 i b ?_⟩, by omega, fun i b hi => ?_⟩
    · rw [List.getElem?_append_left (List.getElem?_eq_some_iff.1 hi).1]
      exact hi
    · rw [Nat.add_assoc]
      apply h.2
      rw [List.getElem?_append_right (Nat.le_add_right ..), Nat.add_sub_cancel_left]
      exact hi
  · intro h
    refine ⟨by omega, fun i b hi => ?_⟩
    by_cases hleft : i < bits.length
    · rw [List.getElem?_append_left hleft] at hi
      exact h.1.2 i b hi
    · rw [List.getElem?_append_right (by omega)] at hi
      have hright := h.2.2 _ b hi
      rw [Nat.add_assoc, Nat.add_sub_cancel' (by omega)] at hright
      exact hright

theorem Stands.getBit {bytes : List UInt8} {off : Nat} {b : Bool} {bits : List Bool}
    (h : Stands bytes off (b :: bits)) : bitAt bytes off = b := h.2 0 b rfl

theorem Stands.tail {bytes : List UInt8} {off : Nat} {b : Bool} {bits : List Bool}
    (h : Stands bytes off (b :: bits)) : Stands bytes (off + 1) bits :=
  (stands_append.1 (show Stands bytes off ([b] ++ bits) from h)).2

theorem Stands.lt {bytes : List UInt8} {off : Nat} {b : Bool} {bits : List Bool}
    (h : Stands bytes off (b :: bits)) : off < 8 * bytes.length := by
  have hlen := h.1
  rw [List.length_cons] at hlen
  omega

theorem Stands.chunk {bytes : List UInt8} {off : Nat} {bits : List Bool} (h : Stands bytes off bits)
    (hfit : off % 8 + bits.length ≤ 8) :
    ((bytes.getD (off / 8) 0).toNat >>> (8 - off % 8 - bits.length)) % 2 ^ bits.length =
      value bits := by
  apply Nat.eq_of_testBit_eq
  intro j
  rw [Nat.testBit_mod_two_pow, Nat.testBit_shiftRight]
  by_cases hj : j < bits.length
  · have hbit := h.2 (bits.length - 1 - j) _ (testBit_value hj).symm
    rw [bitAt] at hbit
    have hpos : (off + (bits.length - 1 - j)) / 8 = off / 8 := by omega
    have hshift : 7 - (off + (bits.length - 1 - j)) % 8 = 8 - off % 8 - bits.length + j := by omega
    rw [hpos, hshift] at hbit
    rw [hbit, decide_eq_true hj, Bool.true_and]
  · have hlt : value bits < 2 ^ j :=
      Nat.lt_of_lt_of_le (value_lt bits) (Nat.pow_le_pow_right (by decide) (Nat.le_of_not_lt hj))
    rw [decide_eq_false hj, Bool.false_and, Nat.testBit_lt_two_pow hlt]

end BitStream
end Leodos
