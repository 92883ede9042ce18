/-
Fields of a word, read and written through masks.

A mask marks a run of adjacent bits.  Writing clears the run and puts the value there;
a value that fits the run is read back, and the other fields of the word keep theirs.
-/
import Mathlib.Algebra.Group.Nat.Defs

namespace Leodos
namespace Bits

variable {w : Nat}

/-- The bits of `word` under `mask`, moved to the low end. -/
def getBits (word mask : BitVec w) : BitVec w := (word &&& mask) >>> mask.ctz.toNat

/-- Put `value` under `mask`. -/
def setBits (word mask value : BitVec w) : BitVec w :=
  (word &&& ~~~mask) ||| (value <<< mask.ctz.toNat)

/-- `mask` marks the `len` bits from bit `lo` on. -/
def Spans (mask : BitVec w) (lo len : Nat) : Prop :=
  mask.ctz.toNat = lo ∧ lo + len ≤ w ∧
    ∀ i, i < w → mask.getLsbD i = decide (lo ≤ i ∧ i < lo + len)

instance (mask : BitVec w) (lo len : Nat) : Decidable (Spans mask lo len) :=
  inferInstanceAs (Decidable (_ ∧ _ ∧ _))

theorem spans_of_eq {mask : BitVec w} {lo len : Nat}
    (h : mask = BitVec.ofNat w ((2 ^ len - 1) <<< lo)) (hpos : 0 < len) (hle : lo + len ≤ w) :
    Spans mask lo len := by
  have hbits : ∀ i, i < w → mask.getLsbD i = decide (lo ≤ i ∧ i < lo + len) := by
    intro i hi
    rw [h, BitVec.getLsbD_ofNat, Nat.testBit_shiftLeft, Nat.testBit_two_pow_sub_one,
      decide_eq_true hi, Bool.true_and, ← Bool.decide_and, decide_eq_decide]
    omega
  have hlow : mask.getLsbD lo = true := by
    rw [hbits lo (by omega), decide_eq_true_iff]
    omega
  refine ⟨?_, hle, hbits⟩
  rcases Nat.lt_trichotomy mask.ctz.toNat lo with hlt | heq | hgt
  · have hne : mask ≠ 0#w := by
      intro hzero
      rw [hzero, BitVec.getLsbD_zero] at hlow
      cases hlow
    have hset := BitVec.getLsbD_true_ctz_of_ne_zero hne
    rw [hbits _ (by omega), decide_eq_true_iff] at hset
    omega
  · exact heq
  · rw [BitVec.getLsbD_false_of_lt_ctz hgt] at hlow
    cases hlow

/-- `value` needs no more than `len` bits. -/
def Fits (value : BitVec w) (len : Nat) : Prop := ∀ i, len ≤ i → value.getLsbD i = false

theorem fits_setWidth {len : Nat} (x : BitVec len) : Fits (x.setWidth w) len := by
  intro i hi
  rw [BitVec.getLsbD_setWidth, BitVec.getLsbD_of_ge x i hi, Bool.and_false]

theorem fits_of_toNat_lt {value : BitVec w} {len : Nat} (h : value.toNat < 2 ^ len) :
    Fits value len := by
  intro i hi
  exact Nat.testBit_lt_two_pow (Nat.lt_of_lt_of_le h (Nat.pow_le_pow_right (by decide) hi))

theorem getLsbD_getBits {mask : BitVec w} {lo len : Nat} (h : Spans mask lo len) (word : BitVec w)
    (i : Nat) : (getBits word mask).getLsbD i = (decide (i < len) && word.getLsbD (lo + i)) := by
  obtain ⟨hlo, hle, hbits⟩ := h
  rw [getBits, BitVec.getLsbD_ushiftRight, hlo, BitVec.getLsbD_and]
  by_cases hi : lo + i < w
  · rw [hbits _ hi, Bool.and_comm]
    congr 1
    rw [decide_eq_decide]
    omega
  · rw [BitVec.getLsbD_of_ge word _ (Nat.le_of_not_lt hi), Bool.false_and, Bool.and_false]

theorem getLsbD_setBits {mask : BitVec w} {lo len : Nat} (h : Spans mask lo len)
    {value : BitVec w} (hv : Fits value len) (word : BitVec w) {i : Nat} (hi : i < w) :
    (setBits word mask value).getLsbD i =
      if lo ≤ i ∧ i < lo + len then value.getLsbD (i - lo) else word.getLsbD i := by
  obtain ⟨hlo, hle, hbits⟩ := h
  rw [setBits, BitVec.getLsbD_or, BitVec.getLsbD_and, BitVec.getLsbD_not,
    BitVec.getLsbD_shiftLeft, hlo, hbits i hi]
  by_cases hin : lo ≤ i ∧ i < lo + len
  · have hnot : ¬ i < lo := Nat.not_lt.2 hin.1
    simp [hin, hi, hnot]
  · rw [if_neg hin]
    by_cases hlt : i < lo
    · simp [hi, hlt, hin]
    · have hzero : value.getLsbD (i - lo) = false := hv _ (by omega)
      simp [hi, hin, hzero]

theorem getBits_setBits_self {mask : BitVec w} {lo len : Nat} (h : Spans mask lo len)
    {value : BitVec w} (hv : Fits value len) (word : BitVec w) :
    getBits (setBits word mask value) mask = value := by
  apply BitVec.eq_of_getLsbD_eq
  intro i hi
  rw [getLsbD_getBits h]
  by_cases hlen : i < len
  · have hw : lo + i < w := Nat.lt_of_lt_of_le (Nat.add_lt_add_left hlen lo) h.2.1
    rw [getLsbD_setBits h hv word hw, if_pos ⟨Nat.le_add_right .., by omega⟩,
      Nat.add_sub_cancel_left]
    simp [hlen]
  · rw [hv i (Nat.le_of_not_lt hlen)]
    simp [hlen]

theorem getBits_setBits_of_disjoint {mask mask' : BitVec w} {lo len lo' len' : Nat}
    (h : Spans mask lo len) (h' : Spans mask' lo' len')
    (hd : lo + len ≤ lo' ∨ lo' + len' ≤ lo) {value : BitVec w} (hv : Fits value len)
    (word : BitVec w) : getBits (setBits word mask value) mask' = getBits word mask' := by
  apply BitVec.eq_of_getLsbD_eq
  intro i hi
  rw [getLsbD_getBits h', getLsbD_getBits h']
  by_cases hlen : i < len'
  · have hw : lo' + i < w := Nat.lt_of_lt_of_le (Nat.add_lt_add_left hlen lo') h'.2.1
    rw [getLsbD_setBits h hv word hw, if_neg (by omega)]
  · simp [hlen]

theorem fits_getBits {mask : BitVec w} {lo len : Nat} (h : Spans mask lo len) (word : BitVec w) :
    Fits (getBits word mask) len := by
  intro i hi
  rw [getLsbD_getBits h, decide_eq_false (Nat.not_lt.2 hi), Bool.false_and]

theorem getLsbD_setBits_getBits {mask : BitVec w} {lo len : Nat} (h : Spans mask lo len)
    (word other : BitVec w) {i : Nat} (hi : i < w) :
    (setBits word mask (getBits other mask)).getLsbD i =
      if lo ≤ i ∧ i < lo + len then other.getLsbD i else word.getLsbD i := by
  rw [getLsbD_setBits h (fits_getBits h other) word hi]
  by_cases hin : lo ≤ i ∧ i < lo + len
  · have hlow : i - lo < len := by omega
    have hsum : lo + (i - lo) = i := by omega
    rw [if_pos hin, if_pos hin, getLsbD_getBits h, decide_eq_true hlow, Bool.true_and, hsum]
  · rw [if_neg hin, if_neg hin]

theorem setWidth_setWidth_of_fits {value : BitVec w} {len : Nat} (h : Fits value len) :
    (value.setWidth len).setWidth w = value := by
  apply BitVec.eq_of_getLsbD_eq
  intro i hi
  rw [BitVec.getLsbD_setWidth, BitVec.getLsbD_setWidth, decide_eq_true hi, Bool.true_and]
  by_cases hlen : i < len
  · rw [decide_eq_true hlen, Bool.true_and]
  · rw [decide_eq_false hlen, Bool.false_and, h i (Nat.le_of_not_lt hlen)]

/-! ## Two bytes of a word -/

/-- The big-endian octets of a 16-bit word. -/
def highByte (word : BitVec 16) : UInt8 := UInt8.ofBitVec (word.extractLsb' 8 8)

def lowByte (word : BitVec 16) : UInt8 := UInt8.ofBitVec (word.extractLsb' 0 8)

def ofBytes (high low : UInt8) : BitVec 16 := high.toBitVec ++ low.toBitVec

@[simp] theorem ofBytes_bytes (word : BitVec 16) :
    ofBytes (highByte word) (lowByte word) = word := by
  apply BitVec.eq_of_getLsbD_eq
  intro i hi
  unfold ofBytes highByte lowByte
  rw [BitVec.getLsbD_append]
  by_cases hlow : i < 8
  · simp [hlow]
  · have hsum : 8 + (i - 8) = i := by omega
    have hrest : i - 8 < 8 := by omega
    simp [hlow, hrest, hsum]

@[simp] theorem highByte_ofBytes (high low : UInt8) : highByte (ofBytes high low) = high := by
  apply UInt8.toBitVec_inj.1
  apply BitVec.eq_of_getLsbD_eq
  intro i hi
  show ((high.toBitVec ++ low.toBitVec).extractLsb' 8 8).getLsbD i = _
  have hnot : ¬ 8 + i < 8 := by omega
  rw [BitVec.getLsbD_extractLsb', decide_eq_true hi, Bool.true_and, BitVec.getLsbD_append]
  simp [hnot]

@[simp] theorem lowByte_ofBytes (high low : UInt8) : lowByte (ofBytes high low) = low := by
  apply UInt8.toBitVec_inj.1
  apply BitVec.eq_of_getLsbD_eq
  intro i hi
  show ((high.toBitVec ++ low.toBitVec).extractLsb' 0 8).getLsbD i = _
  rw [BitVec.getLsbD_extractLsb', decide_eq_true hi, Bool.true_and, BitVec.getLsbD_append]
  simp [hi]

end Bits
end Leodos

/-
Words that agree under a mask.

Two words agree under a mask when they have the same bits there.  Writing the same field into
both makes them agree under the mask of the field as well, so words whose fields are all
written are equal when they agree on the bits that belong to no field.
-/

namespace Leodos
namespace Bits

variable {w : Nat} {x y mask field : BitVec w}

def Agree (mask x y : BitVec w) : Prop := x &&& mask = y &&& mask

theorem agree_zero (x y : BitVec w) : Agree 0#w x y := by
  unfold Agree
  rw [BitVec.and_zero, BitVec.and_zero]

theorem Agree.eq (h : Agree mask x y) (hall : mask = BitVec.allOnes w) : x = y := by
  rw [Agree, hall, BitVec.and_allOnes, BitVec.and_allOnes] at h
  exact h

theorem Agree.getLsbD (h : Agree mask x y) {i : Nat} (hi : mask.getLsbD i = true) :
    x.getLsbD i = y.getLsbD i := by
  have hbit := congrArg (fun z : BitVec w => z.getLsbD i) h
  simp only [BitVec.getLsbD_and, hi, Bool.and_true] at hbit
  exact hbit

theorem Agree.getBits (h : Agree mask x y) (hinside : mask &&& field = field) :
    getBits x field = getBits y field := by
  have hx : ∀ z : BitVec w, z &&& field = z &&& mask &&& field := by
    intro z
    rw [BitVec.and_assoc, hinside]
  rw [Bits.getBits, hx x, h, ← hx y, Bits.getBits]

theorem Agree.setBits (h : Agree mask x y) (field value : BitVec w) :
    Agree (mask ||| field) (setBits x field value) (setBits y field value) := by
  apply BitVec.eq_of_getLsbD_eq
  intro i hi
  simp only [Bits.setBits, BitVec.getLsbD_and, BitVec.getLsbD_or, BitVec.getLsbD_not, hi,
    decide_true, Bool.true_and]
  cases hmask : mask.getLsbD i with
  | true => rw [h.getLsbD hmask]
  | false =>
    cases hfield : field.getLsbD i with
    | true => simp only [Bool.not_true, Bool.and_false, Bool.false_or]
    | false => simp only [Bool.or_self, Bool.and_false]

theorem agree_setBits (x : BitVec w) {value : BitVec w} (hfield : field &&& mask = 0#w)
    (hvalue : value <<< field.ctz.toNat &&& mask = 0#w) : Agree mask (setBits x field value) x := by
  apply BitVec.eq_of_getLsbD_eq
  intro i hi
  have hclear := congrArg (fun z : BitVec w => z.getLsbD i) hfield
  have hinside := congrArg (fun z : BitVec w => z.getLsbD i) hvalue
  simp only [BitVec.getLsbD_and, BitVec.getLsbD_zero] at hclear hinside
  simp only [Bits.setBits, BitVec.getLsbD_and, BitVec.getLsbD_or, BitVec.getLsbD_not, hi,
    decide_true, Bool.true_and]
  cases hmask : mask.getLsbD i with
  | false => simp only [Bool.and_false]
  | true =>
    rw [hmask, Bool.and_true] at hclear hinside
    simp only [hclear, hinside, Bool.not_false, Bool.and_true, Bool.or_false]

theorem Agree.symm (h : Agree mask x y) : Agree mask y x := Eq.symm h

theorem Agree.trans {z : BitVec w} (h : Agree mask x y) (h' : Agree mask y z) : Agree mask x z :=
  Eq.trans h h'

theorem and_eq_zero_of_fits {value : BitVec w} {len : Nat} (h : Fits value len)
    (hmask : ∀ i, i < len → mask.getLsbD i = false) : value &&& mask = 0#w := by
  apply BitVec.eq_of_getLsbD_eq
  intro i _
  rw [BitVec.getLsbD_and, BitVec.getLsbD_zero]
  by_cases hlen : i < len
  · rw [hmask i hlen, Bool.and_false]
  · rw [h i (Nat.le_of_not_lt hlen), Bool.false_and]

theorem shiftLeft_and_eq_zero (value : BitVec w) {shift : Nat} (h : mask.toNat < 2 ^ shift) :
    value <<< shift &&& mask = 0#w := by
  apply BitVec.eq_of_getLsbD_eq
  intro i _
  rw [BitVec.getLsbD_and, BitVec.getLsbD_shiftLeft, BitVec.getLsbD_zero]
  by_cases hlow : i < shift
  · rw [decide_eq_true hlow, Bool.not_true, Bool.and_false, Bool.false_and, Bool.false_and]
  · rw [fits_of_toNat_lt h i (Nat.le_of_not_lt hlow), Bool.and_false]

end Bits
end Leodos

/-
Octet arithmetic that reports overflow.

The language panics when an octet sum or difference leaves its range; `none` stands for
the panic.
-/

namespace Leodos
namespace Bits

def checkedAdd (a b : UInt8) : Option UInt8 :=
  if a.toNat + b.toNat < UInt8.size then some (a + b) else none

def checkedSub (a b : UInt8) : Option UInt8 :=
  if b.toNat ≤ a.toNat then some (a - b) else none

theorem toNat_add_of_lt {a b : UInt8} (h : a.toNat + b.toNat < UInt8.size) :
    (a + b).toNat = a.toNat + b.toNat := by
  rw [UInt8.toNat_add]
  exact Nat.mod_eq_of_lt h

theorem toNat_sub_of_le {a b : UInt8} (h : b.toNat ≤ a.toNat) :
    (a - b).toNat = a.toNat - b.toNat :=
  UInt8.toNat_sub_of_le a b (UInt8.le_iff_toNat_le.2 h)

end Bits
end Leodos
