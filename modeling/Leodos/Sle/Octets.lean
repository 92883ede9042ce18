/-
Tags, lengths and integers as octets.

What the encoder puts down for a tag, a length or an integer, the decoder reads back.  A
length has four octets at most, so only its low 32 bits come back.
-/
import Leodos.Bits.Endian
import Leodos.Sle.Ber

namespace Leodos
namespace Sle

/-! ## Tags -/

theorem decodeTag_encodeTag (tag : Fin 31) (cls : Class) (constructed : Bool) (rest : Bytes) :
    decodeTag (encodeTag (.ofNat tag) cls constructed :: rest) =
      .ok (⟨.ofNat tag, cls, constructed⟩, 1) := by
  have hall : ∀ tag : Fin 31,
      encodeTag (.ofNat tag) cls constructed &&& 0x1F = .ofNat tag ∧ UInt8.ofNat tag ≠ 0x1F ∧
      Class.fromBits (encodeTag (.ofNat tag) cls constructed >>> 6) = cls ∧
      (encodeTag (.ofNat tag) cls constructed &&& 0x20 != 0) = constructed := by
    cases cls <;> cases constructed <;> decide
  obtain ⟨htag, hne, hcls, hcons⟩ := hall tag
  rw [decodeTag, htag, if_neg hne, hcls, hcons]

/-! ## Lengths -/

theorem foldl_octets (bytes : Bytes) (start : Nat) :
    bytes.foldl (fun val b => val <<< 8 ||| b.toNat) start =
      start * 256 ^ bytes.length + BigEndian.decode bytes := by
  rw [← BigEndian.foldl_eq]
  have hstep : (fun (val : Nat) (b : UInt8) => val <<< 8 ||| b.toNat) =
      fun val b => val * 256 + b.toNat := by
    funext val b
    rw [← Nat.shiftLeft_add_eq_or_of_lt (show b.toNat < 2 ^ 8 from b.toNat_lt),
      Nat.shiftLeft_eq]
  rw [hstep]

theorem decodeLength_long (octets rest : Bytes) (hpos : 0 < octets.length)
    (hle : octets.length ≤ 4) :
    decodeLength (.ofNat (0x80 + octets.length) :: (octets ++ rest)) =
      .ok (BigEndian.decode octets, 1 + octets.length) := by
  have hall : ∀ n, 0 < n → n ≤ 4 →
      ¬ UInt8.ofNat (0x80 + n) < 128 ∧ (UInt8.ofNat (0x80 + n) &&& 0x7F).toNat = n := by
    intro n hpos hle
    obtain rfl | rfl | rfl | rfl : n = 1 ∨ n = 2 ∨ n = 3 ∨ n = 4 := by omega
    all_goals decide
  obtain ⟨hlong, hcount⟩ := hall octets.length hpos hle
  have hlen : ¬ (octets ++ rest).length < octets.length := by
    rw [List.length_append]
    omega
  rw [decodeLength, if_neg hlong]
  simp only [hcount]
  rw [if_neg (by omega), if_neg hlen, List.take_left, foldl_octets, Nat.zero_mul, Nat.zero_add]

theorem decode_ofNat_shifts (n : Nat) :
    BigEndian.decode [.ofNat n] = n % 256 ∧
    BigEndian.decode [.ofNat (n >>> 8), .ofNat n] = n % 65536 ∧
    BigEndian.decode [.ofNat (n >>> 16), .ofNat (n >>> 8), .ofNat n] = n % 16777216 ∧
    BigEndian.decode [.ofNat (n >>> 24), .ofNat (n >>> 16), .ofNat (n >>> 8), .ofNat n] =
      n % 4294967296 := by
  simp only [BigEndian.decode, List.foldl_cons, List.foldl_nil, UInt8.toNat_ofNat',
    Nat.shiftRight_eq_div_pow]
  omega

theorem decodeLength_short {n : Nat} (h : n < 128) (rest : Bytes) :
    decodeLength (.ofNat n :: rest) = .ok (n, 1) := by
  have hn : (UInt8.ofNat n).toNat = n := UInt8.toNat_ofNat_of_lt' (by simp only [UInt8.size]; omega)
  have hlt : UInt8.ofNat n < 128 := UInt8.lt_iff_toNat_lt.2 (by rw [hn]; exact h)
  rw [decodeLength, if_pos hlt, hn]

theorem decodeLength_lengthOctets (n : Nat) (rest : Bytes) :
    decodeLength (lengthOctets n ++ rest) = .ok (n % 4294967296, (lengthOctets n).length) := by
  obtain ⟨h₁, h₂, h₃, h₄⟩ := decode_ofNat_shifts n
  unfold lengthOctets
  by_cases hshort : n < 128
  · rw [if_pos hshort]
    exact (decodeLength_short hshort rest).trans (by
      rw [Nat.mod_eq_of_lt (by omega)]
      rfl)
  rw [if_neg hshort]
  by_cases hone : n ≤ 0xFF
  · rw [if_pos hone]
    refine (decodeLength_long [.ofNat n] rest Nat.one_pos (by simp)).trans ?_
    rw [h₁, Nat.mod_eq_of_lt (by omega), Nat.mod_eq_of_lt (by omega)]
    rfl
  rw [if_neg hone]
  by_cases htwo : n ≤ 0xFFFF
  · rw [if_pos htwo]
    refine (decodeLength_long [.ofNat (n >>> 8), .ofNat n] rest (by simp) (by simp)).trans ?_
    rw [h₂, Nat.mod_eq_of_lt (by omega), Nat.mod_eq_of_lt (by omega)]
    rfl
  rw [if_neg htwo]
  by_cases hthree : n ≤ 0xFFFFFF
  · rw [if_pos hthree]
    refine (decodeLength_long [.ofNat (n >>> 16), .ofNat (n >>> 8), .ofNat n] rest (by simp)
      (by simp)).trans ?_
    rw [h₃, Nat.mod_eq_of_lt (by omega), Nat.mod_eq_of_lt (by omega)]
    rfl
  · rw [if_neg hthree]
    refine (decodeLength_long [.ofNat (n >>> 24), .ofNat (n >>> 16), .ofNat (n >>> 8), .ofNat n]
      rest (by simp) (by simp)).trans ?_
    rw [h₄]
    rfl

/-- The octets that `end_sequence` patches in. -/
def patchedLength (n : Nat) : Bytes :=
  if n < 128 then [.ofNat n]
  else if n ≤ 0xFF then [0x81, .ofNat n]
  else [0x82, .ofNat (n >>> 8), .ofNat n]

theorem patchedLength_eq {n : Nat} (h : n ≤ 0xFFFF) : patchedLength n = lengthOctets n := by
  unfold patchedLength lengthOctets
  rw [if_pos h]

theorem decodeLength_patchedLength (n : Nat) (rest : Bytes) :
    decodeLength (patchedLength n ++ rest) = .ok (n % 65536, (patchedLength n).length) := by
  by_cases h : n ≤ 0xFFFF
  · rw [patchedLength_eq h, decodeLength_lengthOctets, Nat.mod_eq_of_lt (by omega),
      Nat.mod_eq_of_lt (by omega)]
  · rw [patchedLength, if_neg (by omega), if_neg (by omega)]
    refine (decodeLength_long [.ofNat (n >>> 8), .ofNat n] rest (by simp) (by simp)).trans ?_
    rw [(decode_ofNat_shifts n).2.1]
    rfl

/-! ## Integers -/

theorem toNat_foldl (data : Bytes) (start : I64) :
    (data.foldl shiftIn start).toNat =
      (start.toNat * 256 ^ data.length + BigEndian.decode data) % 2 ^ 64 := by
  induction data generalizing start with
  | nil =>
    show start.toNat = (start.toNat * 256 ^ 0 + 0) % 2 ^ 64
    have := start.isLt
    omega
  | cons b data ih =>
    have hb : b.toNat < 2 ^ 8 := b.toNat_lt
    have hstep : (shiftIn start b).toNat = (start.toNat * 256 + b.toNat) % 2 ^ 64 := by
      rw [shiftIn, BitVec.toNat_or, BitVec.toNat_shiftLeft, BitVec.toNat_setWidth,
        UInt8.toNat_toBitVec, Nat.mod_eq_of_lt (show b.toNat < 2 ^ 64 by omega)]
      have hhigh : start.toNat <<< 8 % 2 ^ 64 = (start.toNat % 2 ^ 56) <<< 8 := by
        rw [Nat.shiftLeft_eq, Nat.shiftLeft_eq]
        omega
      rw [hhigh, ← Nat.shiftLeft_add_eq_or_of_lt hb, Nat.shiftLeft_eq]
      omega
    have hmod : ∀ x p d : Nat, (x % 2 ^ 64 * p + d) % 2 ^ 64 = (x * p + d) % 2 ^ 64 := by
      intro x p d
      rw [Nat.add_mod, Nat.mul_mod, Nat.mod_mod, ← Nat.mul_mod, ← Nat.add_mod]
    have hpow : 256 ^ (data.length + 1) = 256 * 256 ^ data.length := Nat.pow_succ'
    rw [List.foldl_cons, ih, hstep, hmod, BigEndian.decode_cons, List.length_cons, hpow,
      Nat.add_mul, Nat.mul_assoc, Nat.add_assoc]

theorem toBeBytes_eq (value : I64) : toBeBytes value = BigEndian.encode 8 value.toNat := by
  simp only [toBeBytes, BigEndian.encode, Nat.shiftRight_eq_div_pow, Nat.reducePow, Nat.div_one]

def signFill (negative : Bool) : I64 := if negative then .allOnes 64 else 0

theorem shiftIn_fill (negative : Bool) :
    shiftIn (signFill negative) (if negative then 0xFF else 0) = signFill negative := by
  cases negative <;> decide

theorem foldl_stripSign (negative : Bool) (data : Bytes) :
    (stripSign negative data).foldl shiftIn (signFill negative) =
      data.foldl shiftIn (signFill negative) := by
  induction data with
  | nil => rfl
  | cons a data ih =>
    cases data with
    | nil => rfl
    | cons b data =>
      have hfill := shiftIn_fill negative
      unfold stripSign
      cases negative with
      | true =>
        by_cases hdrop : a = 0xFF ∧ b ≥ 0x80
        · rw [if_pos rfl, if_pos hdrop, ih, hdrop.1]
          exact congrArg ((b :: data).foldl shiftIn) hfill.symm
        · rw [if_pos rfl, if_neg hdrop]
      | false =>
        by_cases hdrop : a = 0 ∧ b < 0x80
        · rw [if_neg Bool.false_ne_true, if_pos hdrop, ih, hdrop.1]
          exact congrArg ((b :: data).foldl shiftIn) hfill.symm
        · rw [if_neg Bool.false_ne_true, if_neg hdrop]

set_option maxRecDepth 4000 in
theorem signOf_octet (b : UInt8) : (b &&& 0x80 != 0) = decide (b ≥ 0x80) := by
  have hall : ∀ n : Fin 256, (UInt8.ofNat n &&& 0x80 != 0) = decide (UInt8.ofNat n ≥ 0x80) := by
    decide
  have hb := hall ⟨b.toNat, b.toNat_lt⟩
  rw [UInt8.ofNat_toNat] at hb
  exact hb

theorem signOf_stripSign {negative : Bool} {data : Bytes} (h : signOf data = negative) :
    signOf (stripSign negative data) = negative := by
  induction data with
  | nil => exact h
  | cons a data ih =>
    cases data with
    | nil => exact h
    | cons b data =>
      unfold stripSign
      cases negative with
      | true =>
        by_cases hdrop : a = 0xFF ∧ b ≥ 0x80
        · rw [if_pos rfl, if_pos hdrop]
          exact ih ((signOf_octet b).trans (decide_eq_true hdrop.2))
        · rw [if_pos rfl, if_neg hdrop]
          exact h
      | false =>
        by_cases hdrop : a = 0 ∧ b < 0x80
        · rw [if_neg Bool.false_ne_true, if_pos hdrop]
          exact ih ((signOf_octet b).trans (decide_eq_false (UInt8.not_le.2 hdrop.2)))
        · rw [if_neg Bool.false_ne_true, if_neg hdrop]
          exact h

theorem length_stripSign (negative : Bool) {data : Bytes} (h : data ≠ []) :
    0 < (stripSign negative data).length ∧ (stripSign negative data).length ≤ data.length := by
  induction data with
  | nil => exact absurd rfl h
  | cons a data ih =>
    cases data with
    | nil => exact ⟨Nat.one_pos, Nat.le_refl 1⟩
    | cons b data =>
      obtain ⟨hpos, hle⟩ := ih (List.cons_ne_nil b data)
      have hlen : (b :: data).length ≤ (a :: b :: data).length := Nat.le_succ _
      unfold stripSign
      split
      · split
        · exact ⟨hpos, Nat.le_trans hle hlen⟩
        · exact ⟨Nat.succ_pos _, Nat.le_refl _⟩
      · split
        · exact ⟨hpos, Nat.le_trans hle hlen⟩
        · exact ⟨Nat.succ_pos _, Nat.le_refl _⟩

theorem length_encodeI64 (value : I64) :
    0 < (encodeI64 value).length ∧ (encodeI64 value).length ≤ 8 :=
  length_stripSign value.msb (List.cons_ne_nil _ _)

theorem signOf_toBeBytes (value : I64) : signOf (toBeBytes value) = value.msb := by
  have hlt := value.isLt
  rw [toBeBytes, signOf, signOf_octet, BitVec.msb_eq_decide]
  refine decide_eq_decide.2 ?_
  rw [ge_iff_le, UInt8.le_iff_toNat_le, UInt8.toNat_ofNat', Nat.shiftRight_eq_div_pow]
  show 128 ≤ _ ↔ 2 ^ 63 ≤ _
  omega

theorem decodeI64_encodeI64 (value : I64) : decodeI64 (encodeI64 value) = value := by
  have hsign : signOf (encodeI64 value) = value.msb := signOf_stripSign (signOf_toBeBytes value)
  rw [decodeI64, hsign, encodeI64]
  refine (foldl_stripSign value.msb (toBeBytes value)).trans (BitVec.eq_of_toNat_eq ?_)
  rw [toNat_foldl, toBeBytes_eq, BigEndian.length_encode, BigEndian.decode_encode]
  have hlt := value.isLt
  omega

end Sle
end Leodos
