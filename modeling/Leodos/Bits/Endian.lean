/-
Numbers as octets, the most significant first.

`encode n x` is the `n` low octets of `x`, and `decode` weighs octets back into a number.
The two are inverse to one another on numbers below `256 ^ n`.
-/
import Mathlib.Algebra.Group.Nat.Defs

namespace Leodos
namespace BigEndian

def encode : Nat → Nat → List UInt8
  | 0, _ => []
  | n + 1, x => UInt8.ofNat (x / 256 ^ n) :: encode n x

def decode (bytes : List UInt8) : Nat :=
  bytes.foldl (fun acc byte => acc * 256 + byte.toNat) 0

@[simp] theorem length_encode (n x : Nat) : (encode n x).length = n := by
  induction n with
  | zero => rfl
  | succ n ih => rw [encode, List.length_cons, ih]

theorem foldl_eq (bytes : List UInt8) (start : Nat) :
    bytes.foldl (fun acc byte => acc * 256 + byte.toNat) start =
      start * 256 ^ bytes.length + decode bytes := by
  induction bytes generalizing start with
  | nil =>
    show start = start * 256 ^ 0 + 0
    omega
  | cons byte bytes ih =>
    show bytes.foldl _ (start * 256 + byte.toNat) = _ + bytes.foldl _ (0 * 256 + byte.toNat)
    rw [ih, ih (0 * 256 + byte.toNat), List.length_cons, Nat.pow_succ, Nat.zero_mul, Nat.zero_add,
      Nat.add_mul, Nat.mul_assoc, Nat.mul_comm 256, Nat.add_assoc]

theorem decode_cons (byte : UInt8) (bytes : List UInt8) :
    decode (byte :: bytes) = byte.toNat * 256 ^ bytes.length + decode bytes := by
  show bytes.foldl _ (0 * 256 + byte.toNat) = _
  rw [foldl_eq, Nat.zero_mul, Nat.zero_add]

theorem decode_lt (bytes : List UInt8) : decode bytes < 256 ^ bytes.length := by
  induction bytes with
  | nil => exact Nat.one_pos
  | cons byte bytes ih =>
    have hbyte : byte.toNat + 1 ≤ 256 := byte.toNat_lt
    have hmul : (byte.toNat + 1) * 256 ^ bytes.length ≤ 256 * 256 ^ bytes.length :=
      Nat.mul_le_mul_right _ hbyte
    rw [Nat.add_mul, Nat.one_mul] at hmul
    rw [decode_cons, List.length_cons, Nat.pow_succ, Nat.mul_comm _ 256]
    omega

theorem decode_encode (n x : Nat) : decode (encode n x) = x % 256 ^ n := by
  induction n with
  | zero =>
    rw [Nat.pow_zero, Nat.mod_one]
    rfl
  | succ n ih =>
    rw [encode, decode_cons, length_encode, ih, UInt8.toNat_ofNat']
    show x / 256 ^ n % 256 * 256 ^ n + x % 256 ^ n = x % (256 ^ n * 256)
    rw [Nat.mod_mul, Nat.mul_comm, Nat.add_comm]

theorem decode_encode_of_lt {n x : Nat} (h : x < 256 ^ n) : decode (encode n x) = x := by
  rw [decode_encode, Nat.mod_eq_of_lt h]

theorem encode_add_mul (n x k : Nat) : encode n (x + k * 256 ^ n) = encode n x := by
  have h : ∀ m, m ≤ n → encode m (x + k * 256 ^ n) = encode m x := by
    intro m
    induction m with
    | zero => intro _; rfl
    | succ m ih =>
      intro hm
      obtain ⟨d, rfl⟩ := Nat.exists_eq_add_of_lt (Nat.lt_of_succ_le hm)
      have hpow : k * 256 ^ (m + d + 1) = 256 ^ m * (k * 256 ^ d * 256) := by
        rw [Nat.pow_succ, Nat.pow_add]
        simp only [Nat.mul_assoc, Nat.mul_left_comm]
      rw [encode, encode, ih (by omega), hpow, Nat.add_mul_div_left _ _ (Nat.pow_pos (by decide))]
      congr 1
      rw [← UInt8.toNat_inj, UInt8.toNat_ofNat', UInt8.toNat_ofNat']
      exact Nat.add_mul_mod_self_right ..
  exact h n (Nat.le_refl n)

theorem drop_encode {n k : Nat} (h : k ≤ n) (x : Nat) : (encode n x).drop (n - k) = encode k x := by
  obtain ⟨d, rfl⟩ := Nat.exists_eq_add_of_le h
  rw [Nat.add_sub_cancel_left]
  induction d with
  | zero => rfl
  | succ d ih => exact ih (Nat.le_add_right k d)

theorem encode_inj {n x y : Nat} : encode n x = encode n y ↔ x % 256 ^ n = y % 256 ^ n := by
  constructor
  · intro h
    rw [← decode_encode, h, decode_encode]
  · intro h
    have hmod : ∀ z, encode n (z % 256 ^ n) = encode n z := by
      intro z
      rw [← encode_add_mul n (z % 256 ^ n) (z / 256 ^ n), Nat.mul_comm, Nat.mod_add_div]
    rw [← hmod x, h, hmod]

theorem take_encode {n k : Nat} (h : k ≤ n) (x : Nat) :
    (encode n x).take k = encode k (x / 256 ^ (n - k)) := by
  induction n generalizing k with
  | zero =>
    rw [Nat.le_zero.1 h]
    rfl
  | succ n ih =>
    cases k with
    | zero => rfl
    | succ k =>
      have hk := Nat.le_of_succ_le_succ h
      have hpow : 256 ^ n = 256 ^ (n - k) * 256 ^ k := by
        rw [← Nat.pow_add, Nat.sub_add_cancel hk]
      rw [encode, encode, List.take_succ_cons, ih hk, Nat.succ_sub_succ, hpow,
        Nat.div_div_eq_div_mul]

theorem decode_append (bytes rest : List UInt8) :
    decode (bytes ++ rest) = decode bytes * 256 ^ rest.length + decode rest := by
  rw [decode, List.foldl_append, foldl_eq]
  rfl

@[simp] theorem decode_zeros (n : Nat) : decode (List.replicate n 0) = 0 := by
  induction n with
  | zero => rfl
  | succ n ih =>
    rw [List.replicate_succ, decode_cons, ih, UInt8.toNat_zero, Nat.zero_mul]

end BigEndian
end Leodos

/-
Numbers as octets with the least significant octet first.

This is the layout in which zerocopy hands out the fields of a structure on the
machines the code is built for.
-/

namespace Leodos
namespace LittleEndian

def encode (n x : Nat) : List UInt8 := (BigEndian.encode n x).reverse

def decode (bytes : List UInt8) : Nat := BigEndian.decode bytes.reverse

@[simp] theorem length_encode (n x : Nat) : (encode n x).length = n := by
  rw [encode, List.length_reverse, BigEndian.length_encode]

theorem decode_encode (n x : Nat) : decode (encode n x) = x % 256 ^ n := by
  rw [decode, encode, List.reverse_reverse, BigEndian.decode_encode]

theorem decode_encode_of_lt {n x : Nat} (h : x < 256 ^ n) : decode (encode n x) = x := by
  rw [decode_encode, Nat.mod_eq_of_lt h]

end LittleEndian
end Leodos
