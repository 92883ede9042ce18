/-
Space Packet sequence fields.

A sequence count is the 14-bit counter of the primary header, so every value of
the type is in range and the code's `& SequenceCount::MAX` is the arithmetic of
the type.  `seqOf n` is the count that the `n`-th packet of a stream carries.
-/

namespace Leodos
namespace Spp

abbrev Bytes := List UInt8

abbrev SequenceCount := BitVec 14

inductive SequenceFlag where
  | continuation
  | first
  | last
  | unsegmented
  deriving DecidableEq, Repr

/-- The sequence count of packet number `n`, counting packets from zero. -/
def seqOf (n : Nat) : SequenceCount := BitVec.ofNat 14 n

theorem seqOf_succ (n : Nat) : seqOf n + 1 = seqOf (n + 1) := by
  unfold seqOf
  bv_omega

theorem seqOf_add (n d : Nat) : seqOf n + BitVec.ofNat 14 d = seqOf (n + d) := by
  unfold seqOf
  bv_omega

@[simp] theorem seqOf_toNat (n : Nat) : (seqOf n).toNat = n % 16384 := by
  simp [seqOf]

theorem seqOf_sub_toNat {m n : Nat} (h : n ≤ m) :
    (seqOf m - seqOf n).toNat = (m - n) % 16384 := by
  unfold seqOf
  bv_omega

theorem seqOf_sub_toNat_of_lt {m n : Nat} (h : m < n) (hn : n ≤ m + 16384) :
    (seqOf m - seqOf n).toNat = (16384 - (n - m)) % 16384 := by
  unfold seqOf
  bv_omega

/-- A count seen from packet `n` is the count of the packet at its forward
distance. -/
theorem seqOf_add_sub (n : Nat) (seq : SequenceCount) :
    seqOf (n + (seq - seqOf n).toNat) = seq := by
  unfold seqOf
  bv_omega

theorem seqOf_inj {m n : Nat} (h : seqOf m = seqOf n) : m % 16384 = n % 16384 := by
  have h' := congrArg BitVec.toNat h
  simpa using h'

end Spp
end Leodos
