/-
The control word that FARM-1 reports to FOP-1.

The word is read and written through masks.  `set` does not cut the value to the
field, so a virtual channel above 63 spills into the fields above it; the fields that
FOP-1 reads lie below.
-/
import Leodos.Bits.Field

namespace Leodos
namespace Cop1

open Bits

structure Clcw where
  word : BitVec 32
  deriving DecidableEq, Repr

namespace Clcw

def COP_MASK : BitVec 32 := 0x03000000
def VCID_MASK : BitVec 32 := 0x00fc0000
def LOCKOUT_MASK : BitVec 32 := 0x00002000
def WAIT_MASK : BitVec 32 := 0x00001000
def RETRANSMIT_MASK : BitVec 32 := 0x00000800
def FARM_B_MASK : BitVec 32 := 0x00000600
def REPORT_MASK : BitVec 32 := 0x000000ff

def trailingZeros (mask : BitVec 32) : Nat := mask.ctz.toNat

def get (word mask : BitVec 32) : BitVec 32 :=
  (word &&& mask) >>> trailingZeros mask

def set (word mask value : BitVec 32) : BitVec 32 :=
  (word &&& ~~~mask) ||| (value <<< trailingZeros mask)

def new : Clcw := ⟨0⟩

def setCopInEffect (c : Clcw) (v : UInt8) : Clcw := ⟨set c.word COP_MASK (v.toBitVec.setWidth 32)⟩

def setVcid (c : Clcw) (v : BitVec 32) : Clcw := ⟨set c.word VCID_MASK v⟩

def lockout (c : Clcw) : Bool := get c.word LOCKOUT_MASK != 0

def setLockout (c : Clcw) (v : Bool) : Clcw :=
  ⟨set c.word LOCKOUT_MASK ((BitVec.ofBool v).setWidth 32)⟩

def setWait (c : Clcw) (v : Bool) : Clcw :=
  ⟨set c.word WAIT_MASK ((BitVec.ofBool v).setWidth 32)⟩

def retransmit (c : Clcw) : Bool := get c.word RETRANSMIT_MASK != 0

def setRetransmit (c : Clcw) (v : Bool) : Clcw :=
  ⟨set c.word RETRANSMIT_MASK ((BitVec.ofBool v).setWidth 32)⟩

def setFarmBCounter (c : Clcw) (v : UInt8) : Clcw :=
  ⟨set c.word FARM_B_MASK ((v &&& 0x03).toBitVec.setWidth 32)⟩

/-- N(R), the next frame the receiver expects. -/
def reportValue (c : Clcw) : UInt8 := UInt8.ofBitVec ((get c.word REPORT_MASK).setWidth 8)

def setReportValue (c : Clcw) (v : UInt8) : Clcw :=
  ⟨set c.word REPORT_MASK (v.toBitVec.setWidth 32)⟩

/-! ## Reading back -/

theorem getLsbD_set (word mask value : BitVec 32) (i : Nat) :
    (set word mask value).getLsbD i =
      (word.getLsbD i && (decide (i < 32) && !mask.getLsbD i) ||
        (decide (i < 32) && !decide (i < trailingZeros mask) &&
          value.getLsbD (i - trailingZeros mask))) := by
  unfold set
  rw [BitVec.getLsbD_or, BitVec.getLsbD_and, BitVec.getLsbD_not, BitVec.getLsbD_shiftLeft]

theorem spans_report : Spans REPORT_MASK 0 8 := spans_of_eq rfl (by decide) (by decide)
theorem spans_retransmit : Spans RETRANSMIT_MASK 11 1 := spans_of_eq rfl (by decide) (by decide)
theorem spans_lockout : Spans LOCKOUT_MASK 13 1 := spans_of_eq rfl (by decide) (by decide)

theorem trailingZeros_report : trailingZeros REPORT_MASK = 0 := spans_report.1
theorem trailingZeros_retransmit : trailingZeros RETRANSMIT_MASK = 11 := spans_retransmit.1
theorem trailingZeros_lockout : trailingZeros LOCKOUT_MASK = 13 := spans_lockout.1

theorem reportValue_set (c : Clcw) (v : UInt8) : (c.setReportValue v).reportValue = v := by
  have hword : (get (c.setReportValue v).word REPORT_MASK).setWidth 8 = v.toBitVec := by
    apply BitVec.eq_of_getLsbD_eq
    intro i hi
    have hmask : REPORT_MASK.getLsbD i = true := by
      rw [spans_report.2.2 i (Nat.lt_trans hi (by decide)), decide_eq_true_iff]
      exact ⟨Nat.zero_le i, by omega⟩
    simp only [setReportValue, get, trailingZeros_report, BitVec.getLsbD_setWidth, hi,
      BitVec.ushiftRight_zero, BitVec.getLsbD_and, getLsbD_set, hmask, Nat.not_lt_zero]
    simp
    omega
  rw [reportValue, hword]

theorem twoPow_ushiftRight {k : Nat} (hk : k < 32) : BitVec.twoPow 32 k >>> k = 1 := by
  apply BitVec.eq_of_getLsbD_eq
  intro i hi
  show _ = (1#32).getLsbD i
  rw [BitVec.getLsbD_ushiftRight, BitVec.getLsbD_twoPow, BitVec.getLsbD_one, decide_eq_true hk,
    Bool.true_and, decide_eq_true (show 0 < 32 by decide), Bool.true_and, decide_eq_decide]
  omega

theorem get_bit {word mask : BitVec 32} {k : Nat} (hmask : mask = BitVec.twoPow 32 k)
    (hzeros : trailingZeros mask = k) (hk : k < 32) :
    (get word mask != 0) = word.getLsbD k := by
  rw [get, hzeros, hmask, BitVec.and_twoPow]
  cases word.getLsbD k with
  | false => simp
  | true =>
    rw [if_pos rfl, twoPow_ushiftRight hk]
    rfl

theorem lockout_eq (c : Clcw) : c.lockout = c.word.getLsbD 13 :=
  get_bit (by decide) trailingZeros_lockout (by decide)

theorem retransmit_eq (c : Clcw) : c.retransmit = c.word.getLsbD 11 :=
  get_bit (by decide) trailingZeros_retransmit (by decide)

end Clcw

end Cop1
end Leodos
