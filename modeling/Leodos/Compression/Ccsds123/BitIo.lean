/-
The bit writer, the bit reader and the code words of `application/compression/ccsds123.rs`.

Both go bit by bit.  The writer works on a cleared buffer and reports when the buffer is full.
-/
import Leodos.Bits.Stream
import Leodos.Bits.Emission

namespace Leodos
namespace Compression
namespace Ccsds123

open BitStream Emission

abbrev Bytes := List UInt8

inductive Error where
  | invalidConfig
  | outputFull
  | truncated
  | imageTooLarge
  | scratchTooSmall
  deriving DecidableEq, Repr

/-- How a call ends that returns no value. -/
inductive Stop where
  | error (e : Error)
  | panic
  | endless
  deriving DecidableEq, Repr

/-! ## Writing -/

/-- `bit` counts the bits of the octet at `pos` that are written. -/
structure BitWriter where
  buf : Bytes
  pos : Nat
  bit : Nat
  deriving DecidableEq, Repr

namespace BitWriter

def new (buf : Bytes) : BitWriter := ⟨buf, 0, 0⟩

def writeBit (w : BitWriter) (b : Nat) : Except Stop BitWriter :=
  if w.buf.length ≤ w.pos then .error (.error .outputFull)
  else
    let buf := w.buf.set w.pos (w.buf.getD w.pos 0 ||| UInt8.ofNat (b <<< (7 - w.bit)))
    .ok (if w.bit + 1 = 8 then ⟨buf, w.pos + 1, 0⟩ else ⟨buf, w.pos, w.bit + 1⟩)

def writeBits (w : BitWriter) (value : Nat) : Nat → Except Stop BitWriter
  | 0 => .ok w
  | n + 1 => do
    let w ← w.writeBit ((value >>> n) &&& 1)
    writeBits w value n

def writeZeros (w : BitWriter) : Nat → Except Stop BitWriter
  | 0 => .ok w
  | n + 1 => do
    let w ← w.writeBits 0 1
    writeZeros w n

def writeLow (w : BitWriter) (j k : Nat) : Except Stop BitWriter :=
  if 0 < k then w.writeBits (j &&& ((1 <<< k) - 1)) k else .ok w

/-- A quotient that is too long is an escape, with the number itself behind it. -/
def writeGpo2 (w : BitWriter) (j k uMax d : Nat) : Except Stop BitWriter :=
  if j >>> k < uMax then do
    let w ← w.writeZeros (j >>> k)
    let w ← w.writeBits 1 1
    w.writeLow j k
  else do
    let w ← w.writeZeros uMax
    w.writeBits j d

def flush (w : BitWriter) : BitWriter := if 0 < w.bit then ⟨w.buf, w.pos + 1, 0⟩ else w

def bytesWritten (w : BitWriter) : Nat := if 0 < w.bit then w.pos + 1 else w.pos

/-- The bits written so far, with zeros behind them. -/
structure Holds (size : Nat) (w : BitWriter) (bits : List Bool) : Prop where
  bit : w.bit < 8
  count : bits.length = 8 * w.pos + w.bit
  length : w.buf.length = size
  stands : ∀ i b, bits[i]? = some b → bitAt w.buf i = b
  clear : ∀ i, bits.length ≤ i → bitAt w.buf i = false

theorem holds_new (size : Nat) : (new (List.replicate size 0)).Holds size [] where
  bit := (by decide : 0 < 8)
  count := rfl
  length := List.length_replicate
  stands := fun i b h => by cases h
  clear := by
    intro i _
    show bitAt (List.replicate size 0) i = false
    rw [bitAt, List.getD_eq_getElem?_getD, List.getElem?_replicate]
    split
    · exact Nat.zero_testBit _
    · exact Nat.zero_testBit _

theorem or_bit_testBit {a : UInt8} {v j shift : Nat} (hj : j < 8) :
    (a ||| UInt8.ofNat ((v &&& 1) <<< shift)).toNat.testBit j =
      (a.toNat.testBit j || (decide (j = shift) && v.testBit 0)) := by
  rw [UInt8.toNat_or, UInt8.toNat_ofNat', Nat.testBit_or, Nat.and_one_is_mod]
  show (_ || ((v % 2 ^ 1) <<< shift % 2 ^ 8).testBit j) = _
  rw [Nat.testBit_mod_two_pow, Nat.testBit_shiftLeft, Nat.testBit_mod_two_pow, decide_eq_true hj,
    Bool.true_and]
  by_cases hshift : j = shift
  · subst hshift
    rw [decide_eq_true (Nat.le_refl j), Nat.sub_self, decide_eq_true (rfl : j = j)]
    rfl
  · rw [decide_eq_false hshift]
    by_cases hle : shift ≤ j
    · have hfar : ¬ j - shift < 1 := by omega
      rw [decide_eq_false hfar, Bool.false_and, Bool.and_false, Bool.false_and]
    · rw [decide_eq_false hle, Bool.false_and, Bool.false_and]

theorem Holds.writeBit {size : Nat} {w : BitWriter} {bits : List Bool} (h : w.Holds size bits)
    (v : Nat) :
    (bits.length < 8 * size → ∃ w', w.writeBit (v &&& 1) = .ok w' ∧
      w'.Holds size (bits ++ [v.testBit 0])) ∧
    (8 * size ≤ bits.length → w.writeBit (v &&& 1) = .error (.error .outputFull)) := by
  have hbit := h.bit
  have hcount := h.count
  rw [BitWriter.writeBit, h.length]
  constructor
  · intro hroom
    have hpos : w.pos < w.buf.length := by
      rw [h.length]
      omega
    rw [if_neg (by omega)]
    have hlen : (bits ++ [v.testBit 0]).length = bits.length + 1 := List.length_append
    have hbits : ∀ i, bitAt (w.buf.set w.pos
        (w.buf.getD w.pos 0 ||| UInt8.ofNat ((v &&& 1) <<< (7 - w.bit)))) i =
          (bitAt w.buf i || (decide (i = bits.length) && v.testBit 0)) := by
      intro i
      rw [bitAt_set hpos]
      by_cases hhere : i / 8 = w.pos
      · have hold : (w.buf.getD w.pos 0).toNat.testBit (7 - i % 8) = bitAt w.buf i := by
          rw [bitAt, hhere]
        have hindex : (7 - i % 8 = 7 - w.bit) ↔ (i = bits.length) := by omega
        rw [if_pos hhere, or_bit_testBit (by omega), hold, decide_eq_decide.2 hindex]
      · have hother : ¬ i = bits.length := by omega
        rw [if_neg hhere, decide_eq_false hother, Bool.false_and, Bool.or_false]
    have hstands : ∀ i b, (bits ++ [v.testBit 0])[i]? = some b → bitAt (w.buf.set w.pos
        (w.buf.getD w.pos 0 ||| UInt8.ofNat ((v &&& 1) <<< (7 - w.bit)))) i = b := by
      intro i b hi
      rw [hbits]
      by_cases hlast : i = bits.length
      · subst hlast
        rw [List.getElem?_append_right (Nat.le_refl _), Nat.sub_self] at hi
        rw [h.clear _ (Nat.le_refl _), decide_eq_true rfl, Bool.false_or, Bool.true_and]
        exact Option.some.inj hi
      · have hlt := (List.getElem?_eq_some_iff.1 hi).1
        rw [List.getElem?_append_left (by omega)] at hi
        rw [decide_eq_false hlast, Bool.false_and, Bool.or_false]
        exact h.stands i b hi
    have hclear : ∀ i, (bits ++ [v.testBit 0]).length ≤ i → bitAt (w.buf.set w.pos
        (w.buf.getD w.pos 0 ||| UInt8.ofNat ((v &&& 1) <<< (7 - w.bit)))) i = false := by
      intro i hi
      rw [hbits, h.clear i (by omega), decide_eq_false (by omega)]
      rfl
    refine ⟨_, rfl, ?_⟩
    by_cases hfull : w.bit + 1 = 8
    · rw [if_pos hfull]
      refine ⟨(by decide : 0 < 8), ?_, List.length_set.trans h.length, hstands, hclear⟩
      show (bits ++ [v.testBit 0]).length = 8 * (w.pos + 1) + 0
      omega
    · rw [if_neg hfull]
      refine ⟨by show w.bit + 1 < 8; omega, ?_, List.length_set.trans h.length, hstands, hclear⟩
      show (bits ++ [v.testBit 0]).length = 8 * w.pos + (w.bit + 1)
      omega
  · intro hfull
    rw [if_pos (by omega)]

/-- The medium of the writer: a write past the end of the buffer is an error. -/
def medium (size : Nat) : Medium BitWriter Stop where
  holds := fun w bits => w.Holds size bits
  room := 8 * size
  full := .error .outputFull

section
variable (size : Nat)

theorem puts_writeBit (v : Nat) :
    Puts (medium size) [v.testBit 0] (fun w => w.writeBit (v &&& 1)) := by
  intro w done h _
  have hwrite := h.writeBit v
  exact ⟨fun hfit => hwrite.1 hfit, fun hover => hwrite.2 (Nat.le_of_lt_succ hover)⟩

theorem puts_writeBits (value n : Nat) :
    Puts (medium size) (bitsOf n value) (fun w => w.writeBits value n) := by
  induction n with
  | zero => exact puts_pure
  | succ n ih =>
    have hbit := puts_writeBit size (value >>> n)
    rw [Nat.testBit_shiftRight, Nat.add_zero] at hbit
    exact hbit.bind ih

theorem puts_writeZeros (n : Nat) :
    Puts (medium size) (List.replicate n false) (fun w => w.writeZeros n) := by
  induction n with
  | zero => exact puts_pure
  | succ n ih => exact (puts_writeBits size 0 1).bind ih

theorem puts_writeLow (j k : Nat) :
    Puts (medium size) (bitsOf k j) (fun w => w.writeLow j k) := by
  unfold writeLow
  by_cases hk : 0 < k
  · simp only [if_pos hk]
    rw [← bitsOf_mask]
    exact puts_writeBits size _ k
  · obtain rfl : k = 0 := by omega
    exact puts_pure

end

end BitWriter

/-- The code word of a number. -/
def gpo2Bits (j k uMax d : Nat) : List Bool :=
  if j >>> k < uMax then unary (j >>> k) ++ bitsOf k j
  else List.replicate uMax false ++ bitsOf d j

theorem length_gpo2Bits_le {j k uMax d : Nat} (hk : k ≤ d) :
    (gpo2Bits j k uMax d).length ≤ uMax + d := by
  unfold gpo2Bits
  by_cases hq : j >>> k < uMax
  · rw [if_pos hq, List.length_append, length_unary, length_bitsOf]
    omega
  · have hescape : (List.replicate uMax false ++ bitsOf d j).length = uMax + d := by
      rw [List.length_append, List.length_replicate, length_bitsOf]
    rw [if_neg hq]
    exact Nat.le_of_eq hescape

theorem BitWriter.puts_writeGpo2 (size j k uMax d : Nat) :
    Puts (BitWriter.medium size) (gpo2Bits j k uMax d) (fun w => w.writeGpo2 j k uMax d) := by
  unfold gpo2Bits BitWriter.writeGpo2
  by_cases hq : j >>> k < uMax
  · simp only [if_pos hq]
    rw [unary, List.append_assoc]
    exact (puts_writeZeros size _).bind ((puts_writeBits size 1 1).bind (puts_writeLow size j k))
  · simp only [if_neg hq]
    exact (puts_writeZeros size _).bind (puts_writeBits size j d)

theorem BitWriter.Holds.stands_take {size : Nat} {w : BitWriter} {bits : List Bool}
    (h : w.Holds size bits) (hfit : bits.length ≤ 8 * size) :
    Stands (w.flush.buf.take w.flush.bytesWritten) 0 bits := by
  have hbit := h.bit
  have hcount := h.count
  have hlen := h.length
  have hflush : w.flush.buf = w.buf ∧
      w.flush.bytesWritten = if 0 < w.bit then w.pos + 1 else w.pos := by
    unfold flush bytesWritten
    by_cases hpart : 0 < w.bit
    · rw [if_pos hpart, if_pos hpart]
      exact ⟨rfl, rfl⟩
    · rw [if_neg hpart, if_neg hpart]
      exact ⟨rfl, rfl⟩
  have hwritten : bits.length ≤ 8 * w.flush.bytesWritten ∧ w.flush.bytesWritten ≤ size := by
    rw [hflush.2]
    split
    · omega
    · omega
  rw [hflush.1]
  exact BitStream.stands_take h.stands hwritten.1 (hlen ▸ hwritten.2)

/-! ## Reading -/

structure BitReader where
  buf : Bytes
  pos : Nat
  bit : Nat
  deriving DecidableEq, Repr

namespace BitReader

def new (buf : Bytes) : BitReader := ⟨buf, 0, 0⟩

def readLoop (r : BitReader) (val : Nat) : Nat → Except Stop (Nat × BitReader)
  | 0 => .ok (val, r)
  | n + 1 =>
    if r.buf.length ≤ r.pos then .error (.error .truncated)
    else
      let b := ((r.buf.getD r.pos 0).toNat >>> (7 - r.bit)) &&& 1
      readLoop (if r.bit + 1 = 8 then ⟨r.buf, r.pos + 1, 0⟩ else ⟨r.buf, r.pos, r.bit + 1⟩)
        ((val <<< 1) % 18446744073709551616 ||| b) n

def readBits (r : BitReader) (n : Nat) : Except Stop (Nat × BitReader) := r.readLoop 0 n

def readLow (r : BitReader) (k : Nat) : Except Stop (Nat × BitReader) :=
  if 0 < k then r.readBits k else .ok (0, r)

def gpo2Loop (k uMax d : Nat) : Nat → BitReader → Nat → Except Stop (Nat × BitReader)
  | 0, _, _ => .error .endless
  | fuel + 1, r, quotient => do
    let (bit, r) ← r.readBits 1
    if bit = 1 then do
      let (remainder, r) ← r.readLow k
      .ok ((quotient <<< k) % 18446744073709551616 ||| remainder, r)
    else if quotient + 1 = uMax then r.readBits d
    else gpo2Loop k uMax d fuel r (quotient + 1)

/-- Every round takes one bit of the octets. -/
def readGpo2 (r : BitReader) (k uMax d : Nat) : Except Stop (Nat × BitReader) :=
  gpo2Loop k uMax d (8 * r.buf.length + 1) r 0

/-- The reader that has read the first `off` bits. -/
def behind (buf : Bytes) (off : Nat) : BitReader := ⟨buf, off / 8, off % 8⟩

theorem readLoop_eq {buf : Bytes} {off val : Nat} {bits : List Bool} (h : Stands buf off bits)
    (hval : val < 2 ^ (64 - bits.length)) (hword : bits.length ≤ 64) :
    (behind buf off).readLoop val bits.length =
      .ok (val <<< bits.length + value bits, behind buf (off + bits.length)) := by
  induction bits generalizing off val with
  | nil => rfl
  | cons b bits ih =>
    have hlt := h.lt
    have hbit := h.getBit
    rw [List.length_cons] at hval hword
    have hnext : (if off % 8 + 1 = 8 then (⟨buf, off / 8 + 1, 0⟩ : BitReader)
        else ⟨buf, off / 8, off % 8 + 1⟩) = behind buf (off + 1) := by
      unfold behind
      by_cases hfull : off % 8 + 1 = 8
      · rw [if_pos hfull]
        congr 1
        · omega
        · omega
      · rw [if_neg hfull]
        congr 1
        · omega
        · omega
    have hread : ((buf.getD (off / 8) 0).toNat >>> (7 - off % 8)) &&& 1 = b.toNat := by
      rw [← hbit, bitAt, Nat.and_one_is_mod, Nat.toNat_testBit, Nat.shiftRight_eq_div_pow]
    have hexp : 64 - bits.length = 64 - (bits.length + 1) + 1 := by omega
    have hwide : 2 ^ (64 - (bits.length + 1)) ≤ 2 ^ 63 :=
      Nat.pow_le_pow_right (by decide) (by omega)
    have hshift : (val <<< 1) % 18446744073709551616 ||| b.toNat = val <<< 1 + b.toNat := by
      have hb : b.toNat < 2 ^ 1 := Nat.lt_succ_of_le (Bool.toNat_le b)
      have hsame : (val <<< 1) % 18446744073709551616 = val <<< 1 := by
        rw [Nat.shiftLeft_eq]
        exact Nat.mod_eq_of_lt (by omega)
      rw [hsame, Nat.shiftLeft_add_eq_or_of_lt hb]
    have hsmall : val <<< 1 + b.toNat < 2 ^ (64 - bits.length) := by
      have hb := Bool.toNat_le b
      rw [hexp, Nat.pow_succ, Nat.shiftLeft_eq]
      omega
    have hrest := ih h.tail hsmall (by omega)
    rw [List.length_cons, readLoop]
    show (if buf.length ≤ off / 8 then _ else readLoop (if off % 8 + 1 = 8 then
      (⟨buf, off / 8 + 1, 0⟩ : BitReader) else ⟨buf, off / 8, off % 8 + 1⟩)
      ((val <<< 1) % 18446744073709551616 ||| (((buf.getD (off / 8) 0).toNat >>> (7 - off % 8)) &&&
        1)) bits.length) = _
    rw [if_neg (by omega), hnext, hread, hshift, hrest, value]
    have hsum : (val <<< 1 + b.toNat) <<< bits.length =
        val <<< (bits.length + 1) + b.toNat <<< bits.length := by
      rw [Nat.shiftLeft_eq, Nat.shiftLeft_eq, Nat.shiftLeft_eq, Nat.shiftLeft_eq, Nat.add_mul,
        Nat.mul_assoc, ← Nat.pow_add, Nat.add_comm 1]
    rw [hsum, Nat.add_assoc, Nat.add_assoc, Nat.add_comm 1]

theorem readBits_eq {buf : Bytes} {off n : Nat} {bits : List Bool} (h : Stands buf off bits)
    (hlen : bits.length = n) (hword : n ≤ 64) :
    (behind buf off).readBits n = .ok (value bits, behind buf (off + n)) := by
  subst hlen
  have hloop := readLoop_eq h (Nat.two_pow_pos _) hword
  rw [Nat.zero_shiftLeft, Nat.zero_add] at hloop
  exact hloop

theorem readNumber_eq {buf : Bytes} {off n v : Nat} (h : Stands buf off (bitsOf n v))
    (hv : v < 2 ^ n) (hword : n ≤ 64) :
    (behind buf off).readBits n = .ok (v, behind buf (off + n)) := by
  have hread := readBits_eq h (length_bitsOf n v) hword
  rw [value_bitsOf_of_lt hv] at hread
  exact hread

theorem readLow_eq {buf : Bytes} {off j k : Nat} (h : Stands buf off (bitsOf k j))
    (hword : k ≤ 64) :
    (behind buf off).readLow k = .ok (j % 2 ^ k, behind buf (off + k)) := by
  unfold readLow
  by_cases hk : 0 < k
  · have hread := readBits_eq h (length_bitsOf k j) hword
    rw [value_bitsOf] at hread
    rw [if_pos hk]
    exact hread
  · obtain rfl : k = 0 := by omega
    rw [if_neg hk, Nat.pow_zero, Nat.mod_one]
    rfl

theorem gpo2Loop_quotient {buf : Bytes} {k uMax d fuel off q m j : Nat}
    (h : Stands buf off (unary m ++ bitsOf k j)) (hq : q + m = j >>> k) (hmax : j >>> k < uMax)
    (hfuel : m < fuel) (hk : k ≤ 64) (hj : j < 18446744073709551616) :
    gpo2Loop k uMax d fuel (behind buf off) q = .ok (j, behind buf (off + (m + 1 + k))) := by
  induction m generalizing off q fuel with
  | zero =>
    cases fuel with
    | zero => omega
    | succ fuel =>
      have hone : unary 0 = [true] := rfl
      rw [hone, stands_append] at h
      have hread := readBits_eq h.1 (show [true].length = 1 from rfl) (by decide)
      have hlow := readLow_eq h.2 hk
      have hjoin : (q <<< k) % 18446744073709551616 ||| j % 2 ^ k = j := by
        have hpart : j % 2 ^ k < 2 ^ k := Nat.mod_lt _ (Nat.two_pow_pos k)
        have hhigh : (j >>> k) <<< k ≤ j := by
          rw [Nat.shiftRight_eq_div_pow, Nat.shiftLeft_eq]
          exact Nat.div_mul_le_self _ _
        rw [Nat.add_zero] at hq
        rw [hq, Nat.mod_eq_of_lt (by omega), ← Nat.shiftLeft_add_eq_or_of_lt hpart,
          Nat.shiftRight_eq_div_pow, Nat.shiftLeft_eq, Nat.mul_comm]
        exact Nat.div_add_mod j (2 ^ k)
      rw [gpo2Loop, hread]
      show ((behind buf (off + 1)).readLow k >>= _) = _
      rw [List.length_singleton] at hlow
      rw [hlow]
      show Except.ok ((q <<< k) % 18446744073709551616 ||| j % 2 ^ k, _) = _
      rw [hjoin]
      congr 2
      congr 1
      omega
  | succ m ih =>
    cases fuel with
    | zero => omega
    | succ fuel =>
      have hzero : unary (m + 1) = [false] ++ unary m := rfl
      rw [hzero, List.append_assoc, stands_append] at h
      have hread := readBits_eq h.1 (show [false].length = 1 from rfl) (by decide)
      have hrest := ih h.2 (show q + 1 + m = j >>> k by omega) (show m < fuel by omega)
      rw [List.length_singleton] at hrest
      rw [gpo2Loop, hread]
      show (if q + 1 = uMax then _ else gpo2Loop k uMax d fuel (behind buf (off + 1)) (q + 1)) = _
      rw [if_neg (by omega), hrest]
      congr 2
      congr 1
      omega

theorem gpo2Loop_escape {buf : Bytes} {k uMax d fuel off q m j : Nat}
    (h : Stands buf off (List.replicate (m + 1) false ++ bitsOf d j)) (hq : q + (m + 1) = uMax)
    (hfuel : m < fuel) (hj : j < 2 ^ d) (hd : d ≤ 64) :
    gpo2Loop k uMax d fuel (behind buf off) q = .ok (j, behind buf (off + (m + 1 + d))) := by
  induction m generalizing off q fuel with
  | zero =>
    cases fuel with
    | zero => omega
    | succ fuel =>
      rw [stands_append] at h
      have hread := readBits_eq h.1 (show (List.replicate 1 false).length = 1 from rfl) (by decide)
      have hnumber := readNumber_eq h.2 hj hd
      rw [gpo2Loop, hread]
      show (if q + 1 = uMax then (behind buf (off + 1)).readBits d else _) = _
      rw [if_pos hq, ← Nat.add_assoc]
      exact hnumber
  | succ m ih =>
    cases fuel with
    | zero => omega
    | succ fuel =>
      have hzero : List.replicate (m + 1 + 1) false = [false] ++ List.replicate (m + 1) false := rfl
      rw [hzero, List.append_assoc, stands_append] at h
      have hread := readBits_eq h.1 (show [false].length = 1 from rfl) (by decide)
      have hrest := ih h.2 (show q + 1 + (m + 1) = uMax by omega) (show m < fuel by omega)
      rw [List.length_singleton] at hrest
      rw [gpo2Loop, hread]
      show (if q + 1 = uMax then _ else gpo2Loop k uMax d fuel (behind buf (off + 1)) (q + 1)) = _
      rw [if_neg (by omega), hrest]
      congr 2
      congr 1
      omega

theorem readGpo2_eq {buf : Bytes} {off j k uMax d : Nat} (h : Stands buf off (gpo2Bits j k uMax d))
    (hj : j < 2 ^ d) (hd : d ≤ 16) (hk : k ≤ 16) (hmax : 0 < uMax) :
    (behind buf off).readGpo2 k uMax d =
      .ok (j, behind buf (off + (gpo2Bits j k uMax d).length)) := by
  have hpow : 2 ^ d ≤ 2 ^ 16 := Nat.pow_le_pow_right (by decide) hd
  have hroom := h.1
  unfold readGpo2
  unfold gpo2Bits at h hroom ⊢
  by_cases hq : j >>> k < uMax
  · rw [if_pos hq] at h hroom ⊢
    rw [List.length_append, length_unary] at hroom
    rw [List.length_append, length_unary, length_bitsOf]
    exact gpo2Loop_quotient h (Nat.zero_add _) hq (by show _ < 8 * buf.length + 1; omega)
      (by omega) (by omega)
  · obtain ⟨m, rfl⟩ := Nat.exists_eq_succ_of_ne_zero (Nat.pos_iff_ne_zero.1 hmax)
    rw [if_neg hq] at h hroom ⊢
    rw [List.length_append, List.length_replicate] at hroom
    rw [List.length_append, List.length_replicate, length_bitsOf]
    exact gpo2Loop_escape h (Nat.zero_add _) (by show _ < 8 * buf.length + 1; omega) hj (by omega)

end BitReader

end Ccsds123
end Compression
end Leodos
