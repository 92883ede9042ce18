/-
The bit writer and the bit reader of `application/compression/rice.rs`.

Both go through the octets in pieces of an octet.  The writer clears an octet when it gets
there and runs over the end of its buffer with a panic.
-/
import Leodos.Bits.Stream
import Leodos.Bits.Emission

namespace Leodos
namespace Compression
namespace Rice

open BitStream

abbrev Bytes := List UInt8

inductive Error where
  | invalidConfig
  | outputFull
  | truncated
  deriving DecidableEq, Repr

/-- How a call ends that returns no value: with an error, with a panic, or not at all. -/
inductive Stop where
  | error (e : Error)
  | panic
  | endless
  deriving DecidableEq, Repr

/-! ## Writing -/

/-- `bit` counts the free bits of the octet at `pos`. -/
structure BitWriter where
  buf : Bytes
  pos : Nat
  bit : Nat
  deriving DecidableEq, Repr

namespace BitWriter

def new (buf : Bytes) : BitWriter := ⟨buf.set 0 0, 0, 8⟩

/-- Some bits of the octet are taken; behind the last of them comes a cleared octet. -/
def advance (w : BitWriter) (n : Nat) : BitWriter :=
  if w.bit - n = 0 then ⟨w.buf.set (w.pos + 1) 0, w.pos + 1, 8⟩ else { w with bit := w.bit - n }

def writeLoop : Nat → BitWriter → Nat → Nat → Except Stop BitWriter
  | 0, w, _, rem => if rem = 0 then .ok w else .error .endless
  | fuel + 1, w, value, rem =>
    if rem = 0 then .ok w
    else if w.buf.length ≤ w.pos then .error .panic
    else
      let n := min rem w.bit
      let shift := w.bit - n
      let bits := (value >>> (rem - n)) &&& ((1 <<< n) - 1)
      let byte := w.buf.getD w.pos 0 ||| UInt8.ofNat (bits <<< shift)
      writeLoop fuel ({ w with buf := w.buf.set w.pos byte }.advance n) value (rem - n)

/-- Every round takes at least one bit. -/
def write (w : BitWriter) (value nBits : Nat) : Except Stop BitWriter :=
  writeLoop nBits w value nBits

/-- The zeros of a unary code, counted in 32 bits. -/
def skipLoop : Nat → BitWriter → Nat → Except Stop BitWriter
  | 0, w, zeros => if zeros = 0 then .ok w else .error .endless
  | fuel + 1, w, zeros =>
    if zeros = 0 then .ok w
    else
      let n := min (zeros % 4294967296) w.bit
      skipLoop fuel (w.advance n) (zeros - n)

def writeFs (w : BitWriter) (m : Nat) : Except Stop BitWriter :=
  match skipLoop m w m with
  | .error stop => .error stop
  | .ok w => w.write 1 1

def bytesWritten (w : BitWriter) : Nat := if w.bit = 8 then w.pos else w.pos + 1

/-- The bits written so far, with zeros behind them up to the end of the octet. -/
structure Holds (size : Nat) (w : BitWriter) (bits : List Bool) : Prop where
  bit : 1 ≤ w.bit ∧ w.bit ≤ 8
  count : bits.length + w.bit = 8 * w.pos + 8
  length : w.buf.length = size
  stands : ∀ i b, bits[i]? = some b → bitAt w.buf i = b
  clear : ∀ i, bits.length ≤ i → i < 8 * w.pos + 8 → bitAt w.buf i = false

theorem holds_new (buf : Bytes) : (new buf).Holds buf.length [] where
  bit := ⟨(by decide : 1 ≤ 8), Nat.le_refl 8⟩
  count := rfl
  length := List.length_set
  stands := fun i b h => by cases h
  clear := by
    intro i _ hi
    have hpos : i / 8 = 0 := Nat.div_eq_of_lt hi
    cases buf with
    | nil => exact bitAt_of_ge (Nat.zero_le _)
    | cons byte buf =>
      show bitAt ((byte :: buf).set 0 0) i = false
      rw [bitAt_set (Nat.succ_pos _), if_pos hpos]
      exact Nat.zero_testBit _

theorem Holds.extend {size : Nat} {w : BitWriter} {bits : List Bool} (h : w.Holds size bits)
    (piece : List Bool) {buf : Bytes} (hlen : buf.length = size)
    (hfit : piece.length ≤ w.bit)
    (hbits : ∀ i, i < 8 * w.pos + 8 → bitAt buf i =
      if i < bits.length then bitAt w.buf i else (piece[i - bits.length]?).getD false) :
    ({ w with buf := buf }.advance piece.length).Holds size (bits ++ piece) := by
  obtain ⟨⟨hbit, hbit'⟩, hcount, -, hstands, -⟩ := h
  have htotal : (bits ++ piece).length = bits.length + piece.length := List.length_append
  have hpiece : ∀ i b, (bits ++ piece)[i]? = some b → bitAt buf i = b := by
    intro i b hi
    have hilt := (List.getElem?_eq_some_iff.1 hi).1
    rw [hbits i (by omega)]
    by_cases hleft : i < bits.length
    · rw [if_pos hleft]
      rw [List.getElem?_append_left hleft] at hi
      exact hstands i b hi
    · rw [if_neg hleft]
      rw [List.getElem?_append_right (by omega)] at hi
      rw [hi]
      rfl
  have hclear : ∀ i, (bits ++ piece).length ≤ i → i < 8 * w.pos + 8 → bitAt buf i = false := by
    intro i hi hlt
    rw [hbits i hlt, if_neg (by omega), List.getElem?_eq_none (by omega)]
    rfl
  unfold advance
  by_cases hfull : w.bit - piece.length = 0
  · rw [if_pos hfull]
    refine ⟨⟨(by decide : 1 ≤ 8), Nat.le_refl 8⟩, ?_, by rw [List.length_set]; exact hlen, ?_, ?_⟩
    · show (bits ++ piece).length + 8 = 8 * (w.pos + 1) + 8
      omega
    · intro i b hi
      have hilt := (List.getElem?_eq_some_iff.1 hi).1
      by_cases hin : w.pos + 1 < buf.length
      · show bitAt (buf.set (w.pos + 1) 0) i = b
        rw [bitAt_set hin, if_neg (by omega)]
        exact hpiece i b hi
      · show bitAt (buf.set (w.pos + 1) 0) i = b
        rw [List.set_eq_of_length_le (by omega)]
        exact hpiece i b hi
    · intro i hi hlt
      show bitAt (buf.set (w.pos + 1) 0) i = false
      by_cases hin : w.pos + 1 < buf.length
      · have hpos : i / 8 = w.pos + 1 := by
          have hlt : i < 8 * (w.pos + 1) + 8 := hlt
          omega
        rw [bitAt_set hin, if_pos hpos]
        exact Nat.zero_testBit _
      · rw [List.set_eq_of_length_le (by omega)]
        exact bitAt_of_ge (by omega)
  · rw [if_neg hfull]
    refine ⟨⟨by show 1 ≤ w.bit - _; omega, by show w.bit - _ ≤ 8; omega⟩, ?_, hlen, hpiece, hclear⟩
    show (bits ++ piece).length + (w.bit - piece.length) = 8 * w.pos + 8
    omega

theorem or_testBit {a : UInt8} {n shift j : Nat} (v : Nat) (hj : j < 8) :
    (a ||| UInt8.ofNat ((v &&& ((1 <<< n) - 1)) <<< shift)).toNat.testBit j =
      (a.toNat.testBit j ||
        (decide (shift ≤ j) && (decide (j - shift < n) && v.testBit (j - shift)))) := by
  rw [UInt8.toNat_or, UInt8.toNat_ofNat', Nat.testBit_or, Nat.one_shiftLeft,
    Nat.and_two_pow_sub_one_eq_mod]
  show (_ || ((v % 2 ^ n) <<< shift % 2 ^ 8).testBit j) = _
  rw [Nat.testBit_mod_two_pow, Nat.testBit_shiftLeft, Nat.testBit_mod_two_pow, decide_eq_true hj,
    Bool.true_and]

theorem Holds.piece {size : Nat} {w : BitWriter} {bits : List Bool} (h : w.Holds size bits)
    (hroom : w.pos < size) {n : Nat} (hn : n ≤ w.bit) (v : Nat) :
    ({ w with buf := w.buf.set w.pos (w.buf.getD w.pos 0 |||
      UInt8.ofNat ((v &&& ((1 <<< n) - 1)) <<< (w.bit - n))) }.advance n).Holds size
        (bits ++ bitsOf n v) := by
  have hlen : w.pos < w.buf.length := by
    rw [h.length]
    exact hroom
  have hbit := h.bit
  have hcount := h.count
  have hfit : (bitsOf n v).length ≤ w.bit := by
    rw [length_bitsOf]
    exact hn
  have hbits : ∀ i, i < 8 * w.pos + 8 → bitAt (w.buf.set w.pos (w.buf.getD w.pos 0 |||
      UInt8.ofNat ((v &&& ((1 <<< n) - 1)) <<< (w.bit - n)))) i =
        if i < bits.length then bitAt w.buf i
        else ((bitsOf n v)[i - bits.length]?).getD false := by
    intro i hi
    rw [bitAt_set hlen]
    by_cases hpos : i / 8 = w.pos
    · have hold : (w.buf.getD w.pos 0).toNat.testBit (7 - i % 8) = bitAt w.buf i := by
        rw [bitAt, hpos]
      rw [if_pos hpos, or_testBit v (by omega), hold]
      by_cases hleft : i < bits.length
      · have hshift : ¬ 7 - i % 8 - (w.bit - n) < n ∨ ¬ w.bit - n ≤ 7 - i % 8 := by omega
        rw [if_pos hleft]
        rcases hshift with hshift | hshift
        · rw [decide_eq_false hshift, Bool.false_and, Bool.and_false, Bool.or_false]
        · rw [decide_eq_false hshift, Bool.false_and, Bool.or_false]
      · rw [if_neg hleft, h.clear i (by omega) hi, Bool.false_or]
        by_cases hin : i - bits.length < n
        · have hindex : 7 - i % 8 - (w.bit - n) = n - 1 - (i - bits.length) := by omega
          rw [bitsOf_getElem? v hin, hindex, decide_eq_true (by omega), decide_eq_true (by omega),
            Bool.true_and, Bool.true_and]
          rfl
        · rw [List.getElem?_eq_none (by rw [length_bitsOf]; omega), decide_eq_false (by omega),
            Bool.false_and]
          rfl
    · have hleft : i < bits.length := by omega
      rw [if_neg hpos, if_pos hleft]
  have hextend := h.extend (bitsOf n v) (List.length_set.trans h.length) hfit hbits
  rw [length_bitsOf] at hextend
  exact hextend

theorem Holds.writeLoop {size fuel : Nat} {w : BitWriter} {bits : List Bool}
    (h : w.Holds size bits) (value : Nat) {rem : Nat} (hfuel : rem ≤ fuel) :
    (bits.length + rem ≤ 8 * size → ∃ w', BitWriter.writeLoop fuel w value rem = .ok w' ∧
      w'.Holds size (bits ++ bitsOf rem value)) ∧
    (0 < rem → 8 * size < bits.length + rem →
      BitWriter.writeLoop fuel w value rem = .error .panic) := by
  induction fuel generalizing w bits rem with
  | zero =>
    obtain rfl : rem = 0 := by omega
    refine ⟨fun _ => ⟨w, rfl, ?_⟩, fun hpos => absurd hpos (Nat.lt_irrefl 0)⟩
    rw [bitsOf, List.append_nil]
    exact h
  | succ fuel ih =>
    by_cases hzero : rem = 0
    · subst hzero
      refine ⟨fun _ => ⟨w, rfl, ?_⟩, fun hpos => absurd hpos (Nat.lt_irrefl 0)⟩
      rw [bitsOf, List.append_nil]
      exact h
    · have hbit := h.bit
      have hcount := h.count
      rw [BitWriter.writeLoop, if_neg hzero, h.length]
      by_cases hover : size ≤ w.pos
      · rw [if_pos hover]
        exact ⟨fun hfit => by omega, fun _ _ => rfl⟩
      · rw [if_neg hover]
        have hn : min rem w.bit ≤ w.bit := Nat.min_le_right ..
        have hround := h.piece (by omega) hn (value >>> (rem - min rem w.bit))
        have hsplit : bitsOf rem value = bitsOf (min rem w.bit) (value >>> (rem - min rem w.bit)) ++
            bitsOf (rem - min rem w.bit) value := by
          rw [← bitsOf_add]
          congr 1
          omega
        have hrest := ih hround (show rem - min rem w.bit ≤ fuel by omega)
        rw [List.length_append, length_bitsOf] at hrest
        constructor
        · intro hfit
          obtain ⟨w', hw', hholds⟩ := hrest.1 (by omega)
          refine ⟨w', hw', ?_⟩
          rw [hsplit, ← List.append_assoc]
          exact hholds
        · intro _ hfull
          by_cases hdone : rem - min rem w.bit = 0
          · omega
          · exact hrest.2 (by omega) (by omega)

theorem Holds.skipLoop {size fuel m : Nat} {w : BitWriter} {bits : List Bool}
    (h : w.Holds size bits) (hm : m < 4294967296) (hfuel : m ≤ fuel) :
    ∃ w', BitWriter.skipLoop fuel w m = .ok w' ∧
      w'.Holds size (bits ++ List.replicate m false) := by
  induction fuel generalizing w bits m with
  | zero =>
    obtain rfl : m = 0 := by omega
    refine ⟨w, rfl, ?_⟩
    rw [List.replicate_zero, List.append_nil]
    exact h
  | succ fuel ih =>
    by_cases hzero : m = 0
    · subst hzero
      refine ⟨w, rfl, ?_⟩
      rw [List.replicate_zero, List.append_nil]
      exact h
    · have hbit := h.bit
      have hbits : ∀ i, i < 8 * w.pos + 8 → bitAt w.buf i = if i < bits.length then bitAt w.buf i
          else ((List.replicate (min m w.bit) false)[i - bits.length]?).getD false := by
        intro i hi
        by_cases hleft : i < bits.length
        · rw [if_pos hleft]
        · rw [if_neg hleft, h.clear i (by omega) hi, List.getElem?_replicate]
          by_cases hin : i - bits.length < min m w.bit
          · rw [if_pos hin]
            rfl
          · rw [if_neg hin]
            rfl
      have hround := h.extend (List.replicate (min m w.bit) false) h.length
        (by rw [List.length_replicate]; exact Nat.min_le_right ..) hbits
      rw [List.length_replicate] at hround
      obtain ⟨w', hw', hholds⟩ := ih hround (show m - min m w.bit < 4294967296 by omega) (by omega)
      refine ⟨w', ?_, ?_⟩
      · rw [BitWriter.skipLoop, if_neg hzero, Nat.mod_eq_of_lt hm]
        exact hw'
      · have hsum : min m w.bit + (m - min m w.bit) = m := by omega
        rw [List.append_assoc, List.replicate_append_replicate, hsum] at hholds
        exact hholds

/-- The medium of the writer: a write past the end of the buffer panics. -/
def medium (size : Nat) : Emission.Medium BitWriter Stop where
  holds := fun w bits => w.Holds size bits
  room := 8 * size
  full := .panic

theorem puts_write (size value nBits : Nat) :
    Emission.Puts (medium size) (bitsOf nBits value) (fun w => w.write value nBits) := by
  intro w done h hroom
  have hloop := h.writeLoop value (Nat.le_refl nBits)
  rw [length_bitsOf]
  exact ⟨hloop.1, fun hfull => hloop.2 (by omega) hfull⟩

theorem puts_writeFs (size : Nat) {m : Nat} (hm : m < 4294967296) :
    Emission.Puts (medium size) (unary m) (fun w => w.writeFs m) := by
  intro w done h hroom
  obtain ⟨w', hw', hholds⟩ := h.skipLoop hm (Nat.le_refl m)
  have hloop := hholds.writeLoop 1 (Nat.le_refl 1)
  have hrun : w.writeFs m = w'.write 1 1 := by
    rw [writeFs, hw']
  rw [List.length_append, List.length_replicate, List.append_assoc] at hloop
  rw [length_unary]
  show (done.length + (m + 1) ≤ 8 * size → _) ∧ (8 * size < done.length + (m + 1) → _)
  refine ⟨fun hfit => ?_, fun hfull => ?_⟩
  · obtain ⟨w'', hw'', hholds'⟩ := hloop.1 (by omega)
    exact ⟨w'', hrun.trans hw'', hholds'⟩
  · exact hrun.trans (hloop.2 Nat.one_pos (by omega))

theorem Holds.stands_take {size : Nat} {w : BitWriter} {bits : List Bool} (h : w.Holds size bits)
    (hfit : bits.length ≤ 8 * size) : Stands (w.buf.take w.bytesWritten) 0 bits := by
  have hbit := h.bit
  have hcount := h.count
  have hlen := h.length
  have hwritten : bits.length ≤ 8 * w.bytesWritten ∧ w.bytesWritten ≤ size := by
    rw [bytesWritten]
    split
    · omega
    · omega
  exact BitStream.stands_take h.stands hwritten.1 (hlen ▸ hwritten.2)

end BitWriter

/-! ## Reading -/

structure BitReader where
  buf : Bytes
  pos : Nat
  bit : Nat
  deriving DecidableEq, Repr

namespace BitReader

def new (buf : Bytes) : BitReader := ⟨buf, 0, 8⟩

def advance (r : BitReader) (n : Nat) : BitReader :=
  if r.bit - n = 0 then ⟨r.buf, r.pos + 1, 8⟩ else { r with bit := r.bit - n }

def readLoop : Nat → BitReader → Nat → Nat → Except Stop (Nat × BitReader)
  | 0, r, rem, result => if rem = 0 then .ok (result, r) else .error .endless
  | fuel + 1, r, rem, result =>
    if rem = 0 then .ok (result, r)
    else if r.buf.length ≤ r.pos then .error (.error .truncated)
    else
      let n := min rem r.bit
      let shift := r.bit - n
      let bits := ((r.buf.getD r.pos 0).toNat >>> shift) &&& ((1 <<< n) - 1)
      readLoop fuel (r.advance n) (rem - n) ((result <<< n) % 18446744073709551616 ||| bits)

def read (r : BitReader) (nBits : Nat) : Except Stop (Nat × BitReader) := readLoop nBits r nBits 0

def fsLoop : Nat → BitReader → Nat → Except Stop (Nat × BitReader)
  | 0, _, _ => .error .endless
  | fuel + 1, r, m => do
    let (bit, r) ← r.read 1
    if bit = 1 then .ok (m, r) else fsLoop fuel r (m + 1)

/-- Every round takes one bit of the octets. -/
def readFs (r : BitReader) : Except Stop (Nat × BitReader) := fsLoop (8 * r.buf.length + 1) r 0

/-- The reader that has read the first `off` bits. -/
def behind (buf : Bytes) (off : Nat) : BitReader := ⟨buf, off / 8, 8 - off % 8⟩

theorem behind_advance {buf : Bytes} {off n : Nat} (h : n ≤ 8 - off % 8) :
    (behind buf off).advance n = behind buf (off + n) := by
  have hmod : off % 8 < 8 := Nat.mod_lt _ (by decide)
  show (if 8 - off % 8 - n = 0 then _ else _) = _
  by_cases hfull : 8 - off % 8 - n = 0
  · rw [if_pos hfull, behind]
    congr 1
    · show off / 8 + 1 = (off + n) / 8
      omega
    · omega
  · rw [if_neg hfull, behind]
    show BitReader.mk buf (off / 8) (8 - off % 8 - n) = _
    congr 1
    · omega
    · omega

theorem readLoop_eq {buf : Bytes} {fuel off rem result : Nat} {bits : List Bool}
    (h : Stands buf off bits) (hrem : bits.length = rem) (hfuel : rem ≤ fuel) (hword : rem ≤ 64)
    (hresult : result < 2 ^ (64 - rem)) :
    readLoop fuel (behind buf off) rem result =
      .ok (result <<< rem + value bits, behind buf (off + rem)) := by
  induction fuel generalizing off rem result bits with
  | zero =>
    obtain rfl : rem = 0 := by omega
    obtain rfl := List.eq_nil_of_length_eq_zero hrem
    rfl
  | succ fuel ih =>
    by_cases hzero : rem = 0
    · subst hzero
      obtain rfl := List.eq_nil_of_length_eq_zero hrem
      rfl
    · have hroom := h.1
      have hmod : off % 8 < 8 := Nat.mod_lt _ (by decide)
      have hin : ¬ buf.length ≤ off / 8 := by omega
      obtain ⟨n, hn⟩ : ∃ n, n = min rem (8 - off % 8) := ⟨_, rfl⟩
      have hlenLeft : (bits.take n).length = n := by
        rw [List.length_take]
        omega
      have hsplit : Stands buf off (bits.take n) ∧ Stands buf (off + n) (bits.drop n) := by
        have hboth := h
        rw [← List.take_append_drop n bits, stands_append, hlenLeft] at hboth
        exact hboth
      have hchunk := hsplit.1.chunk (by omega)
      rw [hlenLeft] at hchunk
      have hleft := value_lt (bits.take n)
      rw [hlenLeft] at hleft
      have hshifted : result <<< n < 2 ^ (64 - (rem - n)) := by
        have hexp : 64 - (rem - n) = 64 - rem + n := by omega
        rw [hexp, Nat.pow_add, Nat.shiftLeft_eq]
        exact Nat.mul_lt_mul_of_pos_right hresult (Nat.two_pow_pos n)
      have hsum : (result <<< n) % 18446744073709551616 ||| value (bits.take n) =
          result <<< n + value (bits.take n) := by
        have hwide : 2 ^ (64 - (rem - n)) ≤ 2 ^ 64 := Nat.pow_le_pow_right (by decide) (by omega)
        have hsame : (result <<< n) % 18446744073709551616 = result <<< n :=
          Nat.mod_eq_of_lt (Nat.lt_of_lt_of_le hshifted hwide)
        rw [hsame, Nat.shiftLeft_add_eq_or_of_lt hleft]
      have hnext : result <<< n + value (bits.take n) < 2 ^ (64 - (rem - n)) := by
        have hexp : 64 - (rem - n) = 64 - rem + n := by omega
        have hmul : (result + 1) * 2 ^ n ≤ 2 ^ (64 - rem) * 2 ^ n := Nat.mul_le_mul_right _ hresult
        rw [hexp, Nat.pow_add, Nat.shiftLeft_eq]
        rw [Nat.add_mul] at hmul
        omega
      have hrest := ih hsplit.2 (show (bits.drop n).length = rem - n by rw [List.length_drop, hrem])
        (by omega) (by omega) hnext
      have hround : readLoop (fuel + 1) (behind buf off) rem result =
          readLoop fuel (behind buf (off + n)) (rem - n)
            (result <<< n + value (bits.take n)) := by
        rw [readLoop, if_neg hzero]
        show (if buf.length ≤ off / 8 then _ else readLoop fuel
          ((behind buf off).advance (min rem (8 - off % 8))) (rem - min rem (8 - off % 8))
          ((result <<< min rem (8 - off % 8)) % 18446744073709551616 |||
            (((buf.getD (off / 8) 0).toNat >>> (8 - off % 8 - min rem (8 - off % 8))) &&&
              ((1 <<< min rem (8 - off % 8)) - 1)))) = _
        rw [if_neg hin, ← hn, behind_advance (by omega), Nat.one_shiftLeft,
          Nat.and_two_pow_sub_one_eq_mod, hchunk, hsum]
      have hvalue : value bits = value (bits.take n) <<< (rem - n) + value (bits.drop n) := by
        have happend := value_append (bits.take n) (bits.drop n)
        rw [List.take_append_drop, List.length_drop, hrem] at happend
        exact happend
      have hpow : (2 : Nat) ^ rem = 2 ^ n * 2 ^ (rem - n) := by
        rw [← Nat.pow_add]
        congr 1
        omega
      have hend : off + n + (rem - n) = off + rem := by omega
      rw [hround, hrest, hvalue, hend, Nat.shiftLeft_eq, Nat.shiftLeft_eq, Nat.shiftLeft_eq,
        Nat.shiftLeft_eq, hpow, Nat.add_mul, Nat.mul_assoc, Nat.add_assoc]

theorem read_eq {buf : Bytes} {off n : Nat} {bits : List Bool} (h : Stands buf off bits)
    (hlen : bits.length = n) (hword : n ≤ 64) :
    (behind buf off).read n = .ok (value bits, behind buf (off + n)) := by
  have hloop := readLoop_eq h hlen (Nat.le_refl n) hword (Nat.two_pow_pos (64 - n))
  rw [Nat.zero_shiftLeft, Nat.zero_add] at hloop
  exact hloop

theorem fsLoop_eq {buf : Bytes} {fuel off m : Nat} (k : Nat) (h : Stands buf off (unary m))
    (hfuel : m < fuel) :
    fsLoop fuel (behind buf off) k = .ok (k + m, behind buf (off + (m + 1))) := by
  induction m generalizing fuel off k with
  | zero =>
    cases fuel with
    | zero => omega
    | succ fuel =>
      have hread := read_eq h (show [true].length = 1 from rfl) (by decide)
      rw [fsLoop, hread]
      rfl
  | succ m ih =>
    cases fuel with
    | zero => omega
    | succ fuel =>
      have hbits : unary (m + 1) = [false] ++ unary m := rfl
      rw [hbits, stands_append] at h
      have hread := read_eq h.1 (show [false].length = 1 from rfl) (by decide)
      have hrest := ih (k + 1) h.2 (show m < fuel by omega)
      rw [fsLoop, hread]
      show fsLoop fuel (behind buf (off + 1)) (k + 1) = _
      rw [List.length_singleton] at hrest
      rw [hrest]
      congr 2
      · omega
      · congr 1
        omega

theorem readFs_eq {buf : Bytes} {off m : Nat} (h : Stands buf off (unary m)) :
    (behind buf off).readFs = .ok (m, behind buf (off + (m + 1))) := by
  have hroom := h.1
  rw [length_unary] at hroom
  have hloop := fsLoop_eq 0 h (show m < 8 * buf.length + 1 by omega)
  rw [Nat.zero_add] at hloop
  exact hloop

end BitReader

end Rice
end Compression
end Leodos
