/-
Compression and decompression of images, `compression/ccsds122.rs`.

The stream has a header, and for each segment of strips a header, a count and the sign and the
magnitude of every coefficient.  Four bits say how many a magnitude takes, so an image whose
coefficients need no more than 15 comes back.  The bit writer and the bit reader of this file are
those of `ccsds123.rs`, line by line.
-/
import Leodos.Compression.Ccsds123.Config
import Leodos.Compression.Ccsds122.Transform
import Leodos.Memory.Cells

namespace Leodos
namespace Compression
namespace Ccsds122

open BitStream Emission Memory
open Ccsds123 (Bytes BitWriter BitReader Stop readFields fieldBits fieldBits_append readFields_eq)
open Ccsds123.BitReader (behind readNumber_eq)

structure Config where
  width : UInt16
  height : UInt16
  bps : UInt8
  segmentStrips : UInt16
  signedSamples : Bool
  deriving DecidableEq, Repr

namespace Config

def strips (c : Config) : Nat := c.height.toNat / STRIP_HEIGHT

def segHeight (c : Config) : Nat := c.segmentStrips.toNat * STRIP_HEIGHT

def validate (c : Config) : Except Stop Unit :=
  if c.width = 0 ∨ c.height = 0 ∨ c.width.toNat % 8 ≠ 0 ∨ c.height.toNat % 8 ≠ 0 then
    .error (.error .invalidConfig)
  else if c.bps < 2 ∨ 16 < c.bps then .error (.error .invalidConfig)
  else if c.segmentStrips = 0 ∨ c.strips < c.segmentStrips.toNat then
    .error (.error .invalidConfig)
  else .ok ()

/-- The strips of the segment that begins at `strip`. -/
def stripsFrom (c : Config) (strip : Nat) : Nat := min c.segmentStrips.toNat (c.strips - strip)

def area (c : Config) (strips : Nat) : Nat := c.width.toNat * (strips * STRIP_HEIGHT)

def stored (c : Config) : Config := { c with signedSamples := false }

theorem validate_of_bps {c : Config} (h : c.bps < 2) :
    c.validate = .error (.error .invalidConfig) := by
  rw [validate]
  split
  · rfl
  · rw [if_pos (Or.inl h)]

end Config

def scratchLen (width segHeight : Nat) : Nat := width * segHeight + width

def writeFields (w : BitWriter) (fs : List (Nat × Nat)) : Except Stop BitWriter :=
  fs.foldlM (fun w f => w.writeBits f.1 f.2) w

def globalFields (c : Config) : List (Nat × Nat) :=
  [(c.width.toNat, 16), (c.height.toNat, 16), (c.bps.toNat, 4), (c.segmentStrips.toNat, 16)]

def segmentHeader (c : Config) (segIdx maxBp : Nat) : List (Nat × Nat) :=
  let totalSegs := (c.strips + c.segmentStrips.toNat - 1) / c.segmentStrips.toNat
  [(if segIdx = 0 then 1 else 0, 1), (if segIdx = totalSegs - 1 then 1 else 0, 1),
    (segIdx % 256, 8), (maxBp, 4), (DWT_LEVELS, 3), (if c.signedSamples then 1 else 0, 1), (0, 2)]

def coefficient (maxBp : Nat) (v : Int32) : List (Nat × Nat) :=
  [(if v.toInt < 0 then 1 else 0, 1), (v.toInt.natAbs, maxBp)]

/-- What `encode_segment` writes. -/
def segment (maxBp : Nat) (coeffs : List Int32) : List (Nat × Nat) :=
  (coeffs.length, 20) :: coeffs.flatMap (coefficient maxBp)

/-- The bits of the largest magnitude. -/
def maxBitplane (coeffs : List Int32) : Nat :=
  let maxAbs := coeffs.foldl (fun m v => max m v.toInt.natAbs) 0
  if maxAbs = 0 then 1 else maxAbs.log2 + 1

def asI32 (v : UInt16) : Int32 := Int32.ofNat v.toNat

def asU16 (v : Int32) : UInt16 := UInt16.ofNat (v.toInt % 65536).toNat

def samplesOf (c : Config) (image : List UInt16) (strip : Nat) : List UInt16 :=
  slice image (c.area strip) (c.area (c.stripsFrom strip))

section Code

variable (checks : Bool)

def compressSegment (c : Config) (image : List UInt16) (strip segIdx : Nat) (w : BitWriter) :
    Except Stop BitWriter :=
  let curH := c.stripsFrom strip * STRIP_HEIGHT
  match dwtForward3level checks ((samplesOf c image strip).map asI32) c.width.toNat c.width.toNat
    curH with
  | none => .error .panic
  | some coeffs => do
    let w ← writeFields w (segmentHeader c segIdx (maxBitplane coeffs))
    writeFields w (segment (maxBitplane coeffs) coeffs)

def compressLoop (c : Config) (image : List UInt16) :
    Nat → Nat → Nat → BitWriter → Except Stop BitWriter
  | 0, _, _, _ => .error .endless
  | fuel + 1, strip, segIdx, w =>
    if strip < c.strips then do
      let w ← compressSegment checks c image strip segIdx w
      compressLoop c image fuel (strip + c.stripsFrom strip) (segIdx + 1) w
    else .ok w

/-- The number of octets written, and the buffer.  Of the scratch memory only the length is read
before it is written. -/
def compress (c : Config) (image : List UInt16) (out : Bytes) (scratch : Nat) :
    Except Stop (Nat × Bytes) := do
  c.validate
  if scratch < scratchLen c.width.toNat c.segHeight then .error (.error .scratchTooSmall)
  else if image.length < c.width.toNat * c.height.toNat then .error (.error .truncated)
  else do
    let w ← writeFields (.new (List.replicate out.length 0)) (globalFields c)
    let w ← compressLoop checks c image (c.strips + 1) 0 0 w
    .ok (w.flush.bytesWritten, w.flush.buf)

def decodeCoefficient (maxBp : Nat) (s : List Int32 × BitReader) (i : Nat) :
    Except Stop (List Int32 × BitReader) := do
  let (sign, r) ← s.2.readBits 1
  let (mag, r) ← r.readBits maxBp
  if s.1.length ≤ i then .error .panic
  else .ok (s.1.set i (if sign = 1 then -Int32.ofNat mag else Int32.ofNat mag), r)

def decodeSegment (r : BitReader) (coeffs : List Int32) (maxBp : Nat) :
    Except Stop (List Int32 × BitReader) := do
  let (n, r) ← r.readBits 20
  (List.range' 0 n).foldlM (decodeCoefficient maxBp) (coeffs, r)

/-- The reader, the scratch memory and the image. -/
structure Restoring where
  reader : BitReader
  scratch : List Int32
  image : List UInt16

def decompressSegment (c : Config) (strip : Nat) (s : Restoring) : Except Stop Restoring := do
  let n := c.area (c.stripsFrom strip)
  let (vs, r) ← readFields [1, 1, 8, 4, 3, 1, 2] s.reader
  let (coeffs, r) ← decodeSegment r (s.scratch.take n) (vs.getD 3 0)
  match dwtInverse3level checks coeffs c.width.toNat c.width.toNat
    (c.stripsFrom strip * STRIP_HEIGHT) with
  | none => .error .panic
  | some coeffs =>
    .ok ⟨r, coeffs ++ s.scratch.drop n, write s.image (c.area strip) (coeffs.map asU16)⟩

def decompressLoop (c : Config) : Nat → Nat → Restoring → Except Stop Restoring
  | 0, _, _ => .error .endless
  | fuel + 1, strip, s =>
    if strip < c.strips then do
      let s ← decompressSegment checks c strip s
      decompressLoop c fuel (strip + c.stripsFrom strip) s
    else .ok s

/-- The parameters, the number of samples and the image they were put into. -/
def decompress (data : Bytes) (image : List UInt16) (scratch : List Int32) :
    Except Stop (Config × Nat × List UInt16) := do
  let (vs, r) ← readFields [16, 16, 4, 16] (.new data)
  let c : Config := ⟨UInt16.ofNat (vs.getD 0 0), UInt16.ofNat (vs.getD 1 0),
    UInt8.ofNat (vs.getD 2 0), UInt16.ofNat (vs.getD 3 0), false⟩
  c.validate
  if scratch.length < scratchLen c.width.toNat c.segHeight then .error (.error .scratchTooSmall)
  else if image.length < c.width.toNat * c.height.toNat then .error (.error .outputFull)
  else do
    let s ← decompressLoop checks c (c.strips + 1) 0 ⟨r, scratch, image⟩
    .ok (c, c.width.toNat * c.height.toNat, s.image)

end Code

/-! ## Fields -/

theorem puts_writeFields (size : Nat) (fs : List (Nat × Nat)) :
    Puts (BitWriter.medium size) (fieldBits fs) (fun w => writeFields w fs) :=
  puts_foldlM fun f _ => BitWriter.puts_writeBits size f.1 f.2

theorem fieldBits_cons (f : Nat × Nat) (fs : List (Nat × Nat)) :
    fieldBits (f :: fs) = bitsOf f.2 f.1 ++ fieldBits fs := List.flatMap_cons

theorem natAbs_le_maxAbs (coeffs : List Int32) (m : Nat) :
    m ≤ coeffs.foldl (fun m v => max m v.toInt.natAbs) m ∧
      ∀ v ∈ coeffs, v.toInt.natAbs ≤ coeffs.foldl (fun m v => max m v.toInt.natAbs) m := by
  induction coeffs generalizing m with
  | nil => simp
  | cons v coeffs ih =>
    have hrest := ih (max m v.toInt.natAbs)
    rw [List.foldl_cons, List.forall_mem_cons]
    exact ⟨by omega, by omega, hrest.2⟩

theorem maxAbs_le {coeffs : List Int32} {A m : Nat} (hm : m ≤ A) (h : Bounded A coeffs) :
    coeffs.foldl (fun m v => max m v.toInt.natAbs) m ≤ A := by
  induction coeffs generalizing m with
  | nil => exact hm
  | cons v coeffs ih =>
    have hv := h 0 v rfl
    exact ih (Nat.max_le.2 ⟨hm, hv⟩) fun i w hw => h (i + 1) w hw

theorem natAbs_lt_maxBitplane {coeffs : List Int32} {v : Int32} (hv : v ∈ coeffs) :
    v.toInt.natAbs < 2 ^ maxBitplane coeffs := by
  have hle := (natAbs_le_maxAbs coeffs 0).2 v hv
  rw [maxBitplane]
  split
  · omega
  · exact Nat.lt_of_le_of_lt hle Nat.lt_log2_self

theorem maxBitplane_le {coeffs : List Int32} {A k : Nat} (h : Bounded A coeffs) (hA : A < 2 ^ k)
    (hk : 0 < k) : maxBitplane coeffs ≤ k := by
  have hle := maxAbs_le (Nat.zero_le A) h
  rw [maxBitplane]
  split
  · exact hk
  · next hpos => exact (Nat.log2_lt hpos).2 (Nat.lt_of_le_of_lt hle hA)

/-! ## Coefficients -/

theorem write_cons {coeffs vs : List Int32} {i : Nat} (hi : i < coeffs.length) (v : Int32) :
    write (coeffs.set i v) (i + 1) vs = write coeffs i (v :: vs) := by
  apply List.ext_getElem?
  intro j
  rw [write_getElem?, write_getElem?, List.length_set, List.length_cons, List.getElem?_set]
  by_cases hj : j = i
  · rw [hj, if_neg (by omega), if_pos rfl, if_pos hi, if_pos (by omega), Nat.sub_self]
    rfl
  · rw [if_neg (Ne.symm hj)]
    by_cases hin : i + 1 ≤ j ∧ j < i + 1 + vs.length ∧ j < coeffs.length
    · rw [if_pos hin, if_pos (by omega), show j - i = j - (i + 1) + 1 by omega,
        List.getElem?_cons_succ]
    · rw [if_neg hin, if_neg (by omega)]

theorem signed_natAbs (v : Int32) : (if (if v.toInt < 0 then 1 else 0) = 1 then
    -Int32.ofNat v.toInt.natAbs else Int32.ofNat v.toInt.natAbs) = v := by
  rw [← Int32.ofInt_eq_ofNat, Int32.neg_ofInt]
  by_cases hneg : v.toInt < 0
  · rw [if_pos hneg, if_pos rfl, show -((v.toInt.natAbs : Nat) : Int) = v.toInt by omega,
      Int32.ofInt_toInt]
  · rw [if_neg hneg, if_neg Nat.zero_ne_one, show ((v.toInt.natAbs : Nat) : Int) = v.toInt by omega,
      Int32.ofInt_toInt]

section Reading

variable {buf : Bytes} {off : Nat}

theorem decode_coefficients {maxBp i : Nat} {coeffs vs : List Int32} (hbp : maxBp ≤ 64)
    (hvs : ∀ v ∈ vs, v.toInt.natAbs < 2 ^ maxBp) (hlen : i + vs.length ≤ coeffs.length)
    (h : Stands buf off (fieldBits (vs.flatMap (coefficient maxBp)))) :
    (List.range' i vs.length).foldlM (decodeCoefficient maxBp) (coeffs, behind buf off) =
      .ok (write coeffs i vs,
        behind buf (off + (fieldBits (vs.flatMap (coefficient maxBp))).length)) := by
  induction vs generalizing i off coeffs with
  | nil => simp [fieldBits, pure, Except.pure]
  | cons v vs ih =>
    rw [List.length_cons] at hlen
    rw [List.forall_mem_cons] at hvs
    rw [List.flatMap_cons, coefficient, List.cons_append, List.cons_append, List.nil_append,
      fieldBits_cons, fieldBits_cons] at h ⊢
    rw [stands_append, stands_append] at h
    have hsign := readNumber_eq h.1 (by split <;> decide) (show 1 ≤ 64 by decide)
    have hmag := readNumber_eq h.2.1 hvs.1 hbp
    have hrest := ih (i := i + 1) hvs.2
      (show i + 1 + vs.length ≤ (coeffs.set i v).length by rw [List.length_set]; omega) h.2.2
    rw [length_bitsOf] at hmag hrest
    rw [length_bitsOf] at hrest
    have hstep : decodeCoefficient maxBp (coeffs, behind buf off) i =
        .ok (coeffs.set i v, behind buf (off + 1 + maxBp)) := by
      rw [decodeCoefficient, hsign, ok_bind]
      simp only [hmag, ok_bind]
      rw [if_neg (by omega), signed_natAbs]
    rw [List.length_cons, List.range'_succ, List.foldlM_cons, hstep, ok_bind, hrest,
      write_cons (by omega), List.length_append, List.length_append, length_bitsOf, length_bitsOf,
      Nat.add_assoc off, Nat.add_assoc off, Nat.add_assoc 1]

theorem decodeSegment_eq {maxBp : Nat} {coeffs vs : List Int32} (hbp : maxBp ≤ 64)
    (hvs : ∀ v ∈ vs, v.toInt.natAbs < 2 ^ maxBp) (hlen : coeffs.length = vs.length)
    (hcount : vs.length < 2 ^ 20) (h : Stands buf off (fieldBits (segment maxBp vs))) :
    decodeSegment (behind buf off) coeffs maxBp =
      .ok (vs, behind buf (off + (fieldBits (segment maxBp vs)).length)) := by
  rw [segment, fieldBits_cons, stands_append] at h
  have hn := readNumber_eq h.1 hcount (show 20 ≤ 64 by decide)
  have hall := decode_coefficients hbp hvs (show 0 + vs.length ≤ coeffs.length by omega) h.2
  have hwhole : write coeffs 0 vs = vs := by
    rw [write, List.take_zero, List.nil_append, List.take_of_length_le (by omega),
      List.drop_of_length_le (by omega), List.append_nil]
  rw [decodeSegment, hn, ok_bind]
  rw [length_bitsOf] at hall
  simp only [hall]
  rw [hwhole, segment, fieldBits_cons, List.length_append, length_bitsOf, Nat.add_assoc off]

end Reading

/-! ## Segments -/

theorem write_append {α : Type} (b x y : List α) (off : Nat) :
    write (write b off x) (off + x.length) y = write b off (x ++ y) := by
  apply List.ext_getElem?
  intro i
  rw [write_getElem?, write_getElem?, write_getElem?, write_length, List.length_append,
    List.getElem?_append]
  by_cases hy : off + x.length ≤ i ∧ i < off + x.length + y.length ∧ i < b.length
  · rw [if_pos hy, if_pos (by omega), if_neg (by omega)]
    congr 1
    omega
  · rw [if_neg hy]
    by_cases hx : off ≤ i ∧ i < off + x.length ∧ i < b.length
    · rw [if_pos hx, if_pos (by omega), if_pos (by omega)]
    · rw [if_neg hx, if_neg (by omega)]

/-- A configuration that is valid and whose rows and columns fit the copies. -/
structure Shaped (c : Config) : Prop where
  width : 8 ∣ c.width.toNat
  height : c.height.toNat = c.strips * STRIP_HEIGHT
  pos : 8 ≤ c.width.toNat
  segment : 0 < c.segmentStrips.toNat ∧ c.segmentStrips.toNat ≤ c.strips
  wide : c.width.toNat ≤ 2 * MAX_HALF
  high : c.segHeight ≤ MAX_COL

theorem shaped_of_validate {c : Config} (hv : c.validate = .ok ())
    (hwide : c.width.toNat ≤ 2 * MAX_HALF) (hhigh : c.segHeight ≤ MAX_COL) :
    Shaped c ∧ c.bps ≤ 16 := by
  rw [Config.validate] at hv
  split at hv
  · cases hv
  · next hsize =>
    split at hv
    · cases hv
    · next hbps =>
      split at hv
      · cases hv
      · next hsegment =>
        simp only [not_or, ne_eq, Decidable.not_not, ← UInt16.toNat_inj, UInt16.toNat_zero,
          Nat.not_lt, UInt8.not_lt] at hsize hbps hsegment
        obtain ⟨hw, -, hw8, hh8⟩ := hsize
        exact ⟨⟨Nat.dvd_of_mod_eq_zero hw8, (Nat.div_mul_cancel (Nat.dvd_of_mod_eq_zero hh8)).symm,
          by omega, by omega, hwide, hhigh⟩, hbps.2⟩

section Segments

variable {checks : Bool} {c : Config} {image : List UInt16} {A strip : Nat}

theorem area_add (c : Config) (m n : Nat) : c.area (m + n) = c.area m + c.area n := by
  rw [Config.area, Nat.add_mul, Nat.mul_add]
  rfl

theorem area_mono (c : Config) {m n : Nat} (h : m ≤ n) : c.area m ≤ c.area n :=
  Nat.mul_le_mul_left _ (Nat.mul_le_mul_right _ h)

theorem asU16_asI32 (v : UInt16) : asU16 (asI32 v) = v := by
  have hlt := v.toNat_lt
  rw [asU16, asI32, Int32.toInt_ofNat_of_lt (by omega)]
  apply UInt16.toNat_inj.1
  rw [UInt16.toNat_ofNat']
  omega

theorem map_asU16_asI32 (vs : List UInt16) : (vs.map asI32).map asU16 = vs := by
  rw [List.map_map]
  exact (List.map_congr_left fun v _ => asU16_asI32 v).trans (List.map_id vs)

structure Coefficients (checks : Bool) (c : Config) (image : List UInt16) (A strip : Nat)
    (coeffs : List Int32) : Prop where
  forward : dwtForward3level checks ((samplesOf c image strip).map asI32) c.width.toNat
    c.width.toNat (c.stripsFrom strip * STRIP_HEIGHT) = some coeffs
  inverse : dwtInverse3level checks coeffs c.width.toNat c.width.toNat
    (c.stripsFrom strip * STRIP_HEIGHT) = some ((samplesOf c image strip).map asI32)
  length : coeffs.length = c.area (c.stripsFrom strip)
  bounded : Bounded (A * 64) coeffs

theorem exists_coefficients (checks : Bool) (h : Shaped c)
    (hlen : c.area c.strips ≤ image.length) (hA : ∀ v ∈ image, v.toNat ≤ A) (hroom : A < 2 ^ 23)
    (hstrip : strip ≤ c.strips) :
    ∃ coeffs, Coefficients checks c image A strip coeffs := by
  have harea := area_add c strip (c.stripsFrom strip)
  have hin := area_mono c (show strip + c.stripsFrom strip ≤ c.strips by
    unfold Config.stripsFrom
    omega)
  have hlength : ((samplesOf c image strip).map asI32).length = c.area (c.stripsFrom strip) := by
    rw [List.length_map, samplesOf, slice_length (by omega)]
  have hsize : c.stripsFrom strip * STRIP_HEIGHT * c.width.toNat ≤
      ((samplesOf c image strip).map asI32).length := by
    rw [hlength, Config.area, Nat.mul_comm]
  have hhigh : c.stripsFrom strip * STRIP_HEIGHT ≤ MAX_COL :=
    Nat.le_trans (Nat.mul_le_mul_right _ (Nat.min_le_left _ _)) h.high
  have hsmall : Bounded A ((samplesOf c image strip).map asI32) := by
    intro i v hv
    rw [List.getElem?_map, Option.map_eq_some_iff] at hv
    obtain ⟨u, hu, hv⟩ := hv
    have hmem := List.mem_of_mem_drop (List.mem_of_mem_take (List.mem_of_getElem? hu))
    have hlt := u.toNat_lt
    rw [← hv, asI32, Int32.toInt_ofNat_of_lt (by omega), Int.natAbs_natCast]
    exact hA u hmem
  obtain ⟨coeffs, hcoeffs, hbounded⟩ := forwardLevels_bounded checks DWT_LEVELS
    (Nat.le_refl _) hsize h.wide hhigh (show A * 64 < 2 ^ 29 by omega) hsmall
  have hlength' := length_forwardLevels hcoeffs
  refine ⟨coeffs, hcoeffs, ?_, by rw [hlength', hlength], hbounded⟩
  exact forwardLevels_undo (Nat.le_refl _) hsize h.width (Nat.dvd_mul_left 8 _) hcoeffs

variable {coeffs : List Int32}

def segmentFields (c : Config) (segIdx : Nat) (coeffs : List Int32) : List (Nat × Nat) :=
  segmentHeader c segIdx (maxBitplane coeffs) ++ segment (maxBitplane coeffs) coeffs

theorem Coefficients.puts (h : Coefficients checks c image A strip coeffs) (segIdx size : Nat) :
    Puts (BitWriter.medium size) (fieldBits (segmentFields c segIdx coeffs))
      (fun w => compressSegment checks c image strip segIdx w) := by
  have hboth := (puts_writeFields size (segmentHeader c segIdx (maxBitplane coeffs))).bind
    (puts_writeFields size (segment (maxBitplane coeffs) coeffs))
  simp only [compressSegment, h.forward]
  rw [segmentFields, fieldBits_append]
  exact hboth

theorem length_segmentFields (c : Config) (segIdx : Nat) (coeffs : List Int32) :
    (fieldBits (segmentFields c segIdx coeffs)).length =
      40 + coeffs.length * (1 + maxBitplane coeffs) := by
  have hcoeffs : ∀ vs : List Int32,
      (fieldBits (vs.flatMap (coefficient (maxBitplane coeffs)))).length =
        vs.length * (1 + maxBitplane coeffs) := by
    intro vs
    induction vs with
    | nil => simp [fieldBits]
    | cons v vs ih =>
      rw [List.flatMap_cons, fieldBits_append, List.length_append, ih, List.length_cons,
        Nat.succ_mul]
      simp [coefficient, fieldBits, Nat.add_comm]
  rw [segmentFields, fieldBits_append, segment, fieldBits_cons, List.length_append,
    List.length_append, hcoeffs, length_bitsOf]
  simp [segmentHeader, fieldBits, ← Nat.add_assoc]

theorem Coefficients.decompressSegment_eq (h : Coefficients checks c image A strip coeffs)
    (hbp : maxBitplane coeffs ≤ 15) (hcount : c.area c.segmentStrips.toNat < 2 ^ 20) {buf : Bytes}
    {off segIdx : Nat} (hstands : Stands buf off (fieldBits (segmentFields c segIdx coeffs)))
    {scratch : List Int32} (hscratch : c.area c.segmentStrips.toNat ≤ scratch.length)
    (restored : List UInt16) :
    ∃ scratch', scratch'.length = scratch.length ∧
      decompressSegment checks c.stored strip
        ⟨behind buf off, scratch, restored⟩ =
      .ok ⟨behind buf (off + (fieldBits (segmentFields c segIdx coeffs)).length), scratch',
        write restored (c.area strip) (samplesOf c image strip)⟩ := by
  have harea : c.area (c.stripsFrom strip) ≤ c.area c.segmentStrips.toNat :=
    area_mono c (Nat.min_le_left _ _)
  have htake : (scratch.take (c.area (c.stripsFrom strip))).length = coeffs.length := by
    rw [List.length_take, h.length]
    omega
  rw [segmentFields, fieldBits_append, stands_append] at hstands
  have hheader := readFields_eq (by simp [segmentHeader]) hstands.1
  have hsegment := decodeSegment_eq (by omega) (fun v hv => natAbs_lt_maxBitplane hv) htake
    (by rw [h.length]; omega) hstands.2
  have hplane : ((segmentHeader c segIdx (maxBitplane coeffs)).map
      (fun f => f.1 % 2 ^ f.2)).getD 3 0 = maxBitplane coeffs := by
    show maxBitplane coeffs % 2 ^ 4 = _
    exact Nat.mod_eq_of_lt (by omega)
  refine ⟨(samplesOf c image strip).map asI32 ++ scratch.drop (c.area (c.stripsFrom strip)), ?_, ?_⟩
  · have hsame := length_dwtInverse3level h.inverse
    rw [List.length_append, hsame, h.length, List.length_drop]
    omega
  · have hwidths : (segmentHeader c segIdx (maxBitplane coeffs)).map Prod.snd =
        [1, 1, 8, 4, 3, 1, 2] := rfl
    rw [hwidths] at hheader
    rw [decompressSegment]
    simp only [hheader, ok_bind, hplane]
    show (decodeSegment _ (scratch.take (c.area (c.stripsFrom strip))) _ >>= _) = _
    simp only [hsegment, ok_bind]
    rw [show dwtInverse3level checks coeffs c.stored.width.toNat c.stored.width.toNat
      (c.stored.stripsFrom strip * STRIP_HEIGHT) = _ from h.inverse]
    simp only [map_asU16_asI32]
    rw [segmentFields, fieldBits_append, List.length_append, Nat.add_assoc]
    rfl

end Segments

/-! ## The stream -/

section Stream

variable {checks : Bool} {c : Config} {image : List UInt16} {A : Nat}

/-- The bits of the segments from a strip on, and what the decoder makes of them where four bits
hold every count of bits. -/
theorem loop_bits (checks : Bool) (h : Shaped c) (hlen : image.length = c.area c.strips)
    (hA : ∀ v ∈ image, v.toNat ≤ A) (hroom : A < 2 ^ 16) {fuel strip : Nat} (segIdx : Nat)
    (hfuel : c.strips - strip < fuel) (hstrip : strip ≤ c.strips) :
    ∃ bits, bits.length ≤ 24 * c.area (c.strips - strip) ∧
      (∀ size, Puts (BitWriter.medium size) bits
        (fun w => compressLoop checks c image fuel strip segIdx w)) ∧
      (A < 2 ^ 9 → c.area c.segmentStrips.toNat < 2 ^ 20 →
        ∀ (buf : Bytes) (off : Nat) (scratch : List Int32) (restored : List UInt16),
          Stands buf off bits → c.area c.segmentStrips.toNat ≤ scratch.length →
          ∃ s, decompressLoop checks c.stored fuel strip
              ⟨behind buf off, scratch, restored⟩ = .ok s ∧
            s.image = write restored (c.area strip) (image.drop (c.area strip))) := by
  induction fuel generalizing strip segIdx with
  | zero => exact absurd hfuel (Nat.not_lt_zero _)
  | succ fuel ih =>
    by_cases hmore : strip < c.strips
    · obtain ⟨coeffs, hcoeffs⟩ := exists_coefficients checks h
        (Nat.le_of_eq hlen.symm) hA (by omega) hstrip
      have hsegment := h.segment
      have hcur : 0 < c.stripsFrom strip ∧ strip + c.stripsFrom strip ≤ c.strips := by
        unfold Config.stripsFrom
        omega
      obtain ⟨bits, hbits, hputs, hdecode⟩ := ih (segIdx + 1)
        (by omega) hcur.2
      have hsplit := area_add c (c.stripsFrom strip) (c.strips - (strip + c.stripsFrom strip))
      rw [show c.stripsFrom strip + (c.strips - (strip + c.stripsFrom strip)) = c.strips - strip by
        omega] at hsplit
      refine ⟨fieldBits (segmentFields c segIdx coeffs) ++ bits, ?_, fun size => ?_, ?_⟩
      · have hplane : maxBitplane coeffs ≤ 22 :=
          maxBitplane_le hcoeffs.bounded (by omega) (by decide)
        have hmany : 8 * 8 ≤ c.area (c.stripsFrom strip) :=
          Nat.mul_le_mul h.pos (Nat.mul_le_mul_right 8 hcur.1)
        have hmul : coeffs.length * (1 + maxBitplane coeffs) ≤ coeffs.length * 23 :=
          Nat.mul_le_mul_left _ (by omega)
        rw [List.length_append, length_segmentFields]
        rw [hcoeffs.length] at hmul ⊢
        omega
      · simp only [compressLoop, if_pos hmore]
        exact (hcoeffs.puts segIdx size).bind (hputs size)
      · intro hsmall hcount buf off scratch restored hstands hscratch
        rw [stands_append] at hstands
        have hplane : maxBitplane coeffs ≤ 15 :=
          maxBitplane_le hcoeffs.bounded (by omega) (by decide)
        obtain ⟨scratch', hlen', hstep⟩ :=
          hcoeffs.decompressSegment_eq hplane hcount hstands.1 hscratch restored
        obtain ⟨s, hs, himage⟩ := hdecode hsmall hcount buf _ scratch'
          (write restored (c.area strip) (samplesOf c image strip)) hstands.2 (by omega)
        refine ⟨s, ?_, ?_⟩
        · rw [decompressLoop, if_pos (show strip < c.stored.strips from hmore), hstep]
          exact hs
        · have hin := area_mono c hcur.2
          have hnext : (samplesOf c image strip).length = c.area (c.stripsFrom strip) := by
            rw [area_add] at hin
            rw [samplesOf, slice_length (by omega)]
          rw [himage, area_add, ← hnext, write_append, hnext, samplesOf, slice, ← List.drop_drop,
            List.take_append_drop]
    · refine ⟨[], Nat.zero_le _, fun size => ?_, fun _ _ buf off scratch restored _ _ =>
        ⟨⟨behind buf off, scratch, restored⟩, ?_, ?_⟩⟩
      · simp only [compressLoop, if_neg hmore]
        exact puts_pure
      · rw [decompressLoop, if_neg (show ¬ strip < c.stored.strips from hmore)]
      · rw [List.drop_of_length_le (by rw [hlen]; exact area_mono c (Nat.not_lt.1 hmore)),
          write_nil]

theorem area_strips (h : Shaped c) : c.area c.strips = c.width.toNat * c.height.toNat := by
  rw [Config.area, ← h.height]

theorem image_bits (checks : Bool) (hv : c.validate = .ok ()) (h : Shaped c)
    (hlen : image.length = c.width.toNat * c.height.toNat) (hA : ∀ v ∈ image, v.toNat ≤ A)
    (hroom : A < 2 ^ 16) :
    ∃ bits, bits.length ≤ 52 + 24 * image.length ∧
      (∀ (out : Bytes) scratch, scratchLen c.width.toNat c.segHeight ≤ scratch →
        (bits.length ≤ 8 * out.length → ∃ w : BitWriter, w.Holds out.length bits ∧
          compress checks c image out scratch = .ok (w.flush.bytesWritten, w.flush.buf)) ∧
        (8 * out.length < bits.length →
          compress checks c image out scratch = .error (.error .outputFull))) ∧
      ∀ (buf : Bytes) (scratch : List Int32) (restored : List UInt16), Stands buf 0 bits →
        scratchLen c.width.toNat c.segHeight ≤ scratch.length → image.length ≤ restored.length →
        (c.bps = 16 → decompress checks buf restored scratch = .error (.error .invalidConfig)) ∧
        (c.bps < 16 → A < 2 ^ 9 → c.width.toNat * c.segHeight < 2 ^ 20 →
          decompress checks buf restored scratch = .ok (c.stored,
            image.length, image ++ restored.drop image.length)) := by
  obtain ⟨bits, hbits, hputs, hdecode⟩ := loop_bits checks h
    (hlen.trans (area_strips h).symm) hA hroom 0 (Nat.lt_succ_self (c.strips - 0)) (Nat.zero_le _)
  rw [Nat.sub_zero, area_strips h, ← hlen] at hbits
  rw [Nat.sub_zero] at hputs hdecode
  have hglobal : (fieldBits (globalFields c)).length = 52 := by simp [fieldBits, globalFields]
  refine ⟨fieldBits (globalFields c) ++ bits, by rw [List.length_append]; omega,
    fun out scratch hscratch => ?_, fun buf scratch restored hstands hscratch hrestored => ?_⟩
  · have hboth := (puts_writeFields out.length (globalFields c)).bind (hputs out.length)
    have hall := hboth _ [] (BitWriter.holds_new out.length) (Nat.zero_le _)
    rw [List.length_nil, Nat.zero_add, List.nil_append] at hall
    have hcompress : compress checks c image out scratch =
        (writeFields (.new (List.replicate out.length 0)) (globalFields c) >>= fun w =>
          compressLoop checks c image (c.strips + 1) 0 0 w) >>= fun w =>
            .ok (w.flush.bytesWritten, w.flush.buf) := by
      rw [compress, hv, ok_bind, if_neg (by omega), if_neg (by omega)]
      cases writeFields (.new (List.replicate out.length 0)) (globalFields c) <;> rfl
    refine ⟨fun hfit => ?_, fun hover => ?_⟩
    · obtain ⟨w, hw, hholds⟩ := hall.1 hfit
      exact ⟨w, hholds, hcompress.trans (congrArg (· >>= _) hw)⟩
    · exact hcompress.trans (congrArg (· >>= _) (hall.2 hover))
  · rw [stands_append] at hstands
    have hheader := readFields_eq (by simp [globalFields]) hstands.1
    have hwidths : (globalFields c).map Prod.snd = [16, 16, 4, 16] := rfl
    have hvalues : (globalFields c).map (fun f => f.1 % 2 ^ f.2) =
        [c.width.toNat, c.height.toNat, c.bps.toNat % 16, c.segmentStrips.toNat] := by
      simp [globalFields, Nat.mod_eq_of_lt c.width.toNat_lt, Nat.mod_eq_of_lt c.height.toNat_lt,
        Nat.mod_eq_of_lt c.segmentStrips.toNat_lt]
    rw [hwidths, hvalues] at hheader
    refine ⟨fun hbps => ?_, fun hbps hsmall hcount => ?_⟩
    · have hzero : UInt8.ofNat (c.bps.toNat % 16) < 2 := by
        rw [hbps]
        decide
      rw [decompress, show BitReader.new buf = behind buf 0 from rfl, hheader, ok_bind]
      show Config.validate ⟨UInt16.ofNat c.width.toNat, UInt16.ofNat c.height.toNat,
        UInt8.ofNat (c.bps.toNat % 16), UInt16.ofNat c.segmentStrips.toNat, false⟩ >>= _ = _
      rw [Config.validate_of_bps hzero]
      rfl
    · have hmod : c.bps.toNat % 16 = c.bps.toNat := Nat.mod_eq_of_lt hbps
      have hstored : (⟨c.width, c.height, UInt8.ofNat (c.bps.toNat % 16), c.segmentStrips, false⟩ :
          Config) = c.stored := by
        simp [Config.stored, hmod]
      have harea : c.area c.segmentStrips.toNat = c.width.toNat * c.segHeight := rfl
      obtain ⟨s, hs, himage⟩ := hdecode hsmall (by rw [harea]; exact hcount) buf _ scratch restored
        hstands.2 (by rw [harea]; unfold scratchLen at hscratch; omega)
      have hall : write restored 0 image = image ++ restored.drop image.length :=
        write_zero hrestored
      rw [decompress, show BitReader.new buf = behind buf 0 from rfl, hheader, ok_bind]
      simp only [List.getD_cons_zero, List.getD_cons_succ, UInt16.ofNat_toNat, hstored]
      rw [show c.stored.validate = .ok () from hv, ok_bind,
        if_neg (show ¬ scratch.length < scratchLen c.width.toNat c.stored.segHeight from
          Nat.not_lt.2 hscratch),
        if_neg (show ¬ restored.length < c.width.toNat * c.height.toNat by omega)]
      show (decompressLoop checks c.stored (c.strips + 1) 0 _ >>= _) = _
      rw [hs, ok_bind, himage, hlen]
      simp only [Config.area, Nat.zero_mul, Nat.mul_zero, List.drop_zero]
      rw [hall, hlen]

end Stream

/-! ## Calls -/

/-- A call of `compress` and one of `decompress` on what it wrote, with memory of the lengths that
they ask for, on an image whose rows and whose segments' columns fit the copies. -/
structure Call (c : Config) (image : List UInt16) (scratch : Nat) (restored : List UInt16)
    (scratch' : List Int32) : Prop where
  valid : c.validate = .ok ()
  wide : c.width.toNat ≤ 2 * MAX_HALF
  high : c.segHeight ≤ MAX_COL
  length : image.length = c.width.toNat * c.height.toNat
  scratch : scratchLen c.width.toNat c.segHeight ≤ scratch
  restored : image.length ≤ restored.length
  scratch' : scratchLen c.width.toNat c.segHeight ≤ scratch'.length

def RoundTrips (checks : Bool) (c : Config) (image : List UInt16) (out : Bytes) (scratch : Nat)
    (restored : List UInt16) (scratch' : List Int32) : Prop :=
  ∃ n buf, compress checks c image out scratch = .ok (n, buf) ∧
    decompress checks (buf.take n) restored scratch' =
      .ok (c.stored, image.length, image ++ restored.drop image.length)

section Calls

variable {checks : Bool} {c : Config} {image restored : List UInt16} {scratch A : Nat}
variable {scratch' : List Int32}

theorem Call.compress_eq (h : Call c image scratch restored scratch') (checks : Bool)
    (hA : ∀ v ∈ image, v.toNat ≤ A) (hroom : A < 2 ^ 16) (out : Bytes) :
    ((compress checks c image out scratch = .error (.error .outputFull) ∧
        out.length < 7 + 3 * image.length) ∨
      ∃ n buf, compress checks c image out scratch = .ok (n, buf) ∧ n ≤ out.length ∧
        n ≤ 7 + 3 * image.length ∧
        (c.bps = 16 → decompress checks (buf.take n) restored scratch' =
          .error (.error .invalidConfig)) ∧
        (c.bps < 16 → A < 2 ^ 9 → c.width.toNat * c.segHeight < 2 ^ 20 →
          decompress checks (buf.take n) restored scratch' =
            .ok (c.stored, image.length, image ++ restored.drop image.length))) := by
  obtain ⟨hshaped, -⟩ := shaped_of_validate h.valid h.wide h.high
  obtain ⟨bits, hbits, hcompress, hdecompress⟩ :=
    image_bits checks h.valid hshaped h.length hA hroom
  have hcall := hcompress out scratch h.scratch
  by_cases hfit : bits.length ≤ 8 * out.length
  · obtain ⟨w, hw, hrun⟩ := hcall.1 hfit
    have hcount := hw.count
    have hpart := hw.bit
    have hn : w.flush.bytesWritten = (bits.length + 7) / 8 := by
      unfold BitWriter.flush BitWriter.bytesWritten
      by_cases hbit : 0 < w.bit
      · rw [if_pos hbit, if_neg (Nat.lt_irrefl 0)]
        show w.pos + 1 = _
        omega
      · rw [if_neg hbit, if_neg hbit]
        omega
    exact Or.inr ⟨_, _, hrun, by omega, by omega,
      hdecompress _ scratch' restored (hw.stands_take hfit) h.scratch' h.restored⟩
  · exact Or.inl ⟨hcall.2 (by omega), by omega⟩

theorem toNat_le (image : List UInt16) : ∀ v ∈ image, v.toNat ≤ 65535 := fun v _ =>
  Nat.le_pred_of_lt v.toNat_lt

/-- Eight rows of eight samples. -/
def block (bps : UInt8) : Config := ⟨8, 8, bps, 1, false⟩

def rough : List UInt16 := (List.range 64).map fun i => UInt16.ofNat (i * i * 7 % 509)

theorem call_block {bps : UInt8} (hbps : (block bps).validate = .ok ()) {image : List UInt16}
    (hlen : image.length = 64) :
    Call (block bps) image 72 (List.replicate 64 0) (List.replicate 72 0) where
  valid := hbps
  wide := by simp [block, MAX_HALF]
  high := by simp [block, Config.segHeight, STRIP_HEIGHT, MAX_COL]
  length := hlen
  scratch := by simp [scratchLen, block, Config.segHeight, STRIP_HEIGHT]
  restored := Nat.le_of_eq hlen
  scratch' := by simp [scratchLen, block, Config.segHeight, STRIP_HEIGHT]

/-- Whatever the samples are, no sum overflows and no copy is too small: a call ends well, or it
reports that the output is full.  Three octets for a sample and seven more are enough. -/
theorem compress_ends (checks : Bool) (h : Call c image scratch restored scratch') (out : Bytes) :
    (compress checks c image out scratch = .error (.error .outputFull) ∧
        out.length < 7 + 3 * image.length) ∨
      ∃ n buf, compress checks c image out scratch = .ok (n, buf) ∧ n ≤ out.length ∧
        n ≤ 7 + 3 * image.length := by
  rcases h.compress_eq checks (toNat_le image) (by decide) out with hfull | hrun
  · exact Or.inl hfull
  · obtain ⟨n, buf, hrun, hn, hn', -⟩ := hrun
    exact Or.inr ⟨n, buf, hrun, hn, hn'⟩

theorem compress_ends_block : ∃ n buf,
    compress true (block 8) (List.replicate 64 65535) (List.replicate 199 0) 72 = .ok (n, buf) ∧
      n ≤ (List.replicate 199 (0 : UInt8)).length ∧
      n ≤ 7 + 3 * (List.replicate 64 (65535 : UInt16)).length :=
  (compress_ends true (call_block rfl List.length_replicate)
    (List.replicate 199 0)).resolve_left fun hfull =>
    absurd hfull.2 (by simp only [List.length_replicate]; decide)

/-- An image of samples below 512 comes back. -/
theorem image_restored (checks : Bool) (h : Call c image scratch restored scratch')
    (hbps : c.bps < 16) (harea : c.width.toNat * c.segHeight < 2 ^ 20)
    (hsmall : ∀ v ∈ image, v < 512) (out : Bytes) :
    (compress checks c image out scratch = .error (.error .outputFull) ∧
        out.length < 7 + 3 * image.length) ∨
      RoundTrips checks c image out scratch restored scratch' := by
  have hA : ∀ v ∈ image, v.toNat ≤ 511 := fun v hv => Nat.le_of_lt_succ (hsmall v hv)
  rcases h.compress_eq checks hA (by decide) out with hfull | hrun
  · exact Or.inl hfull
  · obtain ⟨n, buf, hrun, -, -, -, hback⟩ := hrun
    exact Or.inr ⟨n, buf, hrun, hback hbps (by decide) harea⟩

theorem image_restored_block : RoundTrips true (block 8) rough (List.replicate 199 0) 72
    (List.replicate 64 0) (List.replicate 72 0) :=
  (image_restored true (call_block rfl rfl) (by decide)
    (by simp [block, Config.segHeight, STRIP_HEIGHT]) (List.forall_mem_map.2 (by decide))
    (List.replicate 199 0)).resolve_left
      fun hfull => absurd hfull.2 (by rw [List.length_replicate]; decide)

/-- Sixteen bits for a sample do not fit the four bits of the header: `decompress` takes nothing
that `compress` makes of them. -/
theorem sixteen_bits_rejected (checks : Bool) (h : Call c image scratch restored scratch')
    (hbps : c.bps = 16) (out : Bytes) :
    (compress checks c image out scratch = .error (.error .outputFull) ∧
        out.length < 7 + 3 * image.length) ∨
      ∃ n buf, compress checks c image out scratch = .ok (n, buf) ∧
        decompress checks (buf.take n) restored scratch' = .error (.error .invalidConfig) := by
  rcases h.compress_eq checks (toNat_le image) (by decide) out with hfull | hrun
  · exact Or.inl hfull
  · obtain ⟨n, buf, hrun, -, -, hback, -⟩ := hrun
    exact Or.inr ⟨n, buf, hrun, hback hbps⟩

theorem sixteen_bits_rejected_block : ∃ n buf,
    compress true (block 16) rough (List.replicate 199 0) 72 = .ok (n, buf) ∧
      decompress true (buf.take n) (List.replicate 64 0) (List.replicate 72 0) =
        .error (.error .invalidConfig) :=
  (sixteen_bits_rejected true (call_block rfl rfl) rfl (List.replicate 199 0)).resolve_left
    fun hfull => absurd hfull.2 (by rw [List.length_replicate]; decide)

end Calls

end Ccsds122
end Compression
end Leodos
