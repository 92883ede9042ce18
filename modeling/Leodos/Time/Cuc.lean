/-
The unsegmented time code, `misc/time/cuc.rs`.

A time is a count of whole seconds and a count of parts of a second; the configuration
gives the octets of each.  Times are read as exact rationals.  `fromSeconds` counts the
parts of a second in units of the last octet, while `encode` and `decodeTField` keep the
octets of the part at the high end of its 32-bit word.
-/
import Mathlib.Data.Rat.Floor
import Mathlib.Tactic.FieldSimp
import Mathlib.Tactic.Linarith
import Mathlib.Tactic.Positivity
import Mathlib.Tactic.NormNum
import Mathlib.Tactic.Ring
import Leodos.Bits.Assembly
import Leodos.Bits.Endian
import Leodos.Memory.Cells

namespace Leodos
namespace Time

open Bits Memory

abbrev Bytes := List UInt8

/-- `as u32` cuts towards zero and saturates. -/
def castU32 (x : ℚ) : UInt32 := UInt32.ofNat (min ⌊x⌋₊ (2 ^ 32 - 1))

inductive TimeCodeId where
  | agencyEpoch
  | ccsdsEpoch
  deriving DecidableEq, Repr

def TimeCodeId.code : TimeCodeId → BitVec 8
  | agencyEpoch => 0b001
  | ccsdsEpoch => 0b010

inductive Error where
  | invalidTimeCodeId (bits : BitVec 8)
  | bufferTooShort (required provided : Nat)
  deriving DecidableEq, Repr

/-- The lengths are those that `CucConfig::new` asserts. -/
structure CucConfig where
  timeCodeId : TimeCodeId
  coarseLen : Nat
  fineLen : Nat
  coarseLen_pos : 0 < coarseLen
  coarseLen_le : coarseLen ≤ 4
  fineLen_le : fineLen ≤ 3
  deriving DecidableEq, Repr

namespace CucConfig

def TIME_CODE_ID_MASK : BitVec 8 := 0b01110000
def COARSE_LEN_MASK : BitVec 8 := 0b00001100
def FINE_LEN_MASK : BitVec 8 := 0b00000011

theorem spans_timeCodeId : Spans TIME_CODE_ID_MASK 4 3 := spans_of_eq rfl (by decide) (by decide)
theorem spans_coarseLen : Spans COARSE_LEN_MASK 2 2 := spans_of_eq rfl (by decide) (by decide)
theorem spans_fineLen : Spans FINE_LEN_MASK 0 2 := spans_of_eq rfl (by decide) (by decide)

def pField (config : CucConfig) : BitVec 8 :=
  let pf := setBits 0 TIME_CODE_ID_MASK config.timeCodeId.code
  let pf := setBits pf COARSE_LEN_MASK (BitVec.ofNat 8 (config.coarseLen - 1))
  setBits pf FINE_LEN_MASK (BitVec.ofNat 8 config.fineLen)

/-- The extension flag, bit 7, is not looked at. -/
def fromPField (pf : BitVec 8) : Except Error CucConfig :=
  let idBits := getBits pf TIME_CODE_ID_MASK
  let lengths (timeCodeId : TimeCodeId) : CucConfig :=
    { timeCodeId
      coarseLen := (getBits pf COARSE_LEN_MASK).toNat + 1
      fineLen := (getBits pf FINE_LEN_MASK).toNat
      coarseLen_pos := Nat.succ_pos _
      coarseLen_le := toNat_getBits_lt spans_coarseLen pf
      fineLen_le := Nat.le_of_lt_succ (toNat_getBits_lt spans_fineLen pf) }
  if idBits = 0b001 then .ok (lengths .agencyEpoch)
  else if idBits = 0b010 then .ok (lengths .ccsdsEpoch)
  else .error (.invalidTimeCodeId idBits)

def tFieldLen (config : CucConfig) : Nat := config.coarseLen + config.fineLen

def encodedLen (config : CucConfig) : Nat := 1 + config.tFieldLen

theorem fits_code (timeCodeId : TimeCodeId) : Fits timeCodeId.code 3 := by
  apply fits_of_toNat_lt
  cases timeCodeId <;> decide

theorem fits_ofNat {n : Nat} (h : n < 2 ^ 2) : Fits (BitVec.ofNat 8 n) 2 := by
  apply fits_of_toNat_lt
  rw [BitVec.toNat_ofNat]
  exact Nat.lt_of_le_of_lt (Nat.mod_le ..) h

theorem fromPField_pField (config : CucConfig) : fromPField config.pField = .ok config := by
  have hcoarse := config.coarseLen_le
  have hpos := config.coarseLen_pos
  have hfine := config.fineLen_le
  have fitCoarse := fits_ofNat (n := config.coarseLen - 1) (by omega)
  have fitFine := fits_ofNat (n := config.fineLen) (by omega)
  have hid : getBits config.pField TIME_CODE_ID_MASK = config.timeCodeId.code := by
    rw [pField, getBits_setBits_of_disjoint spans_fineLen spans_timeCodeId (by decide) fitFine,
      getBits_setBits_of_disjoint spans_coarseLen spans_timeCodeId (by decide) fitCoarse,
      getBits_setBits_self spans_timeCodeId (fits_code _)]
  have hlen : (getBits config.pField COARSE_LEN_MASK).toNat + 1 = config.coarseLen := by
    rw [pField, getBits_setBits_of_disjoint spans_fineLen spans_coarseLen (by decide) fitFine,
      getBits_setBits_self spans_coarseLen fitCoarse, BitVec.toNat_ofNat,
      Nat.mod_eq_of_lt (by omega)]
    omega
  have hpart : (getBits config.pField FINE_LEN_MASK).toNat = config.fineLen := by
    rw [pField, getBits_setBits_self spans_fineLen fitFine, BitVec.toNat_ofNat,
      Nat.mod_eq_of_lt (by omega)]
  cases config with
  | mk timeCodeId =>
    cases timeCodeId with
    | agencyEpoch => simp [fromPField, hid, hlen, hpart, TimeCodeId.code]
    | ccsdsEpoch => simp [fromPField, hid, hlen, hpart, TimeCodeId.code]

end CucConfig

structure CucTime where
  config : CucConfig
  coarse : UInt32
  fine : UInt32
  deriving DecidableEq, Repr

namespace CucTime

def fromSeconds (config : CucConfig) (seconds : ℚ) : CucTime :=
  let coarse := castU32 seconds
  let frac := seconds - coarse.toNat
  let fineBits := config.fineLen * 8
  let fine := if 0 < fineBits then castU32 (frac * 2 ^ fineBits) else 0
  ⟨config, coarse, fine⟩

def toSeconds (t : CucTime) : ℚ :=
  let fineBits := t.config.fineLen * 8
  let frac : ℚ := if 0 < fineBits then t.fine.toNat / 2 ^ fineBits else 0
  t.coarse.toNat + frac

/-- The T-field, written from `pos` on.  Of the fine part the high octets are kept. -/
def writeTField (t : CucTime) (buf : Bytes) (pos : Nat) : Bytes × Nat :=
  let coarseLen := t.config.coarseLen
  let coarseBytes := BigEndian.encode 4 t.coarse.toNat
  let buf := write buf pos (coarseBytes.drop (4 - coarseLen))
  let pos := pos + coarseLen
  let fineLen := t.config.fineLen
  if 0 < fineLen then
    let fineBytes := BigEndian.encode 4 t.fine.toNat
    (write buf pos (fineBytes.take fineLen), pos + fineLen)
  else (buf, pos)

def encode (t : CucTime) (buf : Bytes) : Except Error (Bytes × Nat) :=
  let total := t.config.encodedLen
  if buf.length < total then .error (.bufferTooShort total buf.length)
  else .ok (t.writeTField (write buf 0 [UInt8.ofBitVec t.config.pField]) 1)

def decodeTField (config : CucConfig) (buf : Bytes) : Except Error CucTime :=
  let tLen := config.tFieldLen
  if buf.length < tLen then .error (.bufferTooShort tLen buf.length)
  else
    let coarseLen := config.coarseLen
    let coarseBuf := write (List.replicate 4 0) (4 - coarseLen) (slice buf 0 coarseLen)
    let fineLen := config.fineLen
    let fine :=
      if 0 < fineLen then
        BigEndian.decode (write (List.replicate 4 0) 0 (slice buf coarseLen fineLen))
      else 0
    .ok ⟨config, UInt32.ofNat (BigEndian.decode coarseBuf), UInt32.ofNat fine⟩

def decode (buf : Bytes) : Except Error CucTime :=
  match buf with
  | [] => .error (.bufferTooShort 1 0)
  | first :: rest => do
    let config ← CucConfig.fromPField first.toBitVec
    let total := config.encodedLen
    if buf.length < total then .error (.bufferTooShort total buf.length)
    else decodeTField config rest

/-! ## What comes back -/

def tField (t : CucTime) : Bytes :=
  BigEndian.encode t.config.coarseLen t.coarse.toNat ++
    BigEndian.encode t.config.fineLen (t.fine.toNat / 256 ^ (4 - t.config.fineLen))

def stored (t : CucTime) : CucTime :=
  ⟨t.config, UInt32.ofNat (t.coarse.toNat % 256 ^ t.config.coarseLen),
    UInt32.ofNat (t.fine.toNat / 256 ^ (4 - t.config.fineLen) * 256 ^ (4 - t.config.fineLen))⟩

@[simp] theorem length_tField (t : CucTime) : t.tField.length = t.config.tFieldLen := by
  simp [tField, CucConfig.tFieldLen]

theorem slice_writeTField (t : CucTime) {buf : Bytes} {pos : Nat}
    (h : pos + t.config.tFieldLen ≤ buf.length) :
    (t.writeTField buf pos).2 = pos + t.config.tFieldLen ∧
      slice (t.writeTField buf pos).1 0 (pos + t.config.tFieldLen) =
        slice buf 0 pos ++ t.tField := by
  have hcoarse : (BigEndian.encode 4 t.coarse.toNat).drop (4 - t.config.coarseLen) =
      BigEndian.encode t.config.coarseLen t.coarse.toNat :=
    BigEndian.drop_encode t.config.coarseLen_le _
  have hfine : (BigEndian.encode 4 t.fine.toNat).take t.config.fineLen =
      BigEndian.encode t.config.fineLen (t.fine.toNat / 256 ^ (4 - t.config.fineLen)) :=
    BigEndian.take_encode (Nat.le_succ_of_le t.config.fineLen_le) _
  rw [CucConfig.tFieldLen] at h ⊢
  have hfirst : slice (write buf pos (BigEndian.encode t.config.coarseLen t.coarse.toNat)) 0
      (pos + t.config.coarseLen) =
        slice buf 0 pos ++ BigEndian.encode t.config.coarseLen t.coarse.toNat :=
    slice_write_append_of_length (BigEndian.length_encode ..) (by omega)
  rw [writeTField]
  dsimp only
  rw [hcoarse, hfine]
  by_cases hpos : 0 < t.config.fineLen
  · rw [if_pos hpos]
    refine ⟨Nat.add_assoc .., ?_⟩
    rw [← Nat.add_assoc, slice_write_append_of_length (BigEndian.length_encode ..)
      (by rw [write_length]; omega), hfirst, List.append_assoc, tField]
  · have hzero : t.config.fineLen = 0 := Nat.eq_zero_of_not_pos hpos
    rw [if_neg hpos, hzero, Nat.add_zero]
    exact ⟨rfl, by rw [hfirst, tField, hzero, BigEndian.encode, List.append_nil]⟩

theorem decodeTField_tField (t : CucTime) : decodeTField t.config t.tField = .ok t.stored := by
  have hcoarse : slice t.tField 0 t.config.coarseLen =
      BigEndian.encode t.config.coarseLen t.coarse.toNat := by
    have hleft := slice_append_left (BigEndian.encode t.config.coarseLen t.coarse.toNat)
      (BigEndian.encode t.config.fineLen (t.fine.toNat / 256 ^ (4 - t.config.fineLen)))
    rwa [BigEndian.length_encode] at hleft
  have hfine : slice t.tField t.config.coarseLen t.config.fineLen =
      BigEndian.encode t.config.fineLen (t.fine.toNat / 256 ^ (4 - t.config.fineLen)) := by
    have hright := slice_append_right (BigEndian.encode t.config.coarseLen t.coarse.toNat)
      (BigEndian.encode t.config.fineLen (t.fine.toNat / 256 ^ (4 - t.config.fineLen))) 0
      t.config.fineLen
    rw [BigEndian.length_encode, Nat.add_zero] at hright
    rw [tField, hright, slice, List.drop_zero, List.take_of_length_le (by simp)]
  have hcoarseLe := t.config.coarseLen_le
  have hfineLe := t.config.fineLen_le
  have hkept : t.fine.toNat / 256 ^ (4 - t.config.fineLen) < 256 ^ t.config.fineLen := by
    have hlt : t.fine.toNat < 256 ^ 4 := t.fine.toNat_lt_size
    apply Nat.div_lt_of_lt_mul
    rw [← Nat.pow_add, Nat.sub_add_cancel (by omega)]
    exact hlt
  rw [decodeTField]
  dsimp only
  rw [if_neg (by simp), hcoarse, hfine,
    write_replicate (by rw [BigEndian.length_encode]; omega), BigEndian.decode_append,
    BigEndian.decode_zeros, Nat.zero_mul, Nat.zero_add, BigEndian.decode_encode, stored]
  by_cases hpos : 0 < t.config.fineLen
  · rw [if_pos hpos, write_zero (by rw [BigEndian.length_encode, List.length_replicate]; omega),
      BigEndian.length_encode, List.drop_replicate, BigEndian.decode_append, BigEndian.decode_zeros,
      List.length_replicate, BigEndian.decode_encode_of_lt hkept, Nat.add_zero]
  · have hzero : t.config.fineLen = 0 := Nat.eq_zero_of_not_pos hpos
    rw [hzero, Nat.pow_zero] at hkept
    rw [if_neg hpos, hzero, Nat.lt_one_iff.1 hkept, Nat.zero_mul]

theorem decode_encode (t : CucTime) {buf : Bytes} (h : t.config.encodedLen ≤ buf.length) :
    ∃ bytes, t.encode buf = .ok (bytes, t.config.encodedLen) ∧
      decode (bytes.take t.config.encodedLen) = .ok t.stored := by
  rw [CucConfig.encodedLen] at h
  have hroom : 1 + t.config.tFieldLen ≤
      (write buf 0 [UInt8.ofBitVec t.config.pField]).length := by rwa [write_length]
  obtain ⟨hlen, hslice⟩ := t.slice_writeTField hroom
  have hfirst : slice (write buf 0 [UInt8.ofBitVec t.config.pField]) 0
      [UInt8.ofBitVec t.config.pField].length = [UInt8.ofBitVec t.config.pField] :=
    slice_write_self (by simp; omega)
  rw [List.length_singleton] at hfirst
  refine ⟨(t.writeTField (write buf 0 [UInt8.ofBitVec t.config.pField]) 1).1, ?_, ?_⟩
  · rw [encode, if_neg (by rw [CucConfig.encodedLen]; omega), CucConfig.encodedLen, ← hlen]
  · rw [hfirst] at hslice
    rw [CucConfig.encodedLen]
    show decode (slice _ 0 (1 + t.config.tFieldLen)) = _
    rw [hslice, List.singleton_append, decode]
    show (CucConfig.fromPField t.config.pField >>= _) = _
    rw [CucConfig.fromPField_pField]
    show (if (_ : Bytes).length < 1 + t.config.tFieldLen then _
      else decodeTField t.config t.tField) = _
    rw [if_neg (by simp; omega), decodeTField_tField]

/-! ## Instants -/

/-- The time is a whole number of the parts that the configuration counts, and its seconds
fit the coarse octets. -/
def Representable (config : CucConfig) (seconds : ℚ) : Prop :=
  ∃ c f : Nat, c < 256 ^ config.coarseLen ∧ f < 256 ^ config.fineLen ∧
    seconds = c + f / 256 ^ config.fineLen

/-- Encoded and decoded, the time of `seconds` denotes the same instant. -/
def KeepsInstant (config : CucConfig) (seconds : ℚ) : Prop :=
  ∀ buf : Bytes, config.encodedLen ≤ buf.length →
    ∃ bytes n t, (fromSeconds config seconds).encode buf = .ok (bytes, n) ∧
      decode (bytes.take n) = .ok t ∧ t.toSeconds = seconds

def Whole (x : ℚ) : Prop := ∃ n : Nat, x = n

theorem whole_add_div_iff {m : Nat} (hm : 0 < m) (n f : Nat) :
    Whole (n + f / m) ↔ m ∣ f := by
  have hne : (m : ℚ) ≠ 0 := by
    rw [Nat.cast_ne_zero]
    omega
  constructor
  · intro hwhole
    obtain ⟨k, hk⟩ := hwhole
    have hmul : ((n * m + f : Nat) : ℚ) = ((k * m : Nat) : ℚ) := by
      push_cast
      rw [← hk]
      field_simp
    have hnat : n * m + f = k * m := by exact_mod_cast hmul
    have hdvd : m ∣ n * m + f := by
      rw [hnat]
      exact Nat.dvd_mul_left ..
    exact (Nat.dvd_add_right (Nat.dvd_mul_left ..)).1 hdvd
  · intro hdvd
    obtain ⟨k, hk⟩ := hdvd
    refine ⟨n + k, ?_⟩
    rw [hk]
    push_cast
    field_simp

theorem castU32_add_div {c f m : Nat} (hf : f < m) (hc : c < 2 ^ 32) :
    (castU32 (c + f / m)).toNat = c := by
  have hfloor : ⌊(c + f / m : ℚ)⌋₊ = c := by
    have hpart : (f / m : ℚ) < 1 := by
      rw [div_lt_one (by exact_mod_cast Nat.zero_lt_of_lt hf)]
      exact_mod_cast hf
    have hnonneg : (0 : ℚ) ≤ f / m := by positivity
    rw [Nat.floor_eq_iff (by positivity)]
    constructor
    · linarith
    · linarith
  rw [castU32, hfloor, UInt32.toNat_ofNat', Nat.min_eq_left (by omega), Nat.mod_eq_of_lt hc]

theorem fromSeconds_eq {config : CucConfig} {c f : Nat} (hc : c < 256 ^ config.coarseLen)
    (hf : f < 256 ^ config.fineLen) :
    fromSeconds config (c + f / 256 ^ config.fineLen) =
      ⟨config, UInt32.ofNat c, UInt32.ofNat f⟩ := by
  have hpow : ∀ {n}, n ≤ 4 → 256 ^ n ≤ 2 ^ 32 := fun hn =>
    Nat.pow_le_pow_right (n := 256) (by decide) hn
  have hcoarse := hpow config.coarseLen_le
  have hfine := hpow (Nat.le_succ_of_le config.fineLen_le)
  have hcast : castU32 (c + f / 256 ^ config.fineLen) = UInt32.ofNat c := by
    apply UInt32.toNat_inj.1
    have hvalue := castU32_add_div hf (c := c) (by omega)
    push_cast at hvalue
    rw [hvalue, UInt32.toNat_ofNat', Nat.mod_eq_of_lt (by omega)]
  have hsame : (UInt32.ofNat c).toNat = c := by
    rw [UInt32.toNat_ofNat', Nat.mod_eq_of_lt (by omega)]
  rw [fromSeconds, hcast, hsame, add_sub_cancel_left]
  congr 1
  by_cases hpos : 0 < config.fineLen * 8
  · have hunits : (f / 256 ^ config.fineLen * 2 ^ (config.fineLen * 8) : ℚ) =
        f + (0 : Nat) / (1 : Nat) := by
      rw [Nat.mul_comm, pow_mul]
      norm_num
    apply UInt32.toNat_inj.1
    rw [if_pos hpos, hunits, castU32_add_div (by decide) (by omega), UInt32.toNat_ofNat',
      Nat.mod_eq_of_lt (by omega)]
  · have hzero : config.fineLen = 0 := by omega
    rw [hzero, Nat.pow_zero] at hf
    rw [if_neg hpos, Nat.lt_one_iff.1 hf]
    rfl

theorem toSeconds_stored {config : CucConfig} {c f : Nat} (hc : c < 256 ^ config.coarseLen)
    (hf : f < 256 ^ config.fineLen) :
    (CucTime.mk config (UInt32.ofNat c) (UInt32.ofNat f)).stored.toSeconds =
      c + (f / 256 ^ (4 - config.fineLen) * 256 ^ (4 - config.fineLen) : Nat) /
        256 ^ config.fineLen := by
  have hcoarse : 256 ^ config.coarseLen ≤ 2 ^ 32 :=
    Nat.pow_le_pow_right (n := 256) (by decide) config.coarseLen_le
  have hfine : 256 ^ config.fineLen ≤ 2 ^ 32 :=
    Nat.pow_le_pow_right (n := 256) (by decide) (Nat.le_succ_of_le config.fineLen_le)
  have hcut := Nat.div_mul_le_self f (256 ^ (4 - config.fineLen))
  rw [stored, toSeconds]
  dsimp only
  rw [UInt32.toNat_ofNat' (n := c), UInt32.toNat_ofNat' (n := f),
    Nat.mod_eq_of_lt (a := c) (by omega), Nat.mod_eq_of_lt (a := c) hc,
    Nat.mod_eq_of_lt (a := f) (by omega), UInt32.toNat_ofNat', UInt32.toNat_ofNat',
    Nat.mod_eq_of_lt (a := c) (by omega), Nat.mod_eq_of_lt (by omega)]
  by_cases hpos : 0 < config.fineLen * 8
  · rw [if_pos hpos, Nat.mul_comm config.fineLen, pow_mul]
    norm_num
  · have hzero : config.fineLen = 0 := by omega
    rw [hzero, Nat.pow_zero] at hf
    rw [if_neg hpos, Nat.lt_one_iff.1 hf]
    simp

theorem keepsInstant_iff_dvd {config : CucConfig} {c f : Nat} (hc : c < 256 ^ config.coarseLen)
    (hf : f < 256 ^ config.fineLen) :
    KeepsInstant config (c + f / 256 ^ config.fineLen) ↔ 256 ^ (4 - config.fineLen) ∣ f := by
  have hkeeps : KeepsInstant config (c + f / 256 ^ config.fineLen) ↔
      (f / 256 ^ (4 - config.fineLen) * 256 ^ (4 - config.fineLen) : Nat) = f := by
    have hne : (256 ^ config.fineLen : ℚ) ≠ 0 := by positivity
    have hvalue := toSeconds_stored hc hf
    rw [KeepsInstant, fromSeconds_eq hc hf]
    constructor
    · intro hall
      obtain ⟨bytes, n, t, henc, hdec, hsame⟩ :=
        hall (List.replicate config.encodedLen 0) (by rw [List.length_replicate])
      obtain ⟨bytes', henc', hdec'⟩ :=
        decode_encode (CucTime.mk config (UInt32.ofNat c) (UInt32.ofNat f))
          (List.length_replicate (a := (0 : UInt8))).ge
      rw [henc'] at henc
      cases henc
      rw [hdec'] at hdec
      cases hdec
      rw [hvalue, add_right_inj, div_left_inj' hne] at hsame
      exact_mod_cast hsame
    · intro hcut buf hbuf
      obtain ⟨bytes, henc, hdec⟩ :=
        decode_encode (CucTime.mk config (UInt32.ofNat c) (UInt32.ofNat f)) hbuf
      exact ⟨bytes, _, _, henc, hdec, by rw [hvalue, hcut]⟩
  rw [hkeeps]
  constructor
  · intro hcut
    rw [← hcut]
    exact Nat.dvd_mul_left ..
  · exact Nat.div_mul_cancel

theorem keepsInstant_iff {config : CucConfig} {seconds : ℚ} (h : Representable config seconds) :
    KeepsInstant config seconds ↔
      Whole seconds ∨ (config.fineLen = 3 ∧ Whole (seconds * 65536)) := by
  obtain ⟨c, f, hc, hf, hseconds⟩ := h
  have hle := config.fineLen_le
  have hwhole : Whole seconds ↔ 256 ^ config.fineLen ∣ f := by
    have hiff := whole_add_div_iff (m := 256 ^ config.fineLen) (Nat.pow_pos (by decide)) c f
    push_cast at hiff
    rw [hseconds, hiff]
  have hzero : 256 ^ config.fineLen ∣ f ↔ f = 0 := by
    constructor
    · intro hdvd
      exact Nat.eq_zero_of_dvd_of_lt hdvd hf
    · intro hf
      rw [hf]
      exact Nat.dvd_zero _
  rw [hwhole, hzero, hseconds, keepsInstant_iff_dvd hc hf]
  by_cases hthree : config.fineLen = 3
  · have hscaled : Whole (seconds * 65536) ↔ 256 ∣ f := by
      have hiff := whole_add_div_iff (m := 256) (by decide) (c * 65536) f
      have hvalue : seconds * 65536 = ((c * 65536 : Nat) : ℚ) + f / (256 : Nat) := by
        rw [hseconds, hthree]
        push_cast
        ring
      rw [hvalue, hiff]
    rw [← hseconds, hscaled, hthree]
    constructor
    · intro hdvd
      exact Or.inr ⟨rfl, hdvd⟩
    · intro hor
      rcases hor with hf | hf
      · rw [hf]
        exact Nat.dvd_zero _
      · exact hf.2
  · -- With two fine octets or fewer no part of a second reaches the octets that are kept.
    have hlt : f < 256 ^ (4 - config.fineLen) :=
      Nat.lt_of_lt_of_le hf (Nat.pow_le_pow_right (by decide) (by omega))
    constructor
    · intro hdvd
      exact Or.inl (Nat.eq_zero_of_dvd_of_lt hdvd hlt)
    · intro hor
      rcases hor with hf | hf
      · rw [hf]
        exact Nat.dvd_zero _
      · exact absurd hf.1 hthree

end CucTime

end Time
end Leodos
