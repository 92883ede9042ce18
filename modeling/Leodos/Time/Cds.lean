/-
The day segmented time code, `misc/time/cds.rs`.

A time is a day, a millisecond of the day and a part of a millisecond.  Each is written with
the octets that the configuration gives it, and what does not fit them is cut off; no value is
refused.
-/
import Leodos.Time.Cuc

namespace Leodos
namespace Time

open Bits Memory

def MS_PER_DAY : Nat := 86400000

inductive SubMillis where
  | none
  | microseconds
  | picoseconds
  deriving DecidableEq, Repr

namespace SubMillis

def fieldLen : SubMillis → Nat
  | none => 0
  | microseconds => 2
  | picoseconds => 4

def code : SubMillis → BitVec 8
  | none => 0b00
  | microseconds => 0b01
  | picoseconds => 0b10

end SubMillis

inductive EpochId where
  | ccsds
  | agency
  deriving DecidableEq, Repr

/-- No function of the code makes `msOutOfRange`. -/
inductive CdsError where
  | notCds (id : BitVec 8)
  | invalidSubMillisCode (code : BitVec 8)
  | bufferTooShort (required provided : Nat)
  | msOutOfRange (ms : UInt32)
  deriving DecidableEq, Repr

def SubMillis.fromCode (code : BitVec 8) : Except CdsError SubMillis :=
  if code = 0b00 then .ok .none
  else if code = 0b01 then .ok .microseconds
  else if code = 0b10 then .ok .picoseconds
  else .error (.invalidSubMillisCode code)

structure CdsConfig where
  epoch : EpochId
  day24bit : Bool
  subMillis : SubMillis
  deriving DecidableEq, Repr

namespace CdsConfig

def TIME_CODE_ID : BitVec 8 := 0b100

def TIME_CODE_ID_MASK : BitVec 8 := 0b01110000
def EPOCH_ID_MASK : BitVec 8 := 0b00001000
def DAY_SEG_MASK : BitVec 8 := 0b00000100
def SUB_MILLIS_MASK : BitVec 8 := 0b00000011

def dayLen (config : CdsConfig) : Nat := if config.day24bit then 3 else 2

def tFieldLen (config : CdsConfig) : Nat := config.dayLen + 4 + config.subMillis.fieldLen

def encodedLen (config : CdsConfig) : Nat := 1 + config.tFieldLen

def pField (config : CdsConfig) : BitVec 8 :=
  let epochBit : BitVec 8 :=
    match config.epoch with
    | .ccsds => 0
    | .agency => 1
  let dayBit : BitVec 8 := if config.day24bit then 1 else 0
  let pf := setBits 0 TIME_CODE_ID_MASK TIME_CODE_ID
  let pf := setBits pf EPOCH_ID_MASK epochBit
  let pf := setBits pf DAY_SEG_MASK dayBit
  setBits pf SUB_MILLIS_MASK config.subMillis.code

/-- The extension flag, bit 7, is not looked at. -/
def fromPField (pf : BitVec 8) : Except CdsError CdsConfig := do
  let id := getBits pf TIME_CODE_ID_MASK
  if id ≠ TIME_CODE_ID then .error (.notCds id)
  else
    let epochBit := getBits pf EPOCH_ID_MASK
    let dayBit := getBits pf DAY_SEG_MASK
    let subCode := getBits pf SUB_MILLIS_MASK
    let epoch := if epochBit = 0 then EpochId.ccsds else .agency
    let subMillis ← SubMillis.fromCode subCode
    return ⟨epoch, dayBit == 1, subMillis⟩

theorem fromPField_pField (config : CdsConfig) : fromPField config.pField = .ok config := by
  cases config with
  | mk epoch day24bit subMillis =>
    cases epoch <;> cases day24bit <;> cases subMillis <;> rfl

end CdsConfig

structure CdsTime where
  config : CdsConfig
  day : UInt32
  msOfDay : UInt32
  subMs : UInt32
  deriving DecidableEq, Repr

namespace CdsTime

def writeTField (t : CdsTime) (buf : Bytes) (pos : Nat) : Bytes :=
  let dayBytes := BigEndian.encode 4 t.day.toNat
  let buf := write buf pos (dayBytes.drop (4 - t.config.dayLen))
  let pos := pos + t.config.dayLen
  let buf := write buf pos (BigEndian.encode 4 t.msOfDay.toNat)
  let pos := pos + 4
  match t.config.subMillis with
  | .none => buf
  | .microseconds => write buf pos (BigEndian.encode 2 t.subMs.toUInt16.toNat)
  | .picoseconds => write buf pos (BigEndian.encode 4 t.subMs.toNat)

def encode (t : CdsTime) (buf : Bytes) : Except CdsError (Bytes × Nat) :=
  let total := t.config.encodedLen
  if buf.length < total then .error (.bufferTooShort total buf.length)
  else .ok (t.writeTField (write buf 0 [UInt8.ofBitVec t.config.pField]) 1, total)

def decodeTField (config : CdsConfig) (buf : Bytes) : Except CdsError CdsTime :=
  let tLen := config.tFieldLen
  if buf.length < tLen then .error (.bufferTooShort tLen buf.length)
  else
    let dayBuf := write (List.replicate 4 0) (4 - config.dayLen) (slice buf 0 config.dayLen)
    let pos := config.dayLen
    let msOfDay := BigEndian.decode (slice buf pos 4)
    let pos := pos + 4
    let subMs :=
      match config.subMillis with
      | .none => 0
      | .microseconds => BigEndian.decode (slice buf pos 2)
      | .picoseconds => BigEndian.decode (slice buf pos 4)
    .ok ⟨config, UInt32.ofNat (BigEndian.decode dayBuf), UInt32.ofNat msOfDay, UInt32.ofNat subMs⟩

def decode (buf : Bytes) : Except CdsError CdsTime :=
  match buf with
  | [] => .error (.bufferTooShort 1 0)
  | first :: rest => do
    let config ← CdsConfig.fromPField first.toBitVec
    let total := config.encodedLen
    if buf.length < total then .error (.bufferTooShort total buf.length)
    else decodeTField config rest

/-! ## What comes back -/

def tField (t : CdsTime) : Bytes :=
  BigEndian.encode t.config.dayLen t.day.toNat ++ BigEndian.encode 4 t.msOfDay.toNat ++
    BigEndian.encode t.config.subMillis.fieldLen t.subMs.toNat

def stored (t : CdsTime) : CdsTime :=
  ⟨t.config, UInt32.ofNat (t.day.toNat % 256 ^ t.config.dayLen), t.msOfDay,
    UInt32.ofNat (t.subMs.toNat % 256 ^ t.config.subMillis.fieldLen)⟩

theorem dayLen_le (config : CdsConfig) : config.dayLen ≤ 4 := by
  unfold CdsConfig.dayLen
  split <;> omega

@[simp] theorem length_tField (t : CdsTime) : t.tField.length = t.config.tFieldLen := by
  simp [tField, CdsConfig.tFieldLen, Nat.add_assoc]

theorem writeTField_eq (t : CdsTime) (buf : Bytes) (pos : Nat) :
    t.writeTField buf pos =
      write
        (write (write buf pos (BigEndian.encode t.config.dayLen t.day.toNat))
          (pos + t.config.dayLen) (BigEndian.encode 4 t.msOfDay.toNat))
        (pos + t.config.dayLen + 4)
        (BigEndian.encode t.config.subMillis.fieldLen t.subMs.toNat) := by
  have hday : (BigEndian.encode 4 t.day.toNat).drop (4 - t.config.dayLen) =
      BigEndian.encode t.config.dayLen t.day.toNat :=
    BigEndian.drop_encode (dayLen_le t.config) _
  have hmicros : BigEndian.encode 2 t.subMs.toUInt16.toNat = BigEndian.encode 2 t.subMs.toNat := by
    rw [BigEndian.encode_inj, UInt32.toNat_toUInt16]
    exact Nat.mod_mod _ _
  rw [writeTField, hday, hmicros]
  cases t.config.subMillis with
  | none => exact (write_nil _ _).symm
  | microseconds => rfl
  | picoseconds => rfl

theorem slice_writeTField (t : CdsTime) {buf : Bytes} {pos : Nat}
    (h : pos + t.config.tFieldLen ≤ buf.length) :
    slice (t.writeTField buf pos) 0 (pos + t.config.tFieldLen) = slice buf 0 pos ++ t.tField := by
  rw [CdsConfig.tFieldLen, ← Nat.add_assoc, ← Nat.add_assoc] at h
  rw [writeTField_eq, CdsConfig.tFieldLen, ← Nat.add_assoc, ← Nat.add_assoc,
    slice_write_append_of_length (BigEndian.length_encode ..) (by simp only [write_length]; omega),
    slice_write_append_of_length (BigEndian.length_encode ..) (by simp only [write_length]; omega),
    slice_write_append_of_length (BigEndian.length_encode ..) (by omega), tField, List.append_assoc,
    List.append_assoc, List.append_assoc]

theorem decodeTField_tField (t : CdsTime) : decodeTField t.config t.tField = .ok t.stored := by
  have hday : slice t.tField 0 t.config.dayLen = BigEndian.encode t.config.dayLen t.day.toNat := by
    have hleft := slice_append_left (BigEndian.encode t.config.dayLen t.day.toNat)
      (BigEndian.encode 4 t.msOfDay.toNat ++
        BigEndian.encode t.config.subMillis.fieldLen t.subMs.toNat)
    rwa [BigEndian.length_encode, ← List.append_assoc] at hleft
  have hms : slice t.tField t.config.dayLen 4 = BigEndian.encode 4 t.msOfDay.toNat := by
    have hright := slice_append_right (BigEndian.encode t.config.dayLen t.day.toNat)
      (BigEndian.encode 4 t.msOfDay.toNat ++
        BigEndian.encode t.config.subMillis.fieldLen t.subMs.toNat) 0 4
    have hleft := slice_append_left (BigEndian.encode 4 t.msOfDay.toNat)
      (BigEndian.encode t.config.subMillis.fieldLen t.subMs.toNat)
    rw [BigEndian.length_encode] at hright hleft
    rw [tField, List.append_assoc]
    exact hright.trans hleft
  have hsub : slice t.tField (t.config.dayLen + 4) t.config.subMillis.fieldLen =
      BigEndian.encode t.config.subMillis.fieldLen t.subMs.toNat := by
    have hright := slice_append_right
      (BigEndian.encode t.config.dayLen t.day.toNat ++ BigEndian.encode 4 t.msOfDay.toNat)
      (BigEndian.encode t.config.subMillis.fieldLen t.subMs.toNat) 0 t.config.subMillis.fieldLen
    rw [List.length_append, BigEndian.length_encode, BigEndian.length_encode] at hright
    rw [tField]
    refine hright.trans ?_
    rw [slice, List.drop_zero, List.take_of_length_le (by simp)]
  have hdayLen := dayLen_le t.config
  rw [decodeTField]
  dsimp only
  rw [if_neg (by simp), hday, hms, write_replicate (by rw [BigEndian.length_encode]; omega),
    BigEndian.decode_append, BigEndian.decode_zeros, Nat.zero_mul, Nat.zero_add,
    BigEndian.decode_encode, BigEndian.decode_encode_of_lt t.msOfDay.toNat_lt_size, stored,
    UInt32.ofNat_toNat]
  have hpart : (match t.config.subMillis with
      | .none => 0
      | .microseconds => BigEndian.decode (slice t.tField (t.config.dayLen + 4) 2)
      | .picoseconds => BigEndian.decode (slice t.tField (t.config.dayLen + 4) 4)) =
        t.subMs.toNat % 256 ^ t.config.subMillis.fieldLen := by
    rw [← BigEndian.decode_encode, ← hsub]
    cases t.config.subMillis with
    | none => rfl
    | microseconds => rfl
    | picoseconds => rfl
  rw [hpart]

theorem decode_encode (t : CdsTime) {buf : Bytes} (h : t.config.encodedLen ≤ buf.length) :
    ∃ bytes, t.encode buf = .ok (bytes, t.config.encodedLen) ∧
      decode (bytes.take t.config.encodedLen) = .ok t.stored := by
  rw [CdsConfig.encodedLen] at h
  have hroom : 1 + t.config.tFieldLen ≤
      (write buf 0 [UInt8.ofBitVec t.config.pField]).length := by rwa [write_length]
  have hslice := t.slice_writeTField hroom
  have hfirst : slice (write buf 0 [UInt8.ofBitVec t.config.pField]) 0
      [UInt8.ofBitVec t.config.pField].length = [UInt8.ofBitVec t.config.pField] :=
    slice_write_self (by simp; omega)
  rw [List.length_singleton] at hfirst
  refine ⟨t.writeTField (write buf 0 [UInt8.ofBitVec t.config.pField]) 1, ?_, ?_⟩
  · rw [encode, if_neg (by rw [CdsConfig.encodedLen]; omega)]
  · rw [hfirst] at hslice
    rw [CdsConfig.encodedLen]
    show decode (slice (t.writeTField (write buf 0 [UInt8.ofBitVec t.config.pField]) 1) 0
      (1 + t.config.tFieldLen)) = _
    rw [hslice, List.singleton_append, decode]
    show (CdsConfig.fromPField t.config.pField >>= _) = _
    rw [CdsConfig.fromPField_pField]
    show (if (_ : Bytes).length < 1 + t.config.tFieldLen then _
      else decodeTField t.config t.tField) = _
    rw [if_neg (by simp; omega), decodeTField_tField]

/-- The time is refused, or comes back as it was and lies within its day. -/
def KeptOrRefused (t : CdsTime) (buf : Bytes) : Prop :=
  (∃ e, t.encode buf = .error e) ∨
    (t.msOfDay.toNat < MS_PER_DAY ∧
      ∃ bytes n, t.encode buf = .ok (bytes, n) ∧ decode (bytes.take n) = .ok t)

theorem stored_eq_iff (t : CdsTime) :
    t.stored = t ↔ t.day.toNat < 256 ^ t.config.dayLen ∧
      t.subMs.toNat < 256 ^ t.config.subMillis.fieldLen := by
  have hword : ∀ (x : UInt32) (m : Nat), 0 < m →
      (UInt32.ofNat (x.toNat % m) = x ↔ x.toNat < m) := by
    intro x m hm
    have hlt : x.toNat % m < 2 ^ 32 := Nat.lt_of_le_of_lt (Nat.mod_le ..) x.toNat_lt_size
    rw [← UInt32.toNat_inj, UInt32.toNat_ofNat', Nat.mod_eq_of_lt hlt]
    constructor
    · intro he
      rw [← he]
      exact Nat.mod_lt _ hm
    · exact Nat.mod_eq_of_lt
  rw [← hword t.day _ (Nat.pow_pos (by decide)), ← hword t.subMs _ (Nat.pow_pos (by decide))]
  cases t with
  | mk config day msOfDay subMs => simp [stored]

theorem keptOrRefused_iff (t : CdsTime) (buf : Bytes) :
    t.KeptOrRefused buf ↔ buf.length < t.config.encodedLen ∨
      (t.msOfDay.toNat < MS_PER_DAY ∧ t.day.toNat < 256 ^ t.config.dayLen ∧
        t.subMs.toNat < 256 ^ t.config.subMillis.fieldLen) := by
  rw [← stored_eq_iff, KeptOrRefused]
  by_cases hshort : buf.length < t.config.encodedLen
  · exact iff_of_true (Or.inl ⟨_, if_pos hshort⟩) (Or.inl hshort)
  · obtain ⟨bytes, henc, hdec⟩ := t.decode_encode (Nat.le_of_not_lt hshort)
    constructor
    · intro hor
      rcases hor with herror | hkept
      · obtain ⟨e, he⟩ := herror
        rw [henc] at he
        cases he
      · obtain ⟨hms, bytes', n, henc', hdec'⟩ := hkept
        rw [henc] at henc'
        cases henc'
        rw [hdec] at hdec'
        exact Or.inr ⟨hms, Except.ok.inj hdec'⟩
    · intro hor
      rcases hor with hlt | hkept
      · exact absurd hlt hshort
      · exact Or.inr ⟨hkept.1, bytes, _, henc, by rw [hdec, hkept.2]⟩

end CdsTime

/-! ## Both codes -/

/-- The extension flag, which announces a second P-field octet. -/
def announcesExtension (pf : BitVec 8) : Bool := pf.getLsbD 7

theorem CucConfig.fromPField_ok_iff (pf : BitVec 8) :
    (∃ config, CucConfig.fromPField pf = .ok config) ↔
      getBits pf CucConfig.TIME_CODE_ID_MASK = 0b001 ∨
        getBits pf CucConfig.TIME_CODE_ID_MASK = 0b010 := by
  rw [CucConfig.fromPField]
  by_cases hone : getBits pf CucConfig.TIME_CODE_ID_MASK = 0b001
  · exact iff_of_true ⟨_, if_pos hone⟩ (Or.inl hone)
  · by_cases htwo : getBits pf CucConfig.TIME_CODE_ID_MASK = 0b010
    · exact iff_of_true ⟨_, (if_neg hone).trans (if_pos htwo)⟩ (Or.inr htwo)
    · refine iff_of_false ?_ (not_or.2 ⟨hone, htwo⟩)
      intro hok
      obtain ⟨config, h⟩ := hok
      dsimp only at h
      rw [if_neg hone, if_neg htwo] at h
      cases h

theorem CdsConfig.fromPField_ok_iff (pf : BitVec 8) :
    (∃ config, CdsConfig.fromPField pf = .ok config) ↔
      getBits pf CdsConfig.TIME_CODE_ID_MASK = 0b100 ∧
        getBits pf CdsConfig.SUB_MILLIS_MASK ≠ 0b11 := by
  have hcode : ∀ code : BitVec 8, code.toNat < 2 ^ 2 →
      ((∃ s, SubMillis.fromCode code = .ok s) ↔ code ≠ 0b11) := by
    intro code hlt
    have hcases : code = 0b00 ∨ code = 0b01 ∨ code = 0b10 ∨ code = 0b11 := by
      simp only [← BitVec.toNat_inj]
      show code.toNat = 0 ∨ code.toNat = 1 ∨ code.toNat = 2 ∨ code.toNat = 3
      omega
    rcases hcases with h | h | h | h
    · simp [h, SubMillis.fromCode]
    · simp [h, SubMillis.fromCode]
    · simp [h, SubMillis.fromCode]
    · simp [h, SubMillis.fromCode]
  have hspans : Spans CdsConfig.SUB_MILLIS_MASK 0 2 := spans_of_eq rfl (by decide) (by decide)
  rw [← hcode _ (toNat_getBits_lt hspans pf), CdsConfig.fromPField]
  by_cases hid : getBits pf CdsConfig.TIME_CODE_ID_MASK = CdsConfig.TIME_CODE_ID
  · rw [if_neg (not_not_intro hid)]
    cases hsub : SubMillis.fromCode (getBits pf CdsConfig.SUB_MILLIS_MASK) with
    | error e =>
      refine iff_of_false ?_ (by simp)
      intro hok
      obtain ⟨config, h⟩ := hok
      dsimp only at h
      rw [hsub] at h
      cases h
    | ok s =>
      refine iff_of_true ⟨⟨if getBits pf CdsConfig.EPOCH_ID_MASK = 0 then .ccsds else .agency,
        getBits pf CdsConfig.DAY_SEG_MASK == 1, s⟩, ?_⟩ ⟨hid, s, rfl⟩
      dsimp only
      rw [hsub]
      rfl
  · rw [if_pos hid]
    exact iff_of_false (by simp) (fun h => hid h.1)

/-- Times and P-fields that the two codes treat as they should. -/
theorem time_codes_iff (config : CucConfig) {seconds : ℚ}
    (h : CucTime.Representable config seconds) (t : CdsTime) (buf : Bytes) (pf : BitVec 8) :
    (CucTime.KeepsInstant config seconds ↔
      CucTime.Whole seconds ∨ (config.fineLen = 3 ∧ CucTime.Whole (seconds * 65536))) ∧
    (t.KeptOrRefused buf ↔ buf.length < t.config.encodedLen ∨
      (t.msOfDay.toNat < MS_PER_DAY ∧ t.day.toNat < 256 ^ t.config.dayLen ∧
        t.subMs.toNat < 256 ^ t.config.subMillis.fieldLen)) ∧
    (((∃ config, CucConfig.fromPField pf = .ok config) → announcesExtension pf = false) ↔
      announcesExtension pf = false ∨
        ¬ (getBits pf CucConfig.TIME_CODE_ID_MASK = 0b001 ∨
          getBits pf CucConfig.TIME_CODE_ID_MASK = 0b010)) ∧
    (((∃ config, CdsConfig.fromPField pf = .ok config) → announcesExtension pf = false) ↔
      announcesExtension pf = false ∨
        ¬ (getBits pf CdsConfig.TIME_CODE_ID_MASK = 0b100 ∧
          getBits pf CdsConfig.SUB_MILLIS_MASK ≠ 0b11)) := by
  refine ⟨CucTime.keepsInstant_iff h, t.keptOrRefused_iff buf, ?_, ?_⟩
  · rw [CucConfig.fromPField_ok_iff, imp_iff_not_or, or_comm]
  · rw [CdsConfig.fromPField_ok_iff, imp_iff_not_or, or_comm]

/-- Four octets of seconds and two of their parts. -/
def CucConfig.CCSDS_4_2 : CucConfig :=
  ⟨.ccsdsEpoch, 4, 2, by decide, by decide, by decide⟩

theorem representable_half : CucTime.Representable .CCSDS_4_2 (201 / 2) :=
  ⟨100, 32768, by decide, by decide, by norm_num [CucConfig.CCSDS_4_2]⟩

/-- Three octets keep the half second, a time of day at noon comes back whole, and of the two codes
only the unsegmented one takes the P-field with a second octet. -/
theorem time_codes_iff_half :
    CucTime.KeepsInstant ⟨.agencyEpoch, 4, 3, by decide, by decide, by decide⟩ (201 / 2) ∧
      CdsTime.KeptOrRefused ⟨⟨.agency, true, .picoseconds⟩, 70000, 43200000, 123456789⟩
        (List.replicate 12 0) ∧
      ¬ ((∃ config, CucConfig.fromPField 0xAE = .ok config) → announcesExtension 0xAE = false) ∧
      ((∃ config, CdsConfig.fromPField 0xAE = .ok config) →
        announcesExtension 0xAE = false) := by
  have hfits : CucTime.Representable ⟨.agencyEpoch, 4, 3, by decide, by decide, by decide⟩
      (201 / 2) := ⟨100, 8388608, by decide, by decide, by norm_num⟩
  obtain ⟨hcuc, hcds, hcucField, hcdsField⟩ := time_codes_iff _ hfits
    ⟨⟨.agency, true, .picoseconds⟩, 70000, 43200000, 123456789⟩ (List.replicate 12 0) 0xAE
  refine ⟨hcuc.2 (Or.inr ⟨rfl, 6586368, by norm_num⟩), hcds.2 (Or.inr (by decide)), ?_,
    hcdsField.2 (Or.inr (by decide))⟩
  rw [hcucField]
  decide

/-- Half a second is lost, a day of 86400001 milliseconds is written, and a second P-field octet
is overlooked. -/
theorem time_codes_fail :
    (¬ ∀ (config : CucConfig) (seconds : ℚ), CucTime.Representable config seconds →
      CucTime.KeepsInstant config seconds) ∧
    (¬ ∀ (t : CdsTime) (buf : Bytes), t.KeptOrRefused buf) ∧
    (¬ ∀ (pf : BitVec 8) (config : CucConfig),
      CucConfig.fromPField pf = .ok config → announcesExtension pf = false) ∧
    (¬ ∀ (pf : BitVec 8) (config : CdsConfig),
      CdsConfig.fromPField pf = .ok config → announcesExtension pf = false) := by
  refine ⟨?_, ?_, ?_, ?_⟩
  · intro hall
    have hor := (CucTime.keepsInstant_iff representable_half).1 (hall _ _ representable_half)
    rcases hor with hwhole | hthree
    · obtain ⟨n, hn⟩ := hwhole
      have htwice : ((201 : Nat) : ℚ) = ((2 * n : Nat) : ℚ) := by
        push_cast
        linarith
      have hnat : 201 = 2 * n := by exact_mod_cast htwice
      omega
    · exact absurd hthree.1 (by decide)
  · intro hall
    have hor := (CdsTime.keptOrRefused_iff ⟨⟨.ccsds, false, .none⟩, 0, 86400000, 0⟩
      (List.replicate 7 0)).1 (hall _ _)
    exact absurd hor (by decide)
  · intro hall
    obtain ⟨config, hok⟩ := (CucConfig.fromPField_ok_iff 0xAE).2 (by decide)
    exact absurd (hall _ config hok) (by decide)
  · intro hall
    obtain ⟨config, hok⟩ := (CdsConfig.fromPField_ok_iff 0xC0).2 (by decide)
    exact absurd (hall _ config hok) (by decide)

end Time
end Leodos
