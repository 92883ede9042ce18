/-
What a stamp does to the octets of a frame.

A stamp writes the header and leaves everything behind it.  From this the calls of a frame
writer are described one by one, for a buffer of any size and with no assumption that a call
succeeds.
-/
import Leodos.Datalink.Plain

namespace Leodos
namespace Datalink

open Memory Spp

/-- The stamped frame is a header in front of the octets that were there. -/
def StampsHeader (F : WriterFormat) : Prop :=
  ∀ (bufLen : Nat) (counters : F.Counters) (n : Nat) (bytes frame : Bytes),
    bytes.length = F.dataOffset + n + F.trailerLen →
    F.stamp bufLen counters n bytes = .ok frame →
    ∃ header : Bytes, header.length = F.dataOffset ∧ frame = header ++ bytes.drop F.dataOffset

/-! ## The writers of a link -/

theorem Tc.stampsHeader (config : Tc.TcFrameWriterConfig) :
    StampsHeader (Tc.TcFrameWriter.format config) := by
  intro _ seq n bytes frame _ h
  have h : Tc.TelecommandTransferFrame.new bytes config.scid config.vcid config.bypass
    config.control seq n = .ok frame := h
  obtain ⟨-, hroom, hframe⟩ := Tc.new_eq_ok_iff.1 h
  exact ⟨_, rfl, hframe.trans (write_zero (Nat.le_trans (Nat.le_add_right ..) hroom))⟩

theorem Tm.stampsHeader (config : Tm.TmFrameWriterConfig) :
    StampsHeader (Tm.TmFrameWriter.format config) := by
  intro _ counters n bytes frame _ h
  have h : Tm.TelemetryTransferFrame.new bytes 0 config.scid config.vcid counters.1 counters.2 0 =
    .ok frame := h
  obtain ⟨hroom, -, -, hframe⟩ := Tm.new_eq_ok_iff.1 h
  exact ⟨_, rfl, hframe.trans (write_zero hroom)⟩

theorem Aos.stampsHeader (config : Aos.AosFrameWriterConfig) :
    StampsHeader (Aos.AosFrameWriter.format config) := by
  intro _ count n bytes frame hlen h
  have hlen : bytes.length = Aos.AosTransferFrame.HEADER_SIZE + n := hlen
  have hroom : Aos.AosTransferFrame.HEADER_SIZE ≤ bytes.length := by
    rw [hlen]
    exact Nat.le_add_right ..
  simp only [Aos.AosFrameWriter.format, Aos.AosTransferFrame.refFromBytes,
    if_neg (Nat.not_lt.2 hroom)] at h
  cases h
  exact ⟨_, rfl, write_zero hroom⟩

theorem Proximity1.stampsHeader (config : Proximity1.Prox1FrameWriterConfig) :
    StampsHeader (Proximity1.Prox1FrameWriter.format config) := by
  intro _ fsn n bytes frame _ h
  have h : Proximity1.Proximity1TransferFrame.new bytes config.scid config.qos config.pduType
    config.dfcId config.pcid config.portId config.srcDest fsn n = .ok frame := h
  obtain ⟨-, -, -, hroom, hframe⟩ := Proximity1.new_eq_ok_iff.1 h
  exact ⟨_, rfl, hframe.trans (write_zero (Nat.le_trans (Nat.le_add_right ..) hroom))⟩

theorem write_write_gap {α : Type} {b src src' : List α} {gap : Nat}
    (h : src.length + gap + src'.length ≤ b.length) :
    write (write b 0 src) (src.length + gap) src' =
      src ++ slice b src.length gap ++ src' ++ b.drop (src.length + gap + src'.length) := by
  have hfirst : write b 0 src = src ++ b.drop src.length := write_zero (by omega)
  have hlen : (write b 0 src).length = b.length := write_length ..
  have hfits : src'.length ≤ b.length - (src.length + gap) := by omega
  have hdrop : src.length + gap + src'.length = src.length + (gap + src'.length) :=
    Nat.add_assoc ..
  rw [write, hlen, List.take_of_length_le hfits, hfirst, hdrop, List.take_length_add_append,
    List.drop_length_add_append, List.drop_drop]
  rfl

namespace Uslp

open Bits UslpTransferFrame

def zoneHeader (config : UslpFrameWriterConfig) : Bytes :=
  UInt8.ofBitVec (setBits (setBits 0 TFDZ_RULES_MASK (config.tfdzRule.toBits.setWidth 8))
    UPID_MASK config.upid) :: (if config.tfdzRule.hasPointer then [0, 0] else [])

theorem length_zoneHeader (config : UslpFrameWriterConfig) :
    (zoneHeader config).length = config.tfdzRule.tfdfHeaderLen := by
  rw [zoneHeader, TfdzRule.tfdfHeaderLen]
  cases config.tfdzRule.hasPointer <;> rfl

def headerOctets (config : UslpFrameWriterConfig) (vcfCount : UInt64) (bytes : Bytes) : Bytes :=
  (buildHeader config.scid config.vcid false config.mapId config.bypass
      config.protocolControlCommand config.ocfFlag config.vcfCountLength bytes.length).asBytes ++
    (BigEndian.encode config.vcfCountLength.toNat vcfCount.toNat ++
      slice bytes (FIXED_HEADER_SIZE + config.vcfCountLength.toNat) config.insertZoneLen ++
      zoneHeader config)

variable {config : UslpFrameWriterConfig} {bytes : Bytes}

theorem length_headerOctets (vcfCount : UInt64) (h : config.dataZoneOffset ≤ bytes.length) :
    (headerOctets config vcfCount bytes).length = config.dataZoneOffset := by
  have hoff : config.dataZoneOffset = FIXED_HEADER_SIZE + config.vcfCountLength.toNat +
    config.insertZoneLen + config.tfdzRule.tfdfHeaderLen := rfl
  rw [headerOctets, List.length_append, List.length_append, List.length_append,
    BigEndian.length_encode, slice_length (by omega), length_zoneHeader, hoff]
  show 7 + _ = 7 + _ + _ + _
  omega

theorem stamp_eq {n : Nat} (vcfCount : UInt64) (hlen : bytes.length =
      config.dataZoneOffset + n + (ocfLen config.ocfFlag + fecfLen config.fecfPresent))
    {frame : UslpTransferFrame}
    (hnew : UslpTransferFrame.new bytes config.scid config.vcid false config.mapId config.bypass
      config.protocolControlCommand config.ocfFlag config.vcfCountLength vcfCount = .ok frame) :
    (frame.setTfdfHeader config.insertZoneLen config.tfdzRule config.upid
        (if config.tfdzRule.hasPointer then some 0 else none)).asBytes =
      headerOctets config vcfCount bytes ++ bytes.drop config.dataZoneOffset := by
  have hoff : config.dataZoneOffset = FIXED_HEADER_SIZE + config.vcfCountLength.toNat +
    config.insertZoneLen + config.tfdzRule.tfdfHeaderLen := rfl
  obtain ⟨⟨-, -, hvcf, -, -⟩, hframe⟩ := new_eq_ok_iff.1 hnew
  rw [hframe]
  have hcount : (buildHeader config.scid config.vcid false config.mapId config.bypass
      config.protocolControlCommand config.ocfFlag config.vcfCountLength
      bytes.length).vcfCountLength = config.vcfCountLength :=
    vcfCountLength_buildHeader hvcf ..
  have hzone : UslpTransferFrame.setTfdfHeader
      ⟨buildHeader config.scid config.vcid false config.mapId config.bypass
        config.protocolControlCommand config.ocfFlag config.vcfCountLength bytes.length,
      write (bytes.drop FIXED_HEADER_SIZE) 0
        (BigEndian.encode config.vcfCountLength.toNat vcfCount.toNat)⟩
      config.insertZoneLen config.tfdzRule config.upid
      (if config.tfdzRule.hasPointer then some 0 else none) =
      ⟨buildHeader config.scid config.vcid false config.mapId config.bypass
        config.protocolControlCommand config.ocfFlag config.vcfCountLength bytes.length,
      write (write (bytes.drop FIXED_HEADER_SIZE) 0
        (BigEndian.encode config.vcfCountLength.toNat vcfCount.toNat))
        (config.vcfCountLength.toNat + config.insertZoneLen) (zoneHeader config)⟩ := by
    unfold UslpTransferFrame.setTfdfHeader zoneHeader
    rw [tfdfOffset, hcount]
    cases config.tfdzRule.hasPointer <;> rfl
  have hencode : (BigEndian.encode config.vcfCountLength.toNat vcfCount.toNat).length =
    config.vcfCountLength.toNat := BigEndian.length_encode ..
  have hzoneLen := length_zoneHeader config
  have hbody : write (write (bytes.drop FIXED_HEADER_SIZE) 0
        (BigEndian.encode config.vcfCountLength.toNat vcfCount.toNat))
        (config.vcfCountLength.toNat + config.insertZoneLen) (zoneHeader config) =
      BigEndian.encode config.vcfCountLength.toNat vcfCount.toNat ++
        slice bytes (FIXED_HEADER_SIZE + config.vcfCountLength.toNat) config.insertZoneLen ++
        zoneHeader config ++ bytes.drop config.dataZoneOffset := by
    have hgap := @write_write_gap _ (bytes.drop FIXED_HEADER_SIZE)
      (BigEndian.encode config.vcfCountLength.toNat vcfCount.toNat) (zoneHeader config)
      config.insertZoneLen (by rw [hencode, hzoneLen, List.length_drop]; omega)
    rw [hencode, hzoneLen, slice_drop, List.drop_drop] at hgap
    rw [hgap, hoff, Nat.add_assoc FIXED_HEADER_SIZE, Nat.add_assoc FIXED_HEADER_SIZE]
  rw [hzone, UslpTransferFrame.asBytes, hbody, headerOctets]
  simp only [List.append_assoc]

theorem stampsHeader (config : UslpFrameWriterConfig) :
    StampsHeader (UslpFrameWriter.format config) := by
  intro _ vcfCount n bytes frame hlen h
  have hlen : bytes.length =
    config.dataZoneOffset + n + (ocfLen config.ocfFlag + fecfLen config.fecfPresent) := hlen
  cases hnew : UslpTransferFrame.new bytes config.scid config.vcid false config.mapId config.bypass
      config.protocolControlCommand config.ocfFlag config.vcfCountLength vcfCount with
  | error e =>
    simp only [UslpFrameWriter.format, hnew] at h
    cases h
  | ok built =>
    simp only [UslpFrameWriter.format, hnew] at h
    cases h
    exact ⟨_, length_headerOctets vcfCount (by omega), stamp_eq vcfCount hlen hnew⟩

end Uslp

theorem FrameConfig.stampsHeader (config : FrameConfig) : StampsHeader config.writer := by
  cases config with
  | tc config => exact Tc.stampsHeader config
  | tm config => exact Tm.stampsHeader config
  | aos config => exact Aos.stampsHeader config
  | proximity1 config => exact Proximity1.stampsHeader config
  | uslp config => exact Uslp.stampsHeader config

/-! ## The calls of a frame writer -/

namespace FrameWriter

variable {F : WriterFormat} {w next : FrameWriter F} {opened : List Bytes} {p : Bytes} {room : Nat}

theorem Holds.push_ok (h : w.Holds room opened) (hpush : w.push p = .ok next) :
    next.Holds room (opened ++ [p]) ∧
      next = ⟨w.counters, size (opened ++ [p]), write w.buf (F.dataOffset + size opened) p⟩ := by
  have hfits := h.fits
  have hsize : size (opened ++ [p]) = size opened + p.length := size_append ..
  unfold FrameWriter.push remaining at hpush
  rw [h.dataLen] at hpush
  split at hpush
  · cases hpush
  split at hpush
  · cases hpush
  dsimp only at hpush
  split at hpush
  · cases hpush
  rename_i hmax hroom hbuf
  cases hpush
  refine ⟨⟨(write_length ..).trans h.buf, hsize.symm, by omega, ?_⟩, by rw [hsize]⟩
  have hold : slice (write w.buf (F.dataOffset + size opened) p) F.dataOffset (size opened) =
      opened.flatten := by
    rw [slice_write_of_disjoint (Or.inl (Nat.le_refl _))]
    exact h.data
  rw [hsize, slice_add, hold, slice_write_self (by omega), List.flatten_append,
    List.flatten_singleton]

theorem Holds.total_eq (h : w.Holds room opened) :
    w.total = F.dataOffset + size opened + F.trailerLen := by
  rw [total, h.dataLen]

theorem Holds.finish_ok (h : w.Holds room opened) (hF : StampsHeader F) {frame : Bytes}
    (hfinish : w.finish = (.ok frame, next)) :
    next = ⟨F.advance w.counters, 0, write w.buf 0 frame⟩ ∧ next.Holds room [] ∧
      w.total ≤ room ∧
      F.stamp w.buf.length w.counters (size opened) (w.buf.take w.total) = .ok frame ∧
      ∃ header : Bytes, header.length = F.dataOffset ∧
        frame = header ++ slice w.buf F.dataOffset (size opened + F.trailerLen) := by
  unfold FrameWriter.finish at hfinish
  dsimp only at hfinish
  split at hfinish
  · cases hfinish
  rename_i hroom
  rw [h.dataLen] at hfinish
  split at hfinish
  · cases hfinish
  rename_i built hstamp
  cases hfinish
  have hbuf := h.buf
  have htotal : w.total = F.dataOffset + (size opened + F.trailerLen) := by
    rw [h.total_eq, Nat.add_assoc]
  have hlen : (w.buf.take w.total).length = F.dataOffset + size opened + F.trailerLen := by
    rw [List.length_take, Nat.min_eq_left (Nat.le_of_not_lt hroom), h.total_eq]
  obtain ⟨header, hheader, hframe⟩ := hF _ _ _ _ _ hlen hstamp
  refine ⟨rfl, ⟨(write_length ..).trans h.buf, rfl, Nat.zero_le _, slice_zero ..⟩, by omega,
    hstamp, header, hheader, ?_⟩
  rw [hframe, slice, htotal, List.drop_take, Nat.add_sub_cancel_left]

theorem Holds.finish_error (h : w.Holds room opened) {fault : Fault F.BuildError}
    (hfinish : w.finish = (.error fault, next)) :
    next = { w with counters := F.advance w.counters } ∧ next.Holds room opened := by
  unfold FrameWriter.finish at hfinish
  dsimp only at hfinish
  split at hfinish
  · cases hfinish
    exact ⟨rfl, h.buf, h.dataLen, h.fits, h.data⟩
  split at hfinish
  · cases hfinish
    exact ⟨rfl, h.buf, h.dataLen, h.fits, h.data⟩
  · cases hfinish

theorem Holds.finish_unbuilt (h : w.Holds room opened) {e : F.BuildError}
    (hfinish : w.finish = (.error (.error e), next)) :
    w.total ≤ room ∧
      F.stamp w.buf.length w.counters (size opened) (w.buf.take w.total) = .error e := by
  have hbuf := h.buf
  unfold FrameWriter.finish at hfinish
  dsimp only at hfinish
  split at hfinish
  · cases hfinish
  rw [h.dataLen] at hfinish
  split at hfinish
  · rename_i hstamp
    cases hfinish
    exact ⟨by omega, hstamp⟩
  · cases hfinish

end FrameWriter

end Datalink
end Leodos
