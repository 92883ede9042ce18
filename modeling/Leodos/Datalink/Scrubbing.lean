/-
Headers that do not depend on what the buffer held.

A stamp writes some bits of the header and keeps the others.  The bits that it keeps are zero
in a fresh buffer and stay so, so that the header of a frame depends on the counters and on
the number of octets of data alone.
-/
import Leodos.Bits.Field
import Leodos.Datalink.Stamping

namespace Leodos
namespace Datalink

open Bits Memory Spp

/-- Where the header that was there is clean, the header that is stamped depends on the
counters and the number of octets of data alone, and is clean. -/
structure Scrubs (F : WriterFormat) (Clean : Bytes → Prop) : Prop where
  blank : ∀ k, Clean (List.replicate k 0)
  front : ∀ {bytes bytes' : Bytes}, bytes.take F.dataOffset = bytes'.take F.dataOffset →
    Clean bytes → Clean bytes'
  stamp : ∀ {bufLen : Nat} {counters : F.Counters} {n : Nat} {bytes bytes' frame : Bytes}
      (bufLen' : Nat),
    bytes.length = F.dataOffset + n + F.trailerLen → bytes'.length = bytes.length →
    Clean bytes → Clean bytes' → F.stamp bufLen counters n bytes = .ok frame →
    F.stamp bufLen' counters n bytes' = .ok (frame.take F.dataOffset ++ bytes'.drop F.dataOffset)
  keeps : ∀ {bufLen : Nat} {counters : F.Counters} {n : Nat} {bytes frame : Bytes},
    bytes.length = F.dataOffset + n + F.trailerLen → Clean bytes →
    F.stamp bufLen counters n bytes = .ok frame → Clean frame
  /-- A frame that is not built is not built later, when there are more data. -/
  stuck : ∀ {bufLen : Nat} {counters counters' : F.Counters} {n n' : Nat} {bytes bytes' : Bytes}
      {e : F.BuildError} (bufLen' : Nat),
    bytes.length = F.dataOffset + n + F.trailerLen →
    bytes'.length = F.dataOffset + n' + F.trailerLen → n ≤ n' →
    F.stamp bufLen counters n bytes = .error e →
    ∃ e', F.stamp bufLen' counters' n' bytes' = .error e'

theorem scrubs_of_fill {F : WriterFormat} {H : Type} (ofBytes : Bytes → H) (asBytes : H → Bytes)
    (Clean : H → Prop) (Accepts : Nat → Prop) (fill : F.Counters → Nat → H → H)
    (hok : ∀ (bufLen : Nat) (c : F.Counters) {n : Nat} {bytes : Bytes},
      bytes.length = F.dataOffset + n + F.trailerLen → Accepts n →
      F.stamp bufLen c n bytes = .ok (write bytes 0 (asBytes (fill c n (ofBytes bytes)))))
    (herror : ∀ (bufLen : Nat) (c : F.Counters) {n : Nat} {bytes : Bytes},
      bytes.length = F.dataOffset + n + F.trailerLen → ¬ Accepts n →
      ∃ e, F.stamp bufLen c n bytes = .error e)
    (hmono : ∀ {n n'}, n ≤ n' → Accepts n' → Accepts n)
    (hlen : ∀ h, (asBytes h).length = F.dataOffset)
    (hfront : ∀ {bytes bytes' : Bytes}, bytes.take F.dataOffset = bytes'.take F.dataOffset →
      ofBytes bytes = ofBytes bytes')
    (hback : ∀ h rest, ofBytes (asBytes h ++ rest) = h)
    (hblank : ∀ k, Clean (ofBytes (List.replicate k 0)))
    (hfill : ∀ c n {h h'}, Clean h → Clean h' → fill c n h = fill c n h')
    (hclean : ∀ c {n h}, Accepts n → Clean h → Clean (fill c n h)) :
    Scrubs F (fun bytes => Clean (ofBytes bytes)) := by
  have hwrite : ∀ {n : Nat} {bytes : Bytes} (h : H),
      bytes.length = F.dataOffset + n + F.trailerLen →
      write bytes 0 (asBytes h) = asBytes h ++ bytes.drop F.dataOffset := by
    intro n bytes h hbytes
    rw [write_zero (by rw [hlen, hbytes, Nat.add_assoc]; exact Nat.le_add_right ..), hlen]
  have haccepts : ∀ {bufLen : Nat} {c : F.Counters} {n : Nat} {bytes frame : Bytes},
      bytes.length = F.dataOffset + n + F.trailerLen → F.stamp bufLen c n bytes = .ok frame →
      Accepts n := by
    intro bufLen c n bytes frame hbytes hstamp
    apply Classical.byContradiction
    intro hnot
    obtain ⟨e, he⟩ := herror bufLen c hbytes hnot
    rw [hstamp] at he
    cases he
  refine ⟨hblank, fun htake h => ?_, fun _ hbytes hbytes' h h' hstamp => ?_,
    fun hbytes h hstamp => ?_, fun _ hbytes hbytes' hle hstamp => ?_⟩
  · rw [← hfront htake]
    exact h
  · have hn := haccepts hbytes hstamp
    rw [hok _ _ hbytes hn, hwrite _ hbytes] at hstamp
    cases hstamp
    rw [hok _ _ (hbytes'.trans hbytes) hn, hwrite _ (hbytes'.trans hbytes), hfill _ _ h' h,
      List.take_left' (hlen _)]
  · have hn := haccepts hbytes hstamp
    rw [hok _ _ hbytes hn, hwrite _ hbytes] at hstamp
    cases hstamp
    rw [hback]
    exact hclean _ hn h
  · apply herror _ _ hbytes'
    intro hn'
    rw [hok _ _ hbytes (hmono hle hn')] at hstamp
    cases hstamp

theorem exists_error {ε α : Type} {x : Except ε α} (h : ∀ a, x ≠ .ok a) : ∃ e, x = .error e := by
  cases x with
  | error e => exact ⟨e, rfl⟩
  | ok a => exact absurd rfl (h a)

theorem getD_of_take {bytes bytes' : Bytes} {k : Nat} (h : bytes.take k = bytes'.take k) {i : Nat}
    (hi : i < k) : bytes.getD i 0 = bytes'.getD i 0 := by
  have hget : (bytes.take k)[i]? = (bytes'.take k)[i]? := by rw [h]
  rw [List.getElem?_take_of_lt hi, List.getElem?_take_of_lt hi] at hget
  rw [List.getD_eq_getElem?_getD, List.getD_eq_getElem?_getD, hget]

theorem getD_replicate (k i : Nat) : (List.replicate k (0 : UInt8)).getD i 0 = 0 := by
  rw [List.getD_eq_getElem?_getD, List.getElem?_replicate]
  split <;> rfl

/-! ## The writers of a link -/

namespace Tc

open TelecommandTransferFrame

/-- Version and spare bits, which the builder does not write. -/
def UNWRITTEN_MASK : BitVec 16 := 0b1100110000000000

def Clean (h : TelecommandTransferFrameHeader) : Prop := Agree UNWRITTEN_MASK h.idAndScid 0#16

theorem fill_eq (config : TcFrameWriterConfig) (seq : UInt8) (n : Nat)
    {h h' : TelecommandTransferFrameHeader} (hc : Clean h) (hc' : Clean h') :
    fill config seq n h = fill config seq n h' := by
  have hid : Agree UNWRITTEN_MASK h.idAndScid h'.idAndScid := hc.trans hc'.symm
  have hflags := (((hid.setBits SCID_MASK (config.scid.setWidth 16)).setBits BYPASS_FLAG_MASK
    (config.bypass.toBits.setWidth 16)).setBits CONTROL_FLAG_MASK
    (config.control.toBits.setWidth 16)).eq (by decide)
  have hlength := (((agree_zero h.vcidAndLength h'.vcidAndLength).setBits VCID_MASK
    (config.vcid.setWidth 16)).setBits FRAME_LEN_MASK
    (BitVec.ofNat 16 (HEADER_SIZE + n - 1))).eq (by decide)
  exact congrArg₂ (fun id length => TelecommandTransferFrameHeader.mk id length seq) hflags hlength

theorem clean_fill {config : TcFrameWriterConfig} (hids : config.InRange) (seq : UInt8) (n : Nat)
    {h : TelecommandTransferFrameHeader} (hc : Clean h) : Clean (fill config seq n h) := by
  have hscid : config.scid.setWidth 16 <<< SCID_MASK.ctz.toNat &&& UNWRITTEN_MASK = 0#16 := by
    have hshift : SCID_MASK.ctz.toNat = 0 := by decide
    rw [hshift, BitVec.shiftLeft_zero]
    exact and_eq_zero_of_fits (fits_of_numBits hids.1) (by decide)
  have hbypass : config.bypass.toBits.setWidth 16 <<< BYPASS_FLAG_MASK.ctz.toNat &&&
      UNWRITTEN_MASK = 0#16 := by
    cases config.bypass <;> decide
  have hcontrol : config.control.toBits.setWidth 16 <<< CONTROL_FLAG_MASK.ctz.toNat &&&
      UNWRITTEN_MASK = 0#16 := by
    cases config.control <;> decide
  exact (agree_setBits _ (by decide) hcontrol).trans ((agree_setBits _ (by decide) hbypass).trans
    ((agree_setBits _ (by decide) hscid).trans hc))

theorem scrubs (config : TcFrameWriterConfig) :
    Scrubs (TcFrameWriter.format config) (fun bytes => Clean (.ofBytes bytes)) := by
  apply scrubs_of_fill TelecommandTransferFrameHeader.ofBytes TelecommandTransferFrameHeader.asBytes
    Clean (Accepts config) (fill config)
  · intro _ seq n bytes hlen hn
    have hlen : bytes.length = HEADER_SIZE + n := hlen
    exact new_eq_ok_iff.2 ⟨hn, Nat.le_of_eq hlen.symm, rfl⟩
  · intro _ seq n bytes hlen hn
    apply exists_error
    intro frame hnew
    exact hn (new_eq_ok_iff.1 hnew).1
  · intro n n' hle h
    exact ⟨h.1, Nat.le_trans hle h.2⟩
  · intro h
    rfl
  · intro bytes bytes' htake
    unfold TelecommandTransferFrameHeader.ofBytes
    rw [getD_of_take htake (by decide : 0 < 5), getD_of_take htake (by decide : 1 < 5),
      getD_of_take htake (by decide : 2 < 5), getD_of_take htake (by decide : 3 < 5),
      getD_of_take htake (by decide : 4 < 5)]
  · exact TelecommandTransferFrameHeader.ofBytes_asBytes
  · intro k
    unfold Clean TelecommandTransferFrameHeader.ofBytes
    rw [getD_replicate, getD_replicate]
    exact (by decide : Bits.ofBytes 0 0 &&& UNWRITTEN_MASK = 0#16 &&& UNWRITTEN_MASK)
  · intro seq n h h' hc hc'
    exact fill_eq config seq n hc hc'
  · intro seq n h hn hc
    exact clean_fill hn.1 seq n hc

end Tc

namespace Tm

open TelemetryTransferFrame

/-- The flag of the operational control field, which the builder does not write. -/
def UNWRITTEN_MASK : BitVec 16 := 0b0000000000000001

/-- The flags in front of the first header pointer. -/
def STATUS_FLAGS_MASK : BitVec 16 := 0b1111100000000000

def Clean (h : TelemetryTransferFrameHeader) : Prop :=
  Agree UNWRITTEN_MASK h.versionScidVcidAndOcf 0#16 ∧ Agree STATUS_FLAGS_MASK h.dataFieldStatus 0#16

def fill (config : TmFrameWriterConfig) (counters : UInt8 × UInt8) (_n : Nat)
    (h : TelemetryTransferFrameHeader) : TelemetryTransferFrameHeader :=
  (((((h.setVersion 0).setScid config.scid).setVcid config.vcid).setMcFrameCount
    counters.1).setVcFrameCount counters.2).setFirstHeaderPointer 0

theorem fill_eq (config : TmFrameWriterConfig) (counters : UInt8 × UInt8) (n : Nat)
    {h h' : TelemetryTransferFrameHeader} (hc : Clean h) (hc' : Clean h') :
    fill config counters n h = fill config counters n h' := by
  have hword : Agree UNWRITTEN_MASK h.versionScidVcidAndOcf h'.versionScidVcidAndOcf :=
    hc.1.trans hc'.1.symm
  have hids := (((hword.setBits VERSION_MASK ((0 : UInt8).toBitVec.setWidth 16)).setBits SCID_MASK
    (config.scid.setWidth 16)).setBits VCID_MASK (config.vcid.setWidth 16)).eq (by decide)
  have hstatus := ((hc.2.trans hc'.2.symm).setBits FIRST_HEADER_POINTER_MASK 0).eq (by decide)
  exact congrArg₂ (fun ids status =>
    TelemetryTransferFrameHeader.mk ids counters.1 counters.2 status) hids hstatus

theorem clean_fill (config : TmFrameWriterConfig) (counters : UInt8 × UInt8) (n : Nat)
    {h : TelemetryTransferFrameHeader} (hc : Clean h) : Clean (fill config counters n h) := by
  have hscid : config.scid.setWidth 16 <<< SCID_MASK.ctz.toNat &&& UNWRITTEN_MASK = 0#16 :=
    shiftLeft_and_eq_zero _ (by decide)
  have hvcid : config.vcid.setWidth 16 <<< VCID_MASK.ctz.toNat &&& UNWRITTEN_MASK = 0#16 :=
    shiftLeft_and_eq_zero _ (by decide)
  refine ⟨?_, (agree_setBits _ (by decide) (by decide)).trans hc.2⟩
  exact (agree_setBits _ (by decide) hvcid).trans ((agree_setBits _ (by decide) hscid).trans
    ((agree_setBits _ (by decide) (by decide)).trans hc.1))

theorem scrubs (config : TmFrameWriterConfig) :
    Scrubs (TmFrameWriter.format config) (fun bytes => Clean (.ofBytes bytes)) := by
  apply scrubs_of_fill TelemetryTransferFrameHeader.ofBytes TelemetryTransferFrameHeader.asBytes
    Clean (fun _ => config.InRange) (fill config)
  · intro _ counters n bytes hlen hids
    have hlen : bytes.length = HEADER_SIZE + n := hlen
    exact new_eq_ok_iff.2 ⟨by omega, hids.1, hids.2, rfl⟩
  · intro _ counters n bytes hlen hids
    apply exists_error
    intro frame hnew
    obtain ⟨-, hscid, hvcid, -⟩ := new_eq_ok_iff.1 hnew
    exact hids ⟨hscid, hvcid⟩
  · intro n n' _ hids
    exact hids
  · intro h
    rfl
  · intro bytes bytes' htake
    unfold TelemetryTransferFrameHeader.ofBytes
    rw [getD_of_take htake (by decide : 0 < 6), getD_of_take htake (by decide : 1 < 6),
      getD_of_take htake (by decide : 2 < 6), getD_of_take htake (by decide : 3 < 6),
      getD_of_take htake (by decide : 4 < 6), getD_of_take htake (by decide : 5 < 6)]
  · intro h rest
    show (⟨Bits.ofBytes (highByte h.versionScidVcidAndOcf) (lowByte h.versionScidVcidAndOcf),
      h.mcFrameCount, h.vcFrameCount,
      Bits.ofBytes (highByte h.dataFieldStatus) (lowByte h.dataFieldStatus)⟩ :
        TelemetryTransferFrameHeader) = h
    rw [ofBytes_bytes, ofBytes_bytes]
  · intro k
    unfold Clean TelemetryTransferFrameHeader.ofBytes
    simp only [getD_replicate]
    exact (by decide : Bits.ofBytes 0 0 &&& UNWRITTEN_MASK = 0#16 &&& UNWRITTEN_MASK ∧
      Bits.ofBytes 0 0 &&& STATUS_FLAGS_MASK = 0#16 &&& STATUS_FLAGS_MASK)
  · intro counters n h h' hc hc'
    exact fill_eq config counters n hc hc'
  · intro counters n h _ hc
    exact clean_fill config counters n hc

end Tm

namespace Aos

open AosTransferFrame

/-- The spare bits, which the writer does not set. -/
def SPARE_MASK : BitVec 8 := 0b00111111

def Clean (h : AosPrimaryHeader) : Prop := Agree SPARE_MASK h.replayUsageSpareField 0#8

theorem stampHeader_eq (config : AosFrameWriterConfig) (count : UInt32) {h h' : AosPrimaryHeader}
    (hc : Clean h) (hc' : Clean h') :
    AosFrameWriter.stampHeader config count h = AosFrameWriter.stampHeader config count h' := by
  have hids := ((((agree_zero h.versionScidVcidField h'.versionScidVcidField).setBits VERSION_MASK
    (AOS_VERSION.setWidth 16)).setBits SCID_MASK (config.scid.setWidth 16)).setBits VCID_MASK
    (config.vcid.setWidth 16)).eq (by decide)
  have hflags := (((hc.trans hc'.symm).setBits REPLAY_FLAG_MASK
    (if false then 1 else 0)).setBits USAGE_FLAG_MASK (if false then 1 else 0)).eq (by decide)
  exact congrArg₂ (fun ids flags => AosPrimaryHeader.mk ids (count.toBitVec.setWidth 24) flags)
    hids hflags

theorem clean_stampHeader (config : AosFrameWriterConfig) (count : UInt32) {h : AosPrimaryHeader}
    (hc : Clean h) : Clean (AosFrameWriter.stampHeader config count h) :=
  (agree_setBits _ (by decide) (by decide)).trans
    ((agree_setBits _ (by decide) (by decide)).trans hc)

theorem ofBytes_asBytes (h : AosPrimaryHeader) (rest : Bytes) :
    AosPrimaryHeader.ofBytes (h.asBytes ++ rest) = h := by
  have hcount : BitVec.ofNat 24 (BigEndian.decode (BigEndian.encode 3 h.vcFrameCount.toNat)) =
      h.vcFrameCount := by
    rw [BigEndian.decode_encode_of_lt h.vcFrameCount.isLt, BitVec.ofNat_toNat, BitVec.setWidth_eq]
  show (⟨Bits.ofBytes (highByte h.versionScidVcidField) (lowByte h.versionScidVcidField),
    BitVec.ofNat 24 (BigEndian.decode (BigEndian.encode 3 h.vcFrameCount.toNat)),
    h.replayUsageSpareField⟩ : AosPrimaryHeader) = h
  rw [ofBytes_bytes, hcount]

theorem scrubs (config : AosFrameWriterConfig) :
    Scrubs (AosFrameWriter.format config) (fun bytes => Clean (.ofBytes bytes)) := by
  apply scrubs_of_fill AosPrimaryHeader.ofBytes AosPrimaryHeader.asBytes Clean (fun _ => True)
    (fun count _ => AosFrameWriter.stampHeader config count)
  · intro _ count n bytes hlen _
    have hlen : bytes.length = HEADER_SIZE + n := hlen
    have hroom : HEADER_SIZE ≤ bytes.length := by
      rw [hlen]
      exact Nat.le_add_right ..
    simp only [AosFrameWriter.format, refFromBytes, if_neg (Nat.not_lt.2 hroom)]
  · intro _ count n bytes _ hnot
    exact absurd trivial hnot
  · intro n n' _ h
    exact h
  · exact AosPrimaryHeader.length_asBytes
  · intro bytes bytes' htake
    unfold AosPrimaryHeader.ofBytes
    rw [getD_of_take htake (by decide : 0 < 6), getD_of_take htake (by decide : 1 < 6),
      getD_of_take htake (by decide : 2 < 6), getD_of_take htake (by decide : 3 < 6),
      getD_of_take htake (by decide : 4 < 6), getD_of_take htake (by decide : 5 < 6)]
  · exact ofBytes_asBytes
  · intro k
    unfold Clean AosPrimaryHeader.ofBytes
    simp only [getD_replicate]
    exact (by decide : (0 : UInt8).toBitVec &&& SPARE_MASK = 0#8 &&& SPARE_MASK)
  · intro count n h h' hc hc'
    exact stampHeader_eq config count hc hc'
  · intro count n h _ hc
    exact clean_stampHeader config count hc

end Aos

namespace Proximity1

open Proximity1TransferFrame

theorem buildHeader_eq (h h' : Proximity1Header) (scid : Scid) (qos : QoS) (pduType : PduType)
    (dfcId : DfcId) (pcid : Bool) (portId : BitVec 8) (srcDest : SrcDest) (fsn : UInt8)
    (totalLen : Nat) :
    buildHeader h scid qos pduType dfcId pcid portId srcDest fsn totalLen =
      buildHeader h' scid qos pduType dfcId pcid portId srcDest fsn totalLen := by
  have hfirst := ((((((agree_zero h.versionQosPduDfcScid h'.versionQosPduDfcScid).setBits
    VERSION_MASK (PROXIMITY1_VERSION.setWidth 16)).setBits QOS_MASK
    (qos.toBits.setWidth 16)).setBits PDU_TYPE_MASK (pduType.toBits.setWidth 16)).setBits
    DFC_ID_MASK (dfcId.toBits.setWidth 16)).setBits SCID_MASK (scid.setWidth 16)).eq (by decide)
  have hsecond := (((((agree_zero h.pcidPortSrcdstLen h'.pcidPortSrcdstLen).setBits PCID_MASK
    ((BitVec.ofBool pcid).setWidth 16)).setBits PORT_ID_MASK (portId.setWidth 16)).setBits
    SRC_DEST_MASK (srcDest.toBits.setWidth 16)).setBits FRAME_LEN_MASK
    (BitVec.ofNat 16 (totalLen - 1))).eq (by decide)
  exact congrArg₂ (fun first second => Proximity1Header.mk first second fsn) hfirst hsecond

def Accepts (config : Prox1FrameWriterConfig) (n : Nat) : Prop :=
  config.InRange ∧ n ≤ MAX_DATA_FIELD_LEN

theorem scrubs (config : Prox1FrameWriterConfig) :
    Scrubs (Prox1FrameWriter.format config) (fun _ => True) := by
  apply scrubs_of_fill Proximity1Header.ofBytes Proximity1Header.asBytes (fun _ => True)
    (Accepts config)
    (fun fsn n h => buildHeader h config.scid config.qos config.pduType config.dfcId config.pcid
      config.portId config.srcDest fsn (HEADER_SIZE + n))
  · intro _ fsn n bytes hlen hn
    have hlen : bytes.length = HEADER_SIZE + n := hlen
    exact new_eq_ok_iff.2 ⟨hn.1.1, hn.1.2, hn.2, Nat.le_of_eq hlen.symm, rfl⟩
  · intro _ fsn n bytes hlen hn
    apply exists_error
    intro frame hnew
    obtain ⟨hscid, hport, hmax, -⟩ := new_eq_ok_iff.1 hnew
    exact hn ⟨⟨hscid, hport⟩, hmax⟩
  · intro n n' hle h
    exact ⟨h.1, Nat.le_trans hle h.2⟩
  · intro h
    rfl
  · intro bytes bytes' htake
    unfold Proximity1Header.ofBytes
    rw [getD_of_take htake (by decide : 0 < 5), getD_of_take htake (by decide : 1 < 5),
      getD_of_take htake (by decide : 2 < 5), getD_of_take htake (by decide : 3 < 5),
      getD_of_take htake (by decide : 4 < 5)]
  · exact Proximity1Header.ofBytes_asBytes
  · intro k
    trivial
  · intro fsn n h h' _ _
    exact buildHeader_eq ..
  · intro fsn n h _ _
    trivial

end Proximity1

theorem slice_eq_replicate {bytes : Bytes} {off len : Nat} (hlen : off + len ≤ bytes.length)
    (h : ∀ i, i < len → bytes.getD (off + i) 0 = 0) :
    slice bytes off len = List.replicate len 0 := by
  apply List.ext_getElem?
  intro i
  rw [slice_getElem?, List.getElem?_replicate]
  by_cases hi : i < len
  · have hzero := h i hi
    rw [List.getD_eq_getElem?_getD, List.getElem?_eq_getElem (by omega), Option.getD_some] at hzero
    rw [if_pos hi, if_pos hi, List.getElem?_eq_getElem (by omega), hzero]
  · rw [if_neg hi, if_neg hi]

namespace Uslp

open UslpTransferFrame

/-- The insert zone is empty. -/
def Clean (config : UslpFrameWriterConfig) (bytes : Bytes) : Prop :=
  ∀ i, i < config.insertZoneLen →
    bytes.getD (FIXED_HEADER_SIZE + config.vcfCountLength.toNat + i) 0 = 0

variable {config : UslpFrameWriterConfig}

/-- What the builder checks of a frame of that many octets. -/
def Accepts (config : UslpFrameWriterConfig) (len : Nat) : Prop :=
  numBits config.vcid ≤ 6 ∧ config.mapId ≤ 15 ∧ config.vcfCountLength ≤ 7 ∧ len ≤ MAX_FRAME_SIZE

theorem new_of_accepts {vcfCount : UInt64} {bytes : Bytes} (h : Accepts config bytes.length)
    (hlen : config.dataZoneOffset ≤ bytes.length) :
    ∃ frame, UslpTransferFrame.new bytes config.scid config.vcid false config.mapId config.bypass
      config.protocolControlCommand config.ocfFlag config.vcfCountLength vcfCount = .ok frame := by
  obtain ⟨hvcid, hmapId, hvcf, hmax⟩ := h
  have hoff : config.dataZoneOffset = FIXED_HEADER_SIZE + config.vcfCountLength.toNat +
    config.insertZoneLen + config.tfdzRule.tfdfHeaderLen := rfl
  exact ⟨_, new_eq_ok_iff.2 ⟨⟨hvcid, hmapId, hvcf, by omega, hmax⟩, rfl⟩⟩

theorem accepts_of_new {vcfCount : UInt64} {bytes : Bytes} {frame : UslpTransferFrame}
    (h : UslpTransferFrame.new bytes config.scid config.vcid false config.mapId config.bypass
      config.protocolControlCommand config.ocfFlag config.vcfCountLength vcfCount = .ok frame) :
    Accepts config bytes.length := by
  obtain ⟨⟨hvcid, hmapId, hvcf, -, hmax⟩, -⟩ := new_eq_ok_iff.1 h
  exact ⟨hvcid, hmapId, hvcf, hmax⟩

theorem headerOctets_eq {vcfCount : UInt64} {bytes bytes' : Bytes}
    (hlen : config.dataZoneOffset ≤ bytes.length) (hsame : bytes'.length = bytes.length)
    (hc : Clean config bytes) (hc' : Clean config bytes') :
    headerOctets config vcfCount bytes' = headerOctets config vcfCount bytes := by
  have hoff : config.dataZoneOffset = FIXED_HEADER_SIZE + config.vcfCountLength.toNat +
    config.insertZoneLen + config.tfdzRule.tfdfHeaderLen := rfl
  rw [headerOctets, headerOctets, hsame, slice_eq_replicate (by omega) hc,
    slice_eq_replicate (by omega) hc']

theorem clean_headerOctets {vcfCount : UInt64} {bytes rest : Bytes}
    (hlen : config.dataZoneOffset ≤ bytes.length) (hc : Clean config bytes) :
    Clean config (headerOctets config vcfCount bytes ++ rest) := by
  intro i hi
  have hoff : config.dataZoneOffset = FIXED_HEADER_SIZE + config.vcfCountLength.toNat +
    config.insertZoneLen + config.tfdzRule.tfdfHeaderLen := rfl
  have hencode : (BigEndian.encode config.vcfCountLength.toNat vcfCount.toNat).length =
    config.vcfCountLength.toNat := BigEndian.length_encode ..
  have hfixed : ∀ h : UslpPrimaryHeaderFixed, h.asBytes.length = FIXED_HEADER_SIZE := fun h => rfl
  rw [headerOctets, slice_eq_replicate (by omega) hc, List.getD_eq_getElem?_getD]
  simp only [List.append_assoc]
  rw [List.getElem?_append_right (by rw [hfixed]; omega), hfixed,
    List.getElem?_append_right (by rw [hencode]; omega), hencode,
    List.getElem?_append_left (by rw [List.length_replicate]; omega), List.getElem?_replicate]
  split <;> rfl

theorem scrubs (config : UslpFrameWriterConfig) :
    Scrubs (UslpFrameWriter.format config) (Clean config) := by
  have hstamp : ∀ {bufLen : Nat} {vcfCount : (UslpFrameWriter.format config).Counters} {n : Nat}
      {bytes : Bytes},
      bytes.length =
        config.dataZoneOffset + n + (ocfLen config.ocfFlag + fecfLen config.fecfPresent) →
      Accepts config bytes.length → (UslpFrameWriter.format config).stamp bufLen vcfCount n bytes =
        .ok (headerOctets config vcfCount bytes ++ bytes.drop config.dataZoneOffset) := by
    intro bufLen vcfCount n bytes hlen haccepts
    obtain ⟨frame, hnew⟩ := @new_of_accepts config vcfCount bytes haccepts (by omega)
    simp only [UslpFrameWriter.format, hnew]
    exact congrArg Except.ok (stamp_eq vcfCount hlen hnew)
  have haccepts : ∀ {bufLen : Nat} {vcfCount : (UslpFrameWriter.format config).Counters} {n : Nat}
      {bytes frame : Bytes},
      (UslpFrameWriter.format config).stamp bufLen vcfCount n bytes = .ok frame →
      Accepts config bytes.length := by
    intro bufLen vcfCount n bytes frame h
    simp only [UslpFrameWriter.format] at h
    split at h
    · cases h
    · rename_i hnew
      exact accepts_of_new hnew
  constructor
  · intro k i _
    exact getD_replicate ..
  · intro bytes bytes' htake hc i hi
    have hbelow : FIXED_HEADER_SIZE + config.vcfCountLength.toNat + i < config.dataZoneOffset := by
      show _ < FIXED_HEADER_SIZE + config.vcfCountLength.toNat + config.insertZoneLen +
        config.tfdzRule.tfdfHeaderLen
      omega
    rw [← getD_of_take htake hbelow]
    exact hc i hi
  · intro bufLen vcfCount n bytes bytes' frame bufLen' hlen hsame hc hc' h
    have hok := haccepts h
    have hlen : bytes.length = config.dataZoneOffset + n +
      (ocfLen config.ocfFlag + fecfLen config.fecfPresent) := hlen
    have hroom : config.dataZoneOffset ≤ bytes.length := by omega
    rw [hstamp hlen hok] at h
    cases h
    have hheader := @headerOctets_eq config vcfCount bytes bytes' hroom hsame hc hc'
    have htake : (headerOctets config vcfCount bytes ++ bytes.drop config.dataZoneOffset).take
        config.dataZoneOffset = headerOctets config vcfCount bytes :=
      List.take_left' (length_headerOctets vcfCount hroom)
    rw [hstamp (hsame.trans hlen) (by rw [hsame]; exact hok)]
    exact congrArg (fun octets => Except.ok (octets ++ bytes'.drop config.dataZoneOffset))
      (hheader.trans htake.symm)
  · intro bufLen vcfCount n bytes frame hlen hc h
    have hlen : bytes.length = config.dataZoneOffset + n +
      (ocfLen config.ocfFlag + fecfLen config.fecfPresent) := hlen
    rw [hstamp hlen (haccepts h)] at h
    cases h
    exact clean_headerOctets (by omega) hc
  · intro bufLen vcfCount vcfCount' n n' bytes bytes' e bufLen' hlen hlen' hle h
    have hlen : bytes.length = config.dataZoneOffset + n +
      (ocfLen config.ocfFlag + fecfLen config.fecfPresent) := hlen
    have hlen' : bytes'.length = config.dataZoneOffset + n' +
      (ocfLen config.ocfFlag + fecfLen config.fecfPresent) := hlen'
    cases hnext : (UslpFrameWriter.format config).stamp bufLen' vcfCount' n' bytes' with
    | error e' => exact ⟨e', rfl⟩
    | ok frame =>
      obtain ⟨hvcid, hmapId, hvcf, hmax⟩ := haccepts hnext
      rw [hstamp hlen ⟨hvcid, hmapId, hvcf, by omega⟩] at h
      cases h

end Uslp

namespace FrameConfig

/-- The bits of the header that the writer does not write. -/
def Clean : FrameConfig → Bytes → Prop
  | tc _ => fun bytes => Tc.Clean (.ofBytes bytes)
  | tm _ => fun bytes => Tm.Clean (.ofBytes bytes)
  | aos _ => fun bytes => Aos.Clean (.ofBytes bytes)
  | proximity1 _ => fun _ => True
  | uslp config => Uslp.Clean config

theorem scrubs (config : FrameConfig) : Scrubs config.writer config.Clean := by
  cases config with
  | tc config => exact Tc.scrubs config
  | tm config => exact Tm.scrubs config
  | aos config => exact Aos.scrubs config
  | proximity1 config => exact Proximity1.scrubs config
  | uslp config => exact Uslp.scrubs config

end FrameConfig

end Datalink
end Leodos
