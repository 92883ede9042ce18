/-
What the header of a built frame says.

A header says what was asked when every accessor returns the value that was given.  A value
that is not checked and does not fit its field is not returned, and runs into the fields above
its own.
-/
import Leodos.Bits.Assembly
import Leodos.Datalink.Scrubbing

namespace Leodos
namespace Datalink

open Bits Memory Spp

/-! ## Values and accessors -/

theorem setWidth_id {id : BitVec 32} {n : Nat} (h : numBits id ≤ n) (hn : n ≤ 16) :
    (id.setWidth 16).setWidth 32 = id := by
  apply setWidth_setWidth_of_fits
  intro i hi
  exact fits_of_toNat_lt (numBits_le_iff.1 h) i (Nat.le_trans hn hi)

theorem numBits_of_read {mask word : BitVec 16} {lo len : Nat} (h : Spans mask lo len)
    {id : BitVec 32} (hread : (getBits word mask).setWidth 32 = id) : numBits id ≤ len := by
  rw [numBits_le_iff]
  exact toNat_of_read h hread

/-! ## Telecommand frames -/

namespace Tc

open TelecommandTransferFrame

def versionField : Field 16 := ⟨VERSION_MASK, 14, 2, spans_of_eq rfl (by decide) (by decide)⟩
def bypassField : Field 16 := ⟨BYPASS_FLAG_MASK, 13, 1, spans_of_eq rfl (by decide) (by decide)⟩
def controlField : Field 16 := ⟨CONTROL_FLAG_MASK, 12, 1, spans_of_eq rfl (by decide) (by decide)⟩
def scidField : Field 16 := ⟨SCID_MASK, 0, 10, spans_of_eq rfl (by decide) (by decide)⟩
def vcidField : Field 16 := ⟨VCID_MASK, 10, 6, spans_of_eq rfl (by decide) (by decide)⟩
def frameLenField : Field 16 := ⟨FRAME_LEN_MASK, 0, 10, spans_frameLen⟩

/-- Every accessor returns what was given, and the version number is that of the format. -/
structure Says (h : TelecommandTransferFrameHeader) (scid : Scid) (vcid : Vcid)
    (bypassFlag : BypassFlag) (controlFlag : ControlFlag) (seq : UInt8) (frameLen : Nat) :
    Prop where
  version : getBits h.idAndScid VERSION_MASK = 0
  scid : h.scid = scid
  vcid : h.vcid = vcid
  bypassFlag : h.bypassFlag = bypassFlag
  controlFlag : h.controlFlag = controlFlag
  sequenceNum : h.sequenceNum = seq
  frameLen : h.frameLen = frameLen

theorem says_fill_iff {config : TcFrameWriterConfig} {n : Nat} (haccepts : Accepts config n)
    (seq : UInt8) (h : TelecommandTransferFrameHeader) :
    Says (fill config seq n h) config.scid config.vcid config.bypass config.control seq
      (HEADER_SIZE + n) ↔ getBits h.idAndScid VERSION_MASK = 0 := by
  obtain ⟨⟨hscid, hvcid⟩, hn⟩ := haccepts
  let first : Entries 16 := [(scidField, config.scid.setWidth 16),
    (bypassField, config.bypass.toBits.setWidth 16),
    (controlField, config.control.toBits.setWidth 16)]
  let second : Entries 16 := [(vcidField, config.vcid.setWidth 16),
    (frameLenField, BitVec.ofNat 16 (HEADER_SIZE + n - 1))]
  have hlen : HEADER_SIZE + n ≤ 1024 := by
    rw [HEADER_SIZE]
    rw [MAX_DATA_FIELD_LEN] at hn
    omega
  have htotal : (BitVec.ofNat 16 (HEADER_SIZE + n - 1)).toNat < 2 ^ 10 := by
    rw [BitVec.toNat_ofNat]
    omega
  have hfirst : AllFit first :=
    ⟨fits_of_numBits hscid, fits_setWidth config.bypass.toBits, fits_setWidth config.control.toBits,
      trivial⟩
  have hversion : getBits (fill config seq n h).idAndScid VERSION_MASK =
      getBits h.idAndScid VERSION_MASK :=
    getBits_assemble h.idAndScid first versionField hfirst
      (by decide : ∀ g ∈ [scidField, bypassField, controlField], versionField.Apart g)
  obtain ⟨hreadScid, hreadBypass, hreadControl, -⟩ := reads_assemble h.idAndScid first
    (by decide : [scidField, bypassField, controlField].Pairwise Field.Apart) hfirst
  obtain ⟨hreadVcid, -, -⟩ := reads_assemble h.vcidAndLength second
    (by decide : [vcidField, frameLenField].Pairwise Field.Apart)
    ⟨fits_of_numBits hvcid, fits_of_toNat_lt htotal, trivial⟩
  rw [← hversion]
  refine ⟨fun hsays => hsays.version, fun hzero => ⟨hzero, ?_, ?_, ?_, ?_, rfl, ?_⟩⟩
  · exact (congrArg (BitVec.setWidth 32) hreadScid).trans (setWidth_id hscid (by decide))
  · exact (congrArg (BitVec.setWidth 32) hreadVcid).trans (setWidth_id hvcid (by decide))
  · have hbits : getBits (fill config seq n h).idAndScid BYPASS_FLAG_MASK =
        config.bypass.toBits.setWidth 16 := hreadBypass
    rw [TelecommandTransferFrameHeader.bypassFlag, hbits]
    cases config.bypass <;> rfl
  · have hbits : getBits (fill config seq n h).idAndScid CONTROL_FLAG_MASK =
        config.control.toBits.setWidth 16 := hreadControl
    rw [TelecommandTransferFrameHeader.controlFlag, hbits]
    cases config.control <;> rfl
  · exact TelecommandTransferFrameHeader.frameLen_setFrameLen _
      (show 0 < HEADER_SIZE + n by rw [HEADER_SIZE]; omega) hlen

end Tc

/-! ## Telemetry frames -/

namespace Tm

open TelemetryTransferFrame

def versionField : Field 16 := ⟨VERSION_MASK, 14, 2, spans_of_eq rfl (by decide) (by decide)⟩
def scidField : Field 16 := ⟨SCID_MASK, 4, 10, spans_of_eq rfl (by decide) (by decide)⟩
def vcidField : Field 16 := ⟨VCID_MASK, 1, 3, spans_of_eq rfl (by decide) (by decide)⟩
def pointerField : Field 16 :=
  ⟨FIRST_HEADER_POINTER_MASK, 0, 11, spans_of_eq rfl (by decide) (by decide)⟩

structure Says (h : TelemetryTransferFrameHeader) (version : UInt8) (scid : Scid) (vcid : Vcid)
    (mcFrameCount vcFrameCount : UInt8) (firstHeaderPointer : BitVec 16) : Prop where
  version : h.version = version.toBitVec
  scid : h.scid = scid
  vcid : h.vcid = vcid
  mcFrameCount : h.mcFrameCount = mcFrameCount
  vcFrameCount : h.vcFrameCount = vcFrameCount
  firstHeaderPointer : h.firstHeaderPointer = firstHeaderPointer

theorem says_built_iff {version : UInt8} {scid : Scid} {vcid : Vcid} (hscid : numBits scid ≤ 10)
    (hvcid : numBits vcid ≤ 3) (mcFrameCount vcFrameCount : UInt8)
    {firstHeaderPointer : BitVec 16} (h : TelemetryTransferFrameHeader) :
    Says (built version scid vcid mcFrameCount vcFrameCount firstHeaderPointer h) version scid vcid
      mcFrameCount vcFrameCount firstHeaderPointer ↔
      version.toNat < 2 ^ 2 ∧ firstHeaderPointer.toNat < 2 ^ 11 := by
  constructor
  · intro hsays
    exact ⟨toNat_of_read versionField.spans hsays.version,
      hsays.firstHeaderPointer ▸ toNat_getBits_lt pointerField.spans _⟩
  · intro hfits
    obtain ⟨hreadVersion, hreadScid, hreadVcid, -⟩ := reads_assemble h.versionScidVcidAndOcf
      [(versionField, version.toBitVec.setWidth 16), (scidField, scid.setWidth 16),
        (vcidField, vcid.setWidth 16)]
      (by decide : [versionField, scidField, vcidField].Pairwise Field.Apart)
      ⟨fits_narrow hfits.1, fits_of_numBits hscid, fits_of_numBits hvcid, trivial⟩
    refine ⟨?_, ?_, ?_, rfl, rfl, ?_⟩
    · exact (congrArg (BitVec.setWidth 8) hreadVersion).trans (setWidth_narrow (by decide) _)
    · exact (congrArg (BitVec.setWidth 32) hreadScid).trans (setWidth_id hscid (by decide))
    · exact (congrArg (BitVec.setWidth 32) hreadVcid).trans (setWidth_id hvcid (by decide))
    · exact getBits_setBits_self pointerField.spans (fits_of_toNat_lt hfits.2) _

end Tm

/-! ## Frames of the advanced orbiting systems -/

namespace Aos

open AosTransferFrame

def versionField : Field 16 := ⟨VERSION_MASK, 14, 2, spans_version⟩
def scidField : Field 16 := ⟨SCID_MASK, 6, 8, spans_scid⟩
def vcidField : Field 16 := ⟨VCID_MASK, 0, 6, spans_vcid⟩
def replayField : Field 8 := ⟨REPLAY_FLAG_MASK, 7, 1, spans_of_eq rfl (by decide) (by decide)⟩
def usageField : Field 8 := ⟨USAGE_FLAG_MASK, 6, 1, spans_of_eq rfl (by decide) (by decide)⟩

structure Says (h : AosPrimaryHeader) (scid : Scid) (vcid : Vcid) (vcFrameCount : UInt32)
    (replayFlag usageFlag : Bool) : Prop where
  version : h.version = AOS_VERSION
  scid : h.scid = scid
  vcid : h.vcid = vcid
  vcFrameCount : h.readVcFrameCount = vcFrameCount
  isReplay : h.isReplay = replayFlag
  usageFlag : h.usageFlag = usageFlag

theorem readVcFrameCount_eq_iff {count : UInt32} :
    UInt32.ofBitVec ((count.toBitVec.setWidth 24).setWidth 32) = count ↔ count.toNat < 2 ^ 24 := by
  rw [← UInt32.toNat_inj, UInt32.toNat_ofBitVec, BitVec.toNat_setWidth, BitVec.toNat_setWidth]
  show count.toNat % 2 ^ 24 % 2 ^ 32 = count.toNat ↔ _
  have hlt : count.toNat < 2 ^ 32 := count.toNat_lt
  omega

theorem says_built_iff {scid : Scid} {vcid : Vcid} {vcFrameCount : UInt32}
    (replayFlag usageFlag : Bool) (h : AosPrimaryHeader) :
    Says (built scid vcid vcFrameCount replayFlag usageFlag h) scid vcid vcFrameCount replayFlag
      usageFlag ↔ numBits scid ≤ 8 ∧ numBits vcid ≤ 6 ∧ vcFrameCount.toNat < 2 ^ 24 := by
  constructor
  · intro hsays
    exact ⟨numBits_of_read scidField.spans hsays.scid, numBits_of_read vcidField.spans hsays.vcid,
      readVcFrameCount_eq_iff.1 hsays.vcFrameCount⟩
  · intro hfits
    obtain ⟨hscid, hvcid, hcount⟩ := hfits
    obtain ⟨hreadVersion, hreadScid, hreadVcid, -⟩ := reads_assemble h.versionScidVcidField
      [(versionField, AOS_VERSION.setWidth 16), (scidField, scid.setWidth 16),
        (vcidField, vcid.setWidth 16)]
      (by decide : [versionField, scidField, vcidField].Pairwise Field.Apart)
      ⟨fits_narrow (by decide), fits_of_numBits hscid, fits_of_numBits hvcid, trivial⟩
    obtain ⟨hreadReplay, hreadUsage, -⟩ := reads_assemble h.replayUsageSpareField
      [(replayField, if replayFlag then 1 else 0), (usageField, if usageFlag then 1 else 0)]
      (by decide : [replayField, usageField].Pairwise Field.Apart)
      ⟨by cases replayFlag <;> exact fits_of_toNat_lt (by decide),
        by cases usageFlag <;> exact fits_of_toNat_lt (by decide), trivial⟩
    refine ⟨?_, ?_, ?_, readVcFrameCount_eq_iff.2 hcount, ?_, ?_⟩
    · exact (congrArg (BitVec.setWidth 8) hreadVersion).trans (setWidth_narrow (by decide) _)
    · exact (congrArg (BitVec.setWidth 32) hreadScid).trans (setWidth_id hscid (by decide))
    · exact (congrArg (BitVec.setWidth 32) hreadVcid).trans (setWidth_id hvcid (by decide))
    · refine (congrArg (fun bits => bits != 0) hreadReplay).trans ?_
      cases replayFlag <;> rfl
    · refine (congrArg (fun bits => bits != 0) hreadUsage).trans ?_
      cases usageFlag <;> rfl

end Aos

/-! ## Proximity frames -/

namespace Proximity1

open Proximity1TransferFrame

def versionField : Field 16 := ⟨VERSION_MASK, 14, 2, spans_version⟩
def qosField : Field 16 := ⟨QOS_MASK, 13, 1, spans_qos⟩
def pduTypeField : Field 16 := ⟨PDU_TYPE_MASK, 12, 1, spans_pduType⟩
def dfcIdField : Field 16 := ⟨DFC_ID_MASK, 10, 2, spans_dfcId⟩
def scidField : Field 16 := ⟨SCID_MASK, 0, 10, spans_scid⟩
def pcidField : Field 16 := ⟨PCID_MASK, 15, 1, spans_of_eq rfl (by decide) (by decide)⟩
def portIdField : Field 16 := ⟨PORT_ID_MASK, 12, 3, spans_of_eq rfl (by decide) (by decide)⟩
def srcDestField : Field 16 := ⟨SRC_DEST_MASK, 11, 1, spans_of_eq rfl (by decide) (by decide)⟩
def frameLenField : Field 16 := ⟨FRAME_LEN_MASK, 0, 11, spans_frameLen⟩

structure Says (h : Proximity1Header) (scid : Scid) (qos : QoS) (pduType : PduType)
    (dfcId : DfcId) (pcid : Bool) (portId : BitVec 8) (srcDest : SrcDest) (fsn : UInt8)
    (frameLen : Nat) : Prop where
  version : h.version = PROXIMITY1_VERSION
  qos : h.qos = qos
  pduType : h.pduType = pduType
  dfcId : h.dfcId = dfcId
  scid : h.scid = scid
  pcid : h.pcid = pcid
  portId : h.portId = portId
  srcDest : h.srcDest = srcDest
  frameLen : h.frameLen = frameLen
  fsn : h.fsn = fsn

theorem says_buildHeader {scid : Scid} {portId : BitVec 8} (hscid : numBits scid ≤ 10)
    (hport : portId ≤ 0x07) (qos : QoS) (pduType : PduType) (dfcId : DfcId) (pcid : Bool)
    (srcDest : SrcDest) (fsn : UInt8) {totalLen : Nat} (hpos : 0 < totalLen)
    (hmax : totalLen ≤ 2048) (h : Proximity1Header) :
    Says (buildHeader h scid qos pduType dfcId pcid portId srcDest fsn totalLen) scid qos pduType
      dfcId pcid portId srcDest fsn totalLen := by
  have hport : portId.toNat < 2 ^ 3 := Nat.lt_succ_of_le (BitVec.le_def.1 hport)
  have htotal : (BitVec.ofNat 16 (totalLen - 1)).toNat < 2 ^ 11 := by
    rw [BitVec.toNat_ofNat]
    omega
  obtain ⟨-, hqos, hpduType, hdfcId, hreadScid, -⟩ := reads_assemble h.versionQosPduDfcScid
    [(versionField, PROXIMITY1_VERSION.setWidth 16), (qosField, qos.toBits.setWidth 16),
      (pduTypeField, pduType.toBits.setWidth 16), (dfcIdField, dfcId.toBits.setWidth 16),
      (scidField, scid.setWidth 16)]
    (by decide : [versionField, qosField, pduTypeField, dfcIdField, scidField].Pairwise Field.Apart)
    ⟨fits_narrow (by decide), fits_setWidth qos.toBits, fits_setWidth pduType.toBits,
      fits_setWidth dfcId.toBits, fits_of_numBits hscid, trivial⟩
  obtain ⟨hpcid, hportId, hsrcDest, -, -⟩ := reads_assemble h.pcidPortSrcdstLen
    [(pcidField, (BitVec.ofBool pcid).setWidth 16), (portIdField, portId.setWidth 16),
      (srcDestField, srcDest.toBits.setWidth 16),
      (frameLenField, BitVec.ofNat 16 (totalLen - 1))]
    (by decide : [pcidField, portIdField, srcDestField, frameLenField].Pairwise Field.Apart)
    ⟨fits_setWidth (BitVec.ofBool pcid), fits_narrow hport, fits_setWidth srcDest.toBits,
      fits_of_toNat_lt htotal, trivial⟩
  let built := buildHeader h scid qos pduType dfcId pcid portId srcDest fsn totalLen
  refine ⟨version_buildHeader h hscid .., ?_, ?_, ?_, ?_, ?_, ?_, ?_, ?_, rfl⟩
  · have hbits : getBits built.versionQosPduDfcScid QOS_MASK = qos.toBits.setWidth 16 := hqos
    rw [Proximity1Header.qos, hbits]
    cases qos <;> rfl
  · have hbits : getBits built.versionQosPduDfcScid PDU_TYPE_MASK = pduType.toBits.setWidth 16 :=
      hpduType
    rw [Proximity1Header.pduType, hbits]
    cases pduType <;> rfl
  · have hbits : getBits built.versionQosPduDfcScid DFC_ID_MASK = dfcId.toBits.setWidth 16 := hdfcId
    rw [Proximity1Header.dfcId, hbits]
    cases dfcId <;> rfl
  · exact (congrArg (BitVec.setWidth 32) hreadScid).trans (setWidth_id hscid (by decide))
  · exact (flag_iff pcidField.spans).2 hpcid
  · exact (congrArg (BitVec.setWidth 8) hportId).trans (setWidth_narrow (by decide) _)
  · have hbits : getBits built.pcidPortSrcdstLen SRC_DEST_MASK = srcDest.toBits.setWidth 16 :=
      hsrcDest
    rw [Proximity1Header.srcDest, hbits]
    cases srcDest <;> rfl
  · exact Proximity1Header.frameLen_setFrameLen _ hpos hmax

end Proximity1

/-! ## Frames of the unified protocol -/

namespace Uslp

open UslpTransferFrame

def tfvnField : Field 32 := ⟨TFVN_MASK, 28, 4, spans_tfvn⟩
def scidField : Field 32 := ⟨SCID_MASK, 12, 16, spans_scid⟩
def srcDestField : Field 32 := ⟨SRC_DEST_MASK, 11, 1, spans_srcDest⟩
def vcidField : Field 32 := ⟨VCID_MASK, 5, 6, spans_vcid⟩
def mapIdField : Field 32 := ⟨MAP_ID_MASK, 1, 4, spans_mapId⟩
def eofphField : Field 32 := ⟨EOFPH_MASK, 0, 1, spans_eofph⟩
def bypassField : Field 8 := ⟨BYPASS_FLAG_MASK, 7, 1, spans_of_eq rfl (by decide) (by decide)⟩
def pccField : Field 8 := ⟨PCC_FLAG_MASK, 6, 1, spans_of_eq rfl (by decide) (by decide)⟩
def ocfField : Field 8 := ⟨OCF_FLAG_MASK, 3, 1, spans_ocfFlag⟩
def vcfCountLenField : Field 8 := ⟨VCF_COUNT_LEN_MASK, 0, 3, spans_vcfCountLen⟩
def tfdzRulesField : Field 8 := ⟨TFDZ_RULES_MASK, 5, 3, spans_tfdzRules⟩
def upidField : Field 8 := ⟨UPID_MASK, 0, 5, spans_upid⟩

structure Says (h : UslpPrimaryHeaderFixed) (scid : Scid) (vcid : Vcid) (sourceOrDest : Bool)
    (mapId : BitVec 8) (bypass protocolControlCommand ocfFlag : Bool) (vcfCountLength : BitVec 8)
    (frameLen : Nat) : Prop where
  tfvn : h.tfvn = USLP_TFVN
  scid : h.scid = scid
  sourceOrDest : h.sourceOrDest = sourceOrDest
  vcid : h.vcid = vcid
  mapId : h.mapId = mapId
  eofph : h.eofph = false
  frameLength : h.frameLength.toNat + 1 = frameLen
  bypass : h.bypass = bypass
  protocolControlCommand : h.protocolControlCommand = protocolControlCommand
  ocfFlag : h.ocfFlag = ocfFlag
  vcfCountLength : h.vcfCountLength = vcfCountLength

theorem says_buildHeader_iff {scid : Scid} {vcid : Vcid} {mapId vcfCountLength : BitVec 8}
    (hvcid : numBits vcid ≤ 6) (hmapId : mapId ≤ 15) (hvcf : vcfCountLength ≤ 7)
    (sourceOrDest bypass protocolControlCommand ocfFlag : Bool) {providedLen : Nat}
    (hpos : 0 < providedLen) (hmax : providedLen ≤ MAX_FRAME_SIZE) :
    Says (buildHeader scid vcid sourceOrDest mapId bypass protocolControlCommand ocfFlag
        vcfCountLength providedLen) scid vcid sourceOrDest mapId bypass protocolControlCommand
        ocfFlag vcfCountLength providedLen ↔ numBits scid ≤ 16 := by
  constructor
  · intro hsays
    rw [numBits_le_iff, ← hsays.scid]
    exact toNat_getBits_lt scidField.spans _
  · intro hscid
    have hmap : mapId.toNat < 2 ^ 4 := Nat.lt_succ_of_le (BitVec.le_def.1 hmapId)
    have hcount : vcfCountLength.toNat < 2 ^ 3 := Nat.lt_succ_of_le (BitVec.le_def.1 hvcf)
    obtain ⟨-, hreadScid, hsource, hreadVcid, hreadMap, -, -⟩ := reads_assemble 0#32
      [(tfvnField, USLP_TFVN.setWidth 32), (scidField, scid),
        (srcDestField, (bit sourceOrDest).setWidth 32), (vcidField, vcid),
        (mapIdField, mapId.setWidth 32), (eofphField, (bit false).setWidth 32)]
      (by decide : [tfvnField, scidField, srcDestField, vcidField, mapIdField,
        eofphField].Pairwise Field.Apart)
      ⟨fits_narrow (by decide), fits_of_toNat_lt (numBits_le_iff.1 hscid),
        fits_setWidth (bit sourceOrDest), fits_of_toNat_lt (numBits_le_iff.1 hvcid),
        fits_narrow hmap, fits_setWidth (bit false), trivial⟩
    obtain ⟨hbypass, hpcc, -, -, -⟩ := reads_assemble 0#8
      [(bypassField, (bit bypass).setWidth 8), (pccField, (bit protocolControlCommand).setWidth 8),
        (ocfField, (bit ocfFlag).setWidth 8), (vcfCountLenField, vcfCountLength)]
      (by decide : [bypassField, pccField, ocfField, vcfCountLenField].Pairwise Field.Apart)
      ⟨fits_setWidth (bit bypass), fits_setWidth (bit protocolControlCommand),
        fits_setWidth (bit ocfFlag), fits_of_toNat_lt hcount, trivial⟩
    refine ⟨tfvn_buildHeader hscid hvcid hmapId .., hreadScid, ?_, hreadVcid, ?_,
      eofph_buildHeader .., ?_, ?_, ?_, ocfFlag_buildHeader hvcf ..,
      vcfCountLength_buildHeader hvcf ..⟩
    · exact (flag_iff srcDestField.spans).2 hsource
    · exact (congrArg (BitVec.setWidth 8) hreadMap).trans (setWidth_narrow (by decide) _)
    · show (BitVec.ofNat 16 (providedLen - 1)).toNat + 1 = providedLen
      rw [MAX_FRAME_SIZE] at hmax
      rw [BitVec.toNat_ofNat, Nat.mod_eq_of_lt (by omega)]
      omega
    · exact (flag_iff bypassField.spans).2 hbypass
    · exact (flag_iff pccField.spans).2 hpcc

theorem vcfCount_eq {header : UslpPrimaryHeaderFixed} {body : Bytes} {len : BitVec 8}
    (hlen : header.vcfCountLength = len) (vcfCount : UInt64) (rest : Bytes)
    (hbody : body = BigEndian.encode len.toNat vcfCount.toNat ++ rest) :
    UslpTransferFrame.vcfCount ⟨header, body⟩ =
      some (.ofNat (vcfCount.toNat % 256 ^ len.toNat)) := by
  have hencode : (BigEndian.encode len.toNat vcfCount.toNat).length = len.toNat :=
    BigEndian.length_encode ..
  unfold UslpTransferFrame.vcfCount
  dsimp only
  rw [hlen, hbody, if_neg (by rw [List.length_append, hencode]; omega), List.take_left' hencode,
    BigEndian.decode_encode]

theorem count_eq_iff {count : UInt64} {k : Nat} :
    UInt64.ofNat (count.toNat % 256 ^ k) = count ↔ count.toNat < 256 ^ k := by
  have hpos : 0 < 256 ^ k := Nat.pow_pos (by decide)
  rw [← UInt64.toNat_inj, UInt64.toNat_ofNat_of_lt'
    (Nat.lt_of_le_of_lt (Nat.mod_le ..) count.toNat_lt),
    Nat.mod_eq_iff_lt (Nat.pos_iff_ne_zero.1 hpos)]

end Uslp

end Datalink
end Leodos
