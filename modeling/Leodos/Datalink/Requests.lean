/-
Headers that are asked for.

The builders of the formats, the writers that stamp frames, the headers of the extended
procedures and those of encapsulation packets are asked for a header with given values.  The
header says exactly that when every value that is not checked fits its field.
-/
import Leodos.Datalink.ExtendedProcedures
import Leodos.Datalink.Headers
import Leodos.Datalink.Residue
import Leodos.Spp.Encapsulation

namespace Leodos
namespace Datalink

open Bits Memory Spp

/-! ## The header of a stamped frame -/

namespace Tc

open TelecommandTransferFrame

theorem ofBytes_write {buffer : Bytes} (h : TelecommandTransferFrameHeader)
    (hroom : HEADER_SIZE ≤ buffer.length) :
    TelecommandTransferFrameHeader.ofBytes (write buffer 0 h.asBytes) = h := by
  have hlen : h.asBytes.length ≤ buffer.length := hroom
  rw [write_zero hlen]
  exact TelecommandTransferFrameHeader.ofBytes_asBytes h _

theorem new_exact_iff {buffer : Bytes} {config : TcFrameWriterConfig} {seq : UInt8} {n : Nat} :
    (∀ frame, TelecommandTransferFrame.new buffer config.scid config.vcid config.bypass
        config.control seq n = .ok frame →
      Says (.ofBytes frame) config.scid config.vcid config.bypass config.control seq
        (HEADER_SIZE + n)) ↔
      (Accepts config n → HEADER_SIZE + n ≤ buffer.length →
        getBits (TelecommandTransferFrameHeader.ofBytes buffer).idAndScid VERSION_MASK = 0) := by
  constructor
  · intro hexact haccepts hroom
    have hsays := hexact _ (new_eq_ok_iff.2 ⟨haccepts, hroom, rfl⟩)
    rw [ofBytes_write _ (Nat.le_trans (Nat.le_add_right ..) hroom)] at hsays
    exact (says_fill_iff haccepts seq _).1 hsays
  · intro hversion frame hnew
    obtain ⟨haccepts, hroom, hframe⟩ := new_eq_ok_iff.1 hnew
    rw [hframe, ofBytes_write _ (Nat.le_trans (Nat.le_add_right ..) hroom)]
    exact (says_fill_iff haccepts seq _).2 (hversion haccepts hroom)

theorem version_of_clean {h : TelecommandTransferFrameHeader} (hc : Clean h) :
    getBits h.idAndScid VERSION_MASK = 0 :=
  (Agree.getBits hc (by decide)).trans (by decide)

end Tc

namespace Tm

open TelemetryTransferFrame

theorem ofBytes_write {buffer : Bytes} (h : TelemetryTransferFrameHeader)
    (hroom : HEADER_SIZE ≤ buffer.length) :
    TelemetryTransferFrameHeader.ofBytes (write buffer 0 h.asBytes) = h := by
  have hlen : h.asBytes.length ≤ buffer.length := hroom
  rw [write_zero hlen]
  show (⟨Bits.ofBytes (highByte h.versionScidVcidAndOcf) (lowByte h.versionScidVcidAndOcf),
    h.mcFrameCount, h.vcFrameCount,
    Bits.ofBytes (highByte h.dataFieldStatus) (lowByte h.dataFieldStatus)⟩ :
      TelemetryTransferFrameHeader) = h
  rw [ofBytes_bytes, ofBytes_bytes]

theorem new_exact_iff {buffer : Bytes} {version : UInt8} {scid : Scid} {vcid : Vcid}
    {mcFrameCount vcFrameCount : UInt8} {firstHeaderPointer : BitVec 16} :
    (∀ frame, TelemetryTransferFrame.new buffer version scid vcid mcFrameCount vcFrameCount
        firstHeaderPointer = .ok frame →
      Says (.ofBytes frame) version scid vcid mcFrameCount vcFrameCount firstHeaderPointer) ↔
      (HEADER_SIZE ≤ buffer.length → numBits scid ≤ 10 → numBits vcid ≤ 3 →
        version.toNat < 2 ^ 2 ∧ firstHeaderPointer.toNat < 2 ^ 11) := by
  constructor
  · intro hexact hroom hscid hvcid
    have hsays := hexact _ (new_eq_ok_iff.2 ⟨hroom, hscid, hvcid, rfl⟩)
    rw [ofBytes_write _ hroom] at hsays
    exact (says_built_iff hscid hvcid ..).1 hsays
  · intro hfits frame hnew
    obtain ⟨hroom, hscid, hvcid, hframe⟩ := new_eq_ok_iff.1 hnew
    rw [hframe, ofBytes_write _ hroom]
    exact (says_built_iff hscid hvcid ..).2 (hfits hroom hscid hvcid)

end Tm

namespace Aos

open AosTransferFrame

theorem ofBytes_write {buffer : Bytes} (h : AosPrimaryHeader)
    (hroom : HEADER_SIZE ≤ buffer.length) :
    AosPrimaryHeader.ofBytes (write buffer 0 h.asBytes) = h := by
  have hlen : h.asBytes.length = HEADER_SIZE := AosPrimaryHeader.length_asBytes h
  rw [write_zero (by rw [hlen]; exact hroom)]
  exact ofBytes_asBytes h _

theorem new_exact_iff {buffer payload : Bytes} {scid : Scid} {vcid : Vcid} {vcFrameCount : UInt32}
    {replayFlag usageFlag : Bool} :
    (∀ frame, AosTransferFrame.new buffer scid vcid vcFrameCount replayFlag usageFlag payload =
        .ok frame → Says (.ofBytes frame) scid vcid vcFrameCount replayFlag usageFlag) ↔
      (HEADER_SIZE + payload.length ≤ buffer.length → numBits vcid ≤ 6 →
        numBits scid ≤ 8 ∧ vcFrameCount.toNat < 2 ^ 24) := by
  have hread : ∀ h : AosPrimaryHeader, HEADER_SIZE + payload.length ≤ buffer.length →
      AosPrimaryHeader.ofBytes (write (write buffer 0 h.asBytes) HEADER_SIZE payload) = h := by
    intro h hroom
    have htake : (write (write buffer 0 h.asBytes) HEADER_SIZE payload).take HEADER_SIZE =
        (write buffer 0 h.asBytes).take HEADER_SIZE := take_write_of_le (Nat.le_refl _)
    have hsame : AosPrimaryHeader.ofBytes (write (write buffer 0 h.asBytes) HEADER_SIZE payload) =
        AosPrimaryHeader.ofBytes (write buffer 0 h.asBytes) := by
      unfold AosPrimaryHeader.ofBytes
      rw [getD_of_take htake (by decide : 0 < 6), getD_of_take htake (by decide : 1 < 6),
        getD_of_take htake (by decide : 2 < 6), getD_of_take htake (by decide : 3 < 6),
        getD_of_take htake (by decide : 4 < 6), getD_of_take htake (by decide : 5 < 6)]
    rw [hsame]
    exact ofBytes_write h (Nat.le_trans (Nat.le_add_right ..) hroom)
  constructor
  · intro hexact hroom hvcid
    have hsays := hexact _ (new_eq_ok_iff.2 ⟨hroom, hvcid, rfl⟩)
    rw [hread _ hroom] at hsays
    obtain ⟨hscid, -, hcount⟩ := (says_built_iff ..).1 hsays
    exact ⟨hscid, hcount⟩
  · intro hfits frame hnew
    obtain ⟨hroom, hvcid, hframe⟩ := new_eq_ok_iff.1 hnew
    obtain ⟨hscid, hcount⟩ := hfits hroom hvcid
    rw [hframe, hread _ hroom]
    exact (says_built_iff ..).2 ⟨hscid, hvcid, hcount⟩

end Aos

namespace Proximity1

open Proximity1TransferFrame

theorem new_says {buffer frame : Bytes} {scid : Scid} {qos : QoS} {pduType : PduType}
    {dfcId : DfcId} {pcid : Bool} {portId : BitVec 8} {srcDest : SrcDest} {fsn : UInt8} {n : Nat}
    (hnew : Proximity1TransferFrame.new buffer scid qos pduType dfcId pcid portId srcDest fsn n =
      .ok frame) :
    Says (.ofBytes frame) scid qos pduType dfcId pcid portId srcDest fsn (HEADER_SIZE + n) := by
  obtain ⟨hscid, hport, hn, hroom, hframe⟩ := new_eq_ok_iff.1 hnew
  have hread : ∀ h : Proximity1Header,
      Proximity1Header.ofBytes (write buffer 0 h.asBytes) = h := by
    intro h
    have hlen : h.asBytes.length ≤ buffer.length := Nat.le_trans (Nat.le_add_right ..) hroom
    rw [write_zero hlen]
    exact Proximity1Header.ofBytes_asBytes h _
  have hmax : HEADER_SIZE + n ≤ 2048 := by
    rw [HEADER_SIZE]
    rw [MAX_DATA_FIELD_LEN] at hn
    omega
  rw [hframe, hread]
  exact says_buildHeader hscid hport qos pduType dfcId pcid srcDest fsn
    (Nat.lt_of_lt_of_le (by decide) (Nat.le_add_right ..)) hmax _

end Proximity1

namespace Uslp

open UslpTransferFrame

def Builds (buffer : Bytes) (vcid : Vcid) (mapId vcfCountLength : BitVec 8) : Prop :=
  numBits vcid ≤ 6 ∧ mapId ≤ 15 ∧ vcfCountLength ≤ 7 ∧
    FIXED_HEADER_SIZE + vcfCountLength.toNat ≤ buffer.length ∧ buffer.length ≤ MAX_FRAME_SIZE

theorem new_exact_iff {buffer : Bytes} {scid : Scid} {vcid : Vcid} {sourceOrDest : Bool}
    {mapId : BitVec 8} {bypass protocolControlCommand ocfFlag : Bool} {vcfCountLength : BitVec 8}
    {vcfCount : UInt64} :
    (∀ frame, UslpTransferFrame.new buffer scid vcid sourceOrDest mapId bypass
        protocolControlCommand ocfFlag vcfCountLength vcfCount = .ok frame →
      Says frame.header scid vcid sourceOrDest mapId bypass protocolControlCommand ocfFlag
        vcfCountLength buffer.length ∧ frame.vcfCount = some vcfCount) ↔
      (Builds buffer vcid mapId vcfCountLength →
        numBits scid ≤ 16 ∧ vcfCount.toNat < 256 ^ vcfCountLength.toNat) := by
  have hiff : Builds buffer vcid mapId vcfCountLength →
      (Says (buildHeader scid vcid sourceOrDest mapId bypass protocolControlCommand ocfFlag
          vcfCountLength buffer.length) scid vcid sourceOrDest mapId bypass protocolControlCommand
          ocfFlag vcfCountLength buffer.length ∧
        UslpTransferFrame.vcfCount ⟨buildHeader scid vcid sourceOrDest mapId bypass
          protocolControlCommand ocfFlag vcfCountLength buffer.length,
          write (buffer.drop FIXED_HEADER_SIZE) 0
            (BigEndian.encode vcfCountLength.toNat vcfCount.toNat)⟩ = some vcfCount ↔
      numBits scid ≤ 16 ∧ vcfCount.toNat < 256 ^ vcfCountLength.toNat) := by
    intro hbuilds
    obtain ⟨hvcid, hmapId, hvcf, hroom, hmax⟩ := hbuilds
    have hpos : 0 < buffer.length :=
      Nat.lt_of_lt_of_le (by rw [FIXED_HEADER_SIZE]; omega) hroom
    have hfits : (BigEndian.encode vcfCountLength.toNat vcfCount.toNat).length ≤
        (buffer.drop FIXED_HEADER_SIZE).length := by
      rw [BigEndian.length_encode, List.length_drop]
      omega
    rw [says_buildHeader_iff hvcid hmapId hvcf _ _ _ _ hpos hmax,
      vcfCount_eq (vcfCountLength_buildHeader hvcf ..) vcfCount _ (write_zero hfits),
      Option.some_inj, count_eq_iff]
  constructor
  · intro hexact hbuilds
    exact (hiff hbuilds).1 (hexact _ (new_eq_ok_iff.2 ⟨hbuilds, rfl⟩))
  · intro hfits frame hnew
    obtain ⟨hbuilds, hframe⟩ := new_eq_ok_iff.1 hnew
    rw [hframe]
    exact (hiff hbuilds).2 (hfits hbuilds)

end Uslp

/-! ## The header of a frame that a writer finishes -/

namespace Uslp

open UslpTransferFrame

structure SaysZone (f : UslpTransferFrame) (insertZoneLen : Nat) (rule : TfdzRule)
    (upid : BitVec 8) : Prop where
  tfdzRule : f.tfdzRule insertZoneLen = some rule
  upid : f.upid insertZoneLen = some upid
  pointer : f.pointer insertZoneLen = some (if rule.hasPointer then some 0 else none)

variable {config : UslpFrameWriterConfig}

theorem saysZone_iff {f : UslpTransferFrame} {front rest : Bytes}
    (hfront : front.length = f.tfdfOffset config.insertZoneLen)
    (hbody : f.body = front ++ (zoneHeader config ++ rest)) :
    SaysZone f config.insertZoneLen config.tfdzRule config.upid ↔ config.upid.toNat < 32 := by
  let octet := setBits (setBits 0 TFDZ_RULES_MASK (config.tfdzRule.toBits.setWidth 8)) UPID_MASK
    config.upid
  have hget : ∀ i, f.body[f.tfdfOffset config.insertZoneLen + i]? =
      (zoneHeader config ++ rest)[i]? := by
    intro i
    rw [hbody, ← hfront, List.getElem?_append_right (Nat.le_add_right ..), Nat.add_sub_cancel_left]
  have hoctet : f.body[f.tfdfOffset config.insertZoneLen]? = some (UInt8.ofBitVec octet) := by
    rw [← Nat.add_zero (f.tfdfOffset config.insertZoneLen), hget 0]
    rfl
  have hupid : f.upid config.insertZoneLen = some (getBits octet UPID_MASK) := by
    rw [UslpTransferFrame.upid, hoctet]
    rfl
  constructor
  · intro hsays
    have hread := hsays.upid
    rw [hupid, Option.some_inj] at hread
    rw [← hread]
    exact toNat_getBits_lt upidField.spans _
  · intro hlt
    have hrule : f.tfdzRule config.insertZoneLen = some config.tfdzRule := by
      rw [tfdzRule, hoctet]
      exact congrArg some (rule_octet config.tfdzRule hlt)
    refine ⟨hrule, ?_, ?_⟩
    · rw [hupid]
      exact congrArg some (getBits_setBits_self upidField.spans (fits_of_toNat_lt hlt) _)
    · rw [UslpTransferFrame.pointer, hrule]
      dsimp only
      cases hpointer : config.tfdzRule.hasPointer with
      | false => rfl
      | true =>
        have hzone : zoneHeader config = [UInt8.ofBitVec octet, 0, 0] := by
          rw [zoneHeader, hpointer]
          exact congrArg (UInt8.ofBitVec octet :: ·) (if_pos rfl)
        rw [if_pos rfl, hget 1, hget 2, hzone]
        rfl

structure FrameSays (config : UslpFrameWriterConfig) (vcfCount : UInt64) (frameLen : Nat)
    (f : UslpTransferFrame) : Prop where
  header : Says f.header config.scid config.vcid false config.mapId config.bypass
    config.protocolControlCommand config.ocfFlag config.vcfCountLength frameLen
  /-- The count goes on in as many octets as the header has for it. -/
  vcfCount : f.vcfCount = some (.ofNat (vcfCount.toNat % 256 ^ config.vcfCountLength.toNat))
  zone : SaysZone f config.insertZoneLen config.tfdzRule config.upid

theorem frameSays_iff {bytes rest : Bytes} (haccepts : Accepts config bytes.length)
    (hroom : config.dataZoneOffset ≤ bytes.length) (vcfCount : UInt64) :
    ∃ f, refFromBytes (headerOctets config vcfCount bytes ++ rest) = some f ∧
      (FrameSays config vcfCount bytes.length f ↔
        numBits config.scid ≤ 16 ∧ config.upid.toNat < 32) := by
  obtain ⟨hvcid, hmapId, hvcf, hmax⟩ := haccepts
  have hoff : config.dataZoneOffset = FIXED_HEADER_SIZE + config.vcfCountLength.toNat +
    config.insertZoneLen + config.tfdzRule.tfdfHeaderLen := rfl
  have hpos : 0 < bytes.length := Nat.lt_of_lt_of_le (by rw [hoff, FIXED_HEADER_SIZE]; omega) hroom
  let header := buildHeader config.scid config.vcid false config.mapId config.bypass
    config.protocolControlCommand config.ocfFlag config.vcfCountLength bytes.length
  let front := BigEndian.encode config.vcfCountLength.toNat vcfCount.toNat ++
    slice bytes (FIXED_HEADER_SIZE + config.vcfCountLength.toNat) config.insertZoneLen
  let f : UslpTransferFrame := ⟨header, front ++ (zoneHeader config ++ rest)⟩
  have hbytes : headerOctets config vcfCount bytes ++ rest = f.asBytes := by
    show _ = header.asBytes ++ (front ++ (zoneHeader config ++ rest))
    rw [headerOctets]
    simp only [List.append_assoc, front, header]
  have hcountLen : f.header.vcfCountLength = config.vcfCountLength :=
    vcfCountLength_buildHeader hvcf ..
  have hfront : front.length = f.tfdfOffset config.insertZoneLen := by
    rw [tfdfOffset, hcountLen, List.length_append, BigEndian.length_encode,
      slice_length (by omega)]
  have hcount : f.vcfCount =
      some (.ofNat (vcfCount.toNat % 256 ^ config.vcfCountLength.toNat)) := by
    apply vcfCount_eq hcountLen vcfCount
      (slice bytes (FIXED_HEADER_SIZE + config.vcfCountLength.toNat) config.insertZoneLen ++
        (zoneHeader config ++ rest))
    exact List.append_assoc ..
  have hheader := @says_buildHeader_iff config.scid _ _ _ hvcid hmapId hvcf false config.bypass
    config.protocolControlCommand config.ocfFlag _ hpos hmax
  have hzone := saysZone_iff hfront rfl
  refine ⟨f, by rw [hbytes, refFromBytes_asBytes], ?_⟩
  constructor
  · intro hsays
    exact ⟨hheader.1 hsays.header, hzone.1 hsays.zone⟩
  · intro hfits
    exact ⟨hheader.2 hfits.1, hcount, hzone.2 hfits.2⟩

end Uslp

namespace FrameConfig

def Says : (config : FrameConfig) → config.writer.Counters → Nat → Bytes → Prop
  | tc config => fun seq n frame => Tc.Says (.ofBytes frame) config.scid config.vcid config.bypass
      config.control seq (Tc.TelecommandTransferFrame.HEADER_SIZE + n)
  | tm config => fun counters _ frame => Tm.Says (.ofBytes frame) 0 config.scid config.vcid
      counters.1 counters.2 0
  | aos config => fun count _ frame => Aos.Says (.ofBytes frame) config.scid config.vcid count false
      false
  | proximity1 config => fun fsn n frame => Proximity1.Says (.ofBytes frame) config.scid config.qos
      config.pduType config.dfcId config.pcid config.portId config.srcDest fsn
      (Proximity1.Proximity1TransferFrame.HEADER_SIZE + n)
  | uslp config => fun vcfCount n frame => ∃ f,
      Uslp.UslpTransferFrame.refFromBytes frame = some f ∧
        Uslp.FrameSays config vcfCount (config.dataZoneOffset + n +
          (Uslp.ocfLen config.ocfFlag + Uslp.fecfLen config.fecfPresent)) f

/-- What is checked before a frame with that many octets of data is stamped. -/
def Accepts : FrameConfig → Nat → Prop
  | tc config => Tc.Accepts config
  | tm config => fun _ => config.InRange
  | aos _ => fun _ => True
  | proximity1 config => Proximity1.Accepts config
  | uslp config => fun n => Uslp.Accepts config (config.dataZoneOffset + n +
      (Uslp.ocfLen config.ocfFlag + Uslp.fecfLen config.fecfPresent))

/-- The values that are stamped without a check fit their fields. -/
def HeaderFits : FrameConfig → Prop
  | tc _ | tm _ | proximity1 _ => True
  | aos config => config.InRange
  | uslp config => numBits config.scid ≤ 16 ∧ config.upid.toNat < 32

def CountFits : (config : FrameConfig) → config.writer.Counters → Prop
  | aos _ => fun count => count.toNat < 2 ^ 24
  | tc _ | tm _ | proximity1 _ | uslp _ => fun _ => True

variable {config : FrameConfig} {counters : config.writer.Counters} {n : Nat} {bytes frame : Bytes}

theorem accepts_of_stamp
    (hlen : bytes.length = config.writer.dataOffset + n + config.writer.trailerLen)
    {bufLen : Nat} (h : config.writer.stamp bufLen counters n bytes = .ok frame) :
    config.Accepts n := by
  cases config with
  | tc config => exact (Tc.new_eq_ok_iff.1 h).1
  | tm config =>
    obtain ⟨-, hscid, hvcid, -⟩ := Tm.new_eq_ok_iff.1 h
    exact ⟨hscid, hvcid⟩
  | aos config => trivial
  | proximity1 config =>
    obtain ⟨hscid, hport, hn, -⟩ := Proximity1.new_eq_ok_iff.1 h
    exact ⟨⟨hscid, hport⟩, hn⟩
  | uslp config =>
    have hlen : bytes.length = config.dataZoneOffset + n +
      (Uslp.ocfLen config.ocfFlag + Uslp.fecfLen config.fecfPresent) := hlen
    simp only [writer, Uslp.UslpFrameWriter.format] at h
    split at h
    · cases h
    · rename_i hnew
      have haccepts := Uslp.accepts_of_new hnew
      rw [hlen] at haccepts
      exact haccepts

theorem says_stamp (bufLen : Nat)
    (hlen : bytes.length = config.writer.dataOffset + n + config.writer.trailerLen)
    (hclean : config.Clean bytes) (hcount : config.CountFits counters)
    (haccepts : config.Accepts n) :
    ∃ frame, config.writer.stamp bufLen counters n bytes = .ok frame ∧
      (config.Says counters n frame ↔ config.HeaderFits) := by
  cases config with
  | tc config =>
    have hroom : Tc.TelecommandTransferFrame.HEADER_SIZE + n ≤ bytes.length :=
      Nat.le_of_eq hlen.symm
    have hnew : Tc.TelecommandTransferFrame.new bytes config.scid config.vcid config.bypass
        config.control counters n =
          .ok (write bytes 0 (Tc.fill config counters n (.ofBytes bytes)).asBytes) :=
      Tc.new_eq_ok_iff.2 ⟨haccepts, hroom, rfl⟩
    exact ⟨_, hnew, iff_of_true (Tc.new_exact_iff.2 (fun _ _ => Tc.version_of_clean hclean) _ hnew)
      trivial⟩
  | tm config =>
    have hroom : Tm.TelemetryTransferFrame.HEADER_SIZE ≤ bytes.length :=
      hlen ▸ Nat.le_add_right _ n
    have hnew : Tm.TelemetryTransferFrame.new bytes 0 config.scid config.vcid
        (Prod.fst counters) (Prod.snd counters) 0 =
          .ok (write bytes 0 (Tm.fill config counters n (.ofBytes bytes)).asBytes) :=
      Tm.new_eq_ok_iff.2 ⟨hroom, haccepts.1, haccepts.2, rfl⟩
    exact ⟨_, hnew, iff_of_true (Tm.new_exact_iff.2 (fun _ _ _ => ⟨by decide, by decide⟩) _ hnew)
      trivial⟩
  | aos config =>
    have hroom : Aos.AosTransferFrame.HEADER_SIZE ≤ bytes.length := hlen ▸ Nat.le_add_right _ n
    have hcount : UInt32.toNat counters < 2 ^ 24 := hcount
    refine ⟨write bytes 0 (Aos.built config.scid config.vcid counters false false
      (.ofBytes bytes)).asBytes, ?_, ?_⟩
    · simp only [writer, Aos.AosFrameWriter.format, Aos.AosTransferFrame.refFromBytes,
        if_neg (Nat.not_lt.2 hroom)]
      rfl
    · show Aos.Says (.ofBytes _) config.scid config.vcid counters false false ↔ config.InRange
      rw [Aos.ofBytes_write _ hroom]
      exact (Aos.says_built_iff false false _).trans
        ⟨fun h => ⟨h.1, h.2.1⟩, fun h => ⟨h.1, h.2, hcount⟩⟩
  | proximity1 config =>
    have hroom : Proximity1.Proximity1TransferFrame.HEADER_SIZE + n ≤ bytes.length :=
      Nat.le_of_eq hlen.symm
    have hnew : Proximity1.Proximity1TransferFrame.new bytes config.scid config.qos config.pduType
        config.dfcId config.pcid config.portId config.srcDest counters n = .ok _ :=
      Proximity1.new_eq_ok_iff.2 ⟨haccepts.1.1, haccepts.1.2, haccepts.2, hroom, rfl⟩
    exact ⟨_, hnew, iff_of_true (Proximity1.new_says hnew) trivial⟩
  | uslp config =>
    have hlen : bytes.length = config.dataZoneOffset + n +
      (Uslp.ocfLen config.ocfFlag + Uslp.fecfLen config.fecfPresent) := hlen
    have haccepts : Uslp.Accepts config bytes.length := by
      rw [hlen]
      exact haccepts
    have hroom : config.dataZoneOffset ≤ bytes.length := by omega
    obtain ⟨built, hnew⟩ := @Uslp.new_of_accepts config counters bytes haccepts hroom
    obtain ⟨f, hview, hiff⟩ := @Uslp.frameSays_iff config bytes (bytes.drop config.dataZoneOffset)
      haccepts hroom counters
    refine ⟨Uslp.headerOctets config counters bytes ++ bytes.drop config.dataZoneOffset, ?_, ?_⟩
    · simp only [writer, Uslp.UslpFrameWriter.format, hnew]
      exact congrArg Except.ok (Uslp.stamp_eq counters hlen hnew)
    · show (∃ f, _ ∧ Uslp.FrameSays config counters _ f) ↔ _
      rw [hview, ← hlen]
      simp only [Option.some_inj, exists_eq_left']
      exact hiff

end FrameConfig

namespace History

variable {config : FrameConfig} {room : Nat} {s : History config.writer}

theorem Inv.countFits (h : s.Inv config.Clean room) : config.CountFits s.writer.counters := by
  cases config with
  | tc config => trivial
  | tm config => trivial
  | proximity1 config => trivial
  | uslp config => trivial
  | aos config =>
    rcases h.counters with hcounts | hstuck
    · rw [hcounts]
      cases s.finished.length with
      | zero => exact (by decide : (0 : UInt32).toNat < 2 ^ 24)
      | succ k =>
        have hadvance : ∀ count : UInt32, ((count + 1) &&& 0xffffff).toNat < 2 ^ 24 := by
          intro count
          rw [UInt32.toNat_and]
          exact Nat.lt_of_le_of_lt Nat.and_le_right (by decide)
        exact hadvance _
    · -- a frame with room for its header is always stamped
      obtain ⟨_, count, k, bytes, e, hlen, -, hstamp⟩ := hstuck
      have hroom : Aos.AosTransferFrame.HEADER_SIZE ≤ bytes.length := hlen ▸ Nat.le_add_right _ k
      simp only [FrameConfig.writer, Aos.AosFrameWriter.format, Aos.AosTransferFrame.refFromBytes,
        if_neg (Nat.not_lt.2 hroom)] at hstamp
      cases hstamp

theorem finish_exact_iff (h : (histories config.writer room).Reachable s) :
    (∀ frame, s.writer.finish.1 = .ok frame →
      config.Says s.writer.counters (size s.pending) frame) ↔
      (s.writer.total ≤ s.writer.buf.length → config.Accepts (size s.pending) →
        config.HeaderFits) := by
  have hinv := inv_of_reachable config.stampsHeader config.scrubs h
  have hbuf := hinv.holds.buf
  have hdata := hinv.holds.dataLen
  have hstamped := fun hroom => FrameConfig.says_stamp s.writer.buf.length
    (hinv.length_stamped hroom)
    (hinv.clean_stamped config.scrubs) hinv.countFits
  constructor
  · intro hexact hroom haccepts
    obtain ⟨frame, hstamp, hiff⟩ := hstamped (hbuf ▸ hroom) haccepts
    have hfinish : s.writer.finish.1 = .ok frame := by
      unfold FrameWriter.finish
      dsimp only
      rw [if_neg (Nat.not_lt.2 hroom), hdata, hstamp]
    exact hiff.1 (hexact frame hfinish)
  · intro hfits frame hframe
    rcases hfinish : s.writer.finish with ⟨_ | built, writer⟩
    · rw [hfinish] at hframe
      cases hframe
    rw [hfinish] at hframe
    cases hframe
    obtain ⟨-, -, hroom, hstamp, -⟩ := hinv.holds.finish_ok config.stampsHeader hfinish
    have haccepts := FrameConfig.accepts_of_stamp (hinv.length_stamped hroom) hstamp
    obtain ⟨stamped, hagain, hiff⟩ := hstamped hroom haccepts
    rw [hstamp] at hagain
    cases hagain
    exact hiff.2 (hfits (hbuf ▸ hroom) haccepts)

end History

/-! ## Every way to ask for a header -/

inductive HeaderCall where
  | tc (buffer : Bytes) (scid : Scid) (vcid : Vcid) (bypassFlag : Tc.BypassFlag)
      (controlFlag : Tc.ControlFlag) (seq : UInt8) (dataFieldLen : Nat)
  | tm (buffer : Bytes) (version : UInt8) (scid : Scid) (vcid : Vcid)
      (mcFrameCount vcFrameCount : UInt8) (firstHeaderPointer : BitVec 16)
  | aos (buffer : Bytes) (scid : Scid) (vcid : Vcid) (vcFrameCount : UInt32)
      (replayFlag usageFlag : Bool) (payload : Bytes)
  | uslp (buffer : Bytes) (scid : Scid) (vcid : Vcid) (sourceOrDest : Bool) (mapId : BitVec 8)
      (bypass protocolControlCommand ocfFlag : Bool) (vcfCountLength : BitVec 8) (vcfCount : UInt64)
  | proximity1 (buffer : Bytes) (scid : Scid) (qos : Proximity1.QoS) (pduType : Proximity1.PduType)
      (dfcId : Proximity1.DfcId) (pcid : Bool) (portId : BitVec 8) (srcDest : Proximity1.SrcDest)
      (fsn : UInt8) (dataFieldLen : Nat)
  | finish (config : FrameConfig) (room : Nat) (s : History config.writer)
      (h : (histories config.writer room).Reachable s)
  | ep (h : Sdls.EpHeader) (dataLenBytes : BitVec 16) (out : Bytes)
  | encapsulation (h : Encapsulation.EncapsulationHeader) (setters : List Encapsulation.Setter)
  | packetLength (lenOfLen : BitVec 8) (length : UInt32) (bytes : Bytes)

namespace HeaderCall

/-- When the call succeeds, every accessor returns what was given, and the version is that of the
format. -/
def Exact : HeaderCall → Prop
  | tc buffer scid vcid bypassFlag controlFlag seq n => ∀ frame,
      Tc.TelecommandTransferFrame.new buffer scid vcid bypassFlag controlFlag seq n = .ok frame →
        Tc.Says (.ofBytes frame) scid vcid bypassFlag controlFlag seq
          (Tc.TelecommandTransferFrame.HEADER_SIZE + n)
  | tm buffer version scid vcid mcFrameCount vcFrameCount firstHeaderPointer => ∀ frame,
      Tm.TelemetryTransferFrame.new buffer version scid vcid mcFrameCount vcFrameCount
          firstHeaderPointer = .ok frame →
        Tm.Says (.ofBytes frame) version scid vcid mcFrameCount vcFrameCount firstHeaderPointer
  | aos buffer scid vcid vcFrameCount replayFlag usageFlag payload => ∀ frame,
      Aos.AosTransferFrame.new buffer scid vcid vcFrameCount replayFlag usageFlag payload =
          .ok frame →
        Aos.Says (.ofBytes frame) scid vcid vcFrameCount replayFlag usageFlag
  | uslp buffer scid vcid sourceOrDest mapId bypass pcc ocfFlag vcfCountLength vcfCount => ∀ frame,
      Uslp.UslpTransferFrame.new buffer scid vcid sourceOrDest mapId bypass pcc ocfFlag
          vcfCountLength vcfCount = .ok frame →
        Uslp.Says frame.header scid vcid sourceOrDest mapId bypass pcc ocfFlag vcfCountLength
          buffer.length ∧ frame.vcfCount = some vcfCount
  | proximity1 buffer scid qos pduType dfcId pcid portId srcDest fsn n => ∀ frame,
      Proximity1.Proximity1TransferFrame.new buffer scid qos pduType dfcId pcid portId
      srcDest fsn n =
          .ok frame →
        Proximity1.Says (.ofBytes frame) scid qos pduType dfcId pcid portId srcDest fsn
          (Proximity1.Proximity1TransferFrame.HEADER_SIZE + n)
  | finish config _ s _ => ∀ frame, s.writer.finish.1 = .ok frame →
      config.Says s.writer.counters (size s.pending) frame
  | ep h dataLenBytes out => h.Exact dataLenBytes out
  | encapsulation h setters => Encapsulation.Exact h setters
  | packetLength lenOfLen length bytes => Encapsulation.LengthExact lenOfLen length bytes

/-- The values that pass the checks of the call fit their fields, and the bits that no value is
written to are those of the format. -/
def InRange : HeaderCall → Prop
  | tc buffer scid vcid _ _ _ n =>
      (numBits scid ≤ 10 ∧ numBits vcid ≤ 6) ∧
          n ≤ Tc.TelecommandTransferFrame.MAX_DATA_FIELD_LEN →
        Tc.TelecommandTransferFrame.HEADER_SIZE + n ≤ buffer.length →
        getBits (Tc.TelecommandTransferFrameHeader.ofBytes buffer).idAndScid Tc.VERSION_MASK = 0
  | tm buffer version scid vcid _ _ firstHeaderPointer =>
      Tm.TelemetryTransferFrame.HEADER_SIZE ≤ buffer.length → numBits scid ≤ 10 →
        numBits vcid ≤ 3 → version.toNat < 2 ^ 2 ∧ firstHeaderPointer.toNat < 2 ^ 11
  | aos buffer scid vcid vcFrameCount _ _ payload =>
      Aos.AosTransferFrame.HEADER_SIZE + payload.length ≤ buffer.length → numBits vcid ≤ 6 →
        numBits scid ≤ 8 ∧ vcFrameCount.toNat < 2 ^ 24
  | uslp buffer scid vcid _ mapId _ _ _ vcfCountLength vcfCount =>
      Uslp.Builds buffer vcid mapId vcfCountLength →
        numBits scid ≤ 16 ∧ vcfCount.toNat < 256 ^ vcfCountLength.toNat
  | proximity1 .. => True
  | finish config _ s _ =>
      s.writer.total ≤ s.writer.buf.length → config.Accepts (size s.pending) → config.HeaderFits
  | ep h dataLenBytes out =>
      Sdls.EP_HEADER_SIZE ≤ out.length →
        h.serviceGroup.toNat < 4 ∧ h.procedureId.toNat < 16 ∧ dataLenBytes.toNat < 8192
  | encapsulation _ setters => Encapsulation.SettersFit setters
  | packetLength lenOfLen length bytes =>
      Encapsulation.packetLengthBytes lenOfLen ≤ bytes.length →
        0 < Encapsulation.packetLengthBytes lenOfLen ∧
          length.toNat < 256 ^ Encapsulation.packetLengthBytes lenOfLen

/-- The header says what was asked exactly when what is not checked fits. -/
theorem exact_iff_inRange (call : HeaderCall) : call.Exact ↔ call.InRange := by
  cases call with
  | tc buffer scid vcid bypassFlag controlFlag seq n =>
    exact @Tc.new_exact_iff buffer ⟨scid, vcid, bypassFlag, controlFlag, n⟩ seq n
  | tm => exact Tm.new_exact_iff
  | aos => exact Aos.new_exact_iff
  | uslp => exact Uslp.new_exact_iff
  | proximity1 => exact iff_of_true (fun frame hnew => Proximity1.new_says hnew) trivial
  | finish config room s h => exact History.finish_exact_iff h
  | ep => exact Sdls.EpHeader.encode_exact_iff
  | encapsulation => exact Encapsulation.settersExact_iff
  | packetLength => exact Encapsulation.lengthExact_iff

/-- A spacecraft of ten bits is accepted and changes the version. -/
theorem oversized_scid_changes_version :
    ¬ (aos (List.replicate 6 0) 512 1 0 false false []).Exact ∧
      ∃ frame, Aos.AosTransferFrame.new (List.replicate 6 0) 512 1 0 false false [] = .ok frame ∧
        (Aos.AosPrimaryHeader.ofBytes frame).version = 0b11 ∧
        (Aos.AosPrimaryHeader.ofBytes frame).scid = 0 := by
  have hnew : Aos.AosTransferFrame.new (List.replicate 6 0) 512 1 0 false false [] =
      .ok [192, 1, 0, 0, 0, 0] := by decide
  refine ⟨fun hexact => ?_, _, hnew, by decide, by decide⟩
  exact absurd (hexact _ hnew).version (by decide)

end HeaderCall

end Datalink
end Leodos
