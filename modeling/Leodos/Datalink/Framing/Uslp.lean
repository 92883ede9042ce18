/-
Frames of the unified protocol, `datalink/framing/uslp.rs`.

Seven fixed octets are followed by a frame count of a length that the header names, by an
insert zone of a configured length, and by a header of one or three octets in front of the
data.  Two trailers may follow, one announced by the header and one configured.
-/
import Leodos.Bits.Endian
import Leodos.Datalink.Frame

namespace Leodos
namespace Datalink
namespace Uslp

open Bits Memory Spp

inductive BuildError where
  | invalidVcid (vcid : Vcid)
  | invalidMapId (mapId : BitVec 8)
  | invalidVcfCountLength (len : BitVec 8)
  | bufferTooSmall (requiredLen providedLen : Nat)
  | frameTooLarge (maxLen providedLen : Nat)
  deriving DecidableEq, Repr

inductive ParseError where
  | tooShortForHeader
  | lengthMismatch (expected actual : Nat)
  | invalidVersion (version : BitVec 8)
  | truncatedHeader
  deriving DecidableEq, Repr

def USLP_TFVN : BitVec 8 := 0b1100

def TFVN_MASK : BitVec 32 := 0xf0000000
def SCID_MASK : BitVec 32 := 0x0ffff000
def SRC_DEST_MASK : BitVec 32 := 0x00000800
def VCID_MASK : BitVec 32 := 0x000007e0
def MAP_ID_MASK : BitVec 32 := 0x0000001e
def EOFPH_MASK : BitVec 32 := 0x00000001
def BYPASS_FLAG_MASK : BitVec 8 := 0b10000000
def PCC_FLAG_MASK : BitVec 8 := 0b01000000
def OCF_FLAG_MASK : BitVec 8 := 0b00001000
def VCF_COUNT_LEN_MASK : BitVec 8 := 0b00000111
def TFDZ_RULES_MASK : BitVec 8 := 0b11100000
def UPID_MASK : BitVec 8 := 0b00011111

theorem spans_tfvn : Spans TFVN_MASK 28 4 := spans_of_eq rfl (by decide) (by decide)
theorem spans_scid : Spans SCID_MASK 12 16 := spans_of_eq rfl (by decide) (by decide)
theorem spans_srcDest : Spans SRC_DEST_MASK 11 1 := spans_of_eq rfl (by decide) (by decide)
theorem spans_vcid : Spans VCID_MASK 5 6 := spans_of_eq rfl (by decide) (by decide)
theorem spans_mapId : Spans MAP_ID_MASK 1 4 := spans_of_eq rfl (by decide) (by decide)
theorem spans_eofph : Spans EOFPH_MASK 0 1 := spans_of_eq rfl (by decide) (by decide)
theorem spans_ocfFlag : Spans OCF_FLAG_MASK 3 1 := spans_of_eq rfl (by decide) (by decide)
theorem spans_vcfCountLen : Spans VCF_COUNT_LEN_MASK 0 3 := spans_of_eq rfl (by decide) (by decide)
theorem spans_tfdzRules : Spans TFDZ_RULES_MASK 5 3 := spans_of_eq rfl (by decide) (by decide)
theorem spans_upid : Spans UPID_MASK 0 5 := spans_of_eq rfl (by decide) (by decide)

/-- How the data zone is built. -/
inductive TfdzRule where
  | packetsSpanning
  | sduStart
  | sduContinue
  | octetStream
  | startingSegment
  | continuingSegment
  | lastSegment
  | noSegmentation
  deriving DecidableEq, Repr

namespace TfdzRule

def toBits : TfdzRule → BitVec 3
  | packetsSpanning => 0
  | sduStart => 1
  | sduContinue => 2
  | octetStream => 3
  | startingSegment => 4
  | continuingSegment => 5
  | lastSegment => 6
  | noSegmentation => 7

def ofBits (bits : BitVec 8) : TfdzRule :=
  match (bits &&& 0x07).toNat with
  | 0 => packetsSpanning
  | 1 => sduStart
  | 2 => sduContinue
  | 3 => octetStream
  | 4 => startingSegment
  | 5 => continuingSegment
  | 6 => lastSegment
  | _ => noSegmentation

def hasPointer : TfdzRule → Bool
  | packetsSpanning | sduStart | sduContinue => true
  | _ => false

/-- Octets of the header in front of the data zone. -/
def tfdfHeaderLen (rule : TfdzRule) : Nat := if rule.hasPointer then 3 else 1

theorem ofBits_toBits (rule : TfdzRule) : ofBits (rule.toBits.setWidth 8) = rule := by
  cases rule <;> rfl

end TfdzRule

def bit (flag : Bool) : BitVec 1 := BitVec.ofBool flag

structure UslpPrimaryHeaderFixed where
  id : BitVec 32
  frameLength : BitVec 16
  flags : BitVec 8
  deriving DecidableEq, Repr

namespace UslpPrimaryHeaderFixed

def ofBytes (bytes : Bytes) : UslpPrimaryHeaderFixed :=
  ⟨BitVec.ofNat 32 (BigEndian.decode (bytes.take 4)),
    Bits.ofBytes (bytes.getD 4 0) (bytes.getD 5 0), (bytes.getD 6 0).toBitVec⟩

def asBytes (h : UslpPrimaryHeaderFixed) : Bytes :=
  BigEndian.encode 4 h.id.toNat ++
    [highByte h.frameLength, lowByte h.frameLength, UInt8.ofBitVec h.flags]

def tfvn (h : UslpPrimaryHeaderFixed) : BitVec 8 := (getBits h.id TFVN_MASK).setWidth 8

def setTfvn (h : UslpPrimaryHeaderFixed) (version : BitVec 8) : UslpPrimaryHeaderFixed :=
  { h with id := setBits h.id TFVN_MASK (version.setWidth 32) }

def scid (h : UslpPrimaryHeaderFixed) : Scid := getBits h.id SCID_MASK

def setScid (h : UslpPrimaryHeaderFixed) (scid : Scid) : UslpPrimaryHeaderFixed :=
  { h with id := setBits h.id SCID_MASK scid }

def sourceOrDest (h : UslpPrimaryHeaderFixed) : Bool := getBits h.id SRC_DEST_MASK != 0

def setSourceOrDest (h : UslpPrimaryHeaderFixed) (flag : Bool) : UslpPrimaryHeaderFixed :=
  { h with id := setBits h.id SRC_DEST_MASK ((bit flag).setWidth 32) }

def vcid (h : UslpPrimaryHeaderFixed) : Vcid := getBits h.id VCID_MASK

def setVcid (h : UslpPrimaryHeaderFixed) (vcid : Vcid) : UslpPrimaryHeaderFixed :=
  { h with id := setBits h.id VCID_MASK vcid }

def mapId (h : UslpPrimaryHeaderFixed) : BitVec 8 := (getBits h.id MAP_ID_MASK).setWidth 8

def setMapId (h : UslpPrimaryHeaderFixed) (mapId : BitVec 8) : UslpPrimaryHeaderFixed :=
  { h with id := setBits h.id MAP_ID_MASK (mapId.setWidth 32) }

def eofph (h : UslpPrimaryHeaderFixed) : Bool := getBits h.id EOFPH_MASK != 0

def setEofph (h : UslpPrimaryHeaderFixed) (flag : Bool) : UslpPrimaryHeaderFixed :=
  { h with id := setBits h.id EOFPH_MASK ((bit flag).setWidth 32) }

def setFrameLength (h : UslpPrimaryHeaderFixed) (len : BitVec 16) : UslpPrimaryHeaderFixed :=
  { h with frameLength := len }

def bypass (h : UslpPrimaryHeaderFixed) : Bool := getBits h.flags BYPASS_FLAG_MASK != 0

def setBypass (h : UslpPrimaryHeaderFixed) (flag : Bool) : UslpPrimaryHeaderFixed :=
  { h with flags := setBits h.flags BYPASS_FLAG_MASK ((bit flag).setWidth 8) }

def protocolControlCommand (h : UslpPrimaryHeaderFixed) : Bool :=
  getBits h.flags PCC_FLAG_MASK != 0

def setProtocolControlCommand (h : UslpPrimaryHeaderFixed) (flag : Bool) :
    UslpPrimaryHeaderFixed :=
  { h with flags := setBits h.flags PCC_FLAG_MASK ((bit flag).setWidth 8) }

def ocfFlag (h : UslpPrimaryHeaderFixed) : Bool := getBits h.flags OCF_FLAG_MASK != 0

def setOcfFlag (h : UslpPrimaryHeaderFixed) (flag : Bool) : UslpPrimaryHeaderFixed :=
  { h with flags := setBits h.flags OCF_FLAG_MASK ((bit flag).setWidth 8) }

def vcfCountLength (h : UslpPrimaryHeaderFixed) : BitVec 8 := getBits h.flags VCF_COUNT_LEN_MASK

def setVcfCountLength (h : UslpPrimaryHeaderFixed) (len : BitVec 8) : UslpPrimaryHeaderFixed :=
  { h with flags := setBits h.flags VCF_COUNT_LEN_MASK len }

theorem ofBytes_asBytes (h : UslpPrimaryHeaderFixed) (rest : Bytes) :
    ofBytes (h.asBytes ++ rest) = h := by
  have hid : BitVec.ofNat 32 (BigEndian.decode (BigEndian.encode 4 h.id.toNat)) = h.id := by
    rw [BigEndian.decode_encode_of_lt h.id.isLt, BitVec.ofNat_toNat, BitVec.setWidth_eq]
  show (⟨BitVec.ofNat 32 (BigEndian.decode (BigEndian.encode 4 h.id.toNat)),
    Bits.ofBytes (highByte h.frameLength) (lowByte h.frameLength), h.flags⟩ :
      UslpPrimaryHeaderFixed) = h
  rw [hid, ofBytes_bytes]

end UslpPrimaryHeaderFixed

structure UslpTransferFrame where
  header : UslpPrimaryHeaderFixed
  body : Bytes
  deriving DecidableEq, Repr

namespace UslpTransferFrame

def FIXED_HEADER_SIZE : Nat := 7
def MAX_FRAME_SIZE : Nat := 65536

def refFromBytes (bytes : Bytes) : Option UslpTransferFrame :=
  if bytes.length < FIXED_HEADER_SIZE then none
  else some ⟨.ofBytes bytes, bytes.drop FIXED_HEADER_SIZE⟩

def asBytes (f : UslpTransferFrame) : Bytes := f.header.asBytes ++ f.body

def parse (bytes : Bytes) : Except ParseError UslpTransferFrame :=
  if bytes.length < FIXED_HEADER_SIZE then .error .tooShortForHeader
  else
    match refFromBytes bytes with
    | none => .error .tooShortForHeader
    | some frame =>
      if frame.header.tfvn ≠ USLP_TFVN then .error (.invalidVersion frame.header.tfvn)
      else if frame.header.eofph then .error .truncatedHeader
      else
        let expected := frame.header.frameLength.toNat + 1
        if bytes.length ≠ expected then .error (.lengthMismatch expected bytes.length)
        else .ok frame

/-- `none` when the body is shorter than the count. -/
def vcfCount (f : UslpTransferFrame) : Option UInt64 :=
  let len := f.header.vcfCountLength.toNat
  if f.body.length < len then none else some (.ofNat (BigEndian.decode (f.body.take len)))

/-- Octets of the body in front of the header of the data zone. -/
def tfdfOffset (f : UslpTransferFrame) (insertZoneLen : Nat) : Nat :=
  f.header.vcfCountLength.toNat + insertZoneLen

/-- `none` when the octet is behind the frame. -/
def tfdzRule (f : UslpTransferFrame) (insertZoneLen : Nat) : Option TfdzRule :=
  (f.body[f.tfdfOffset insertZoneLen]?).map fun octet =>
    .ofBits (getBits octet.toBitVec TFDZ_RULES_MASK)

/-- `none` when the octet is behind the frame. -/
def upid (f : UslpTransferFrame) (insertZoneLen : Nat) : Option (BitVec 8) :=
  (f.body[f.tfdfOffset insertZoneLen]?).map fun octet => getBits octet.toBitVec UPID_MASK

/-- The outer `none` stands for octets behind the frame. -/
def pointer (f : UslpTransferFrame) (insertZoneLen : Nat) : Option (Option (BitVec 16)) :=
  match f.tfdzRule insertZoneLen with
  | none => none
  | some rule =>
    if rule.hasPointer then
      match f.body[f.tfdfOffset insertZoneLen + 1]?, f.body[f.tfdfOffset insertZoneLen + 2]? with
      | some high, some low => some (some (ofBytes high low))
      | _, _ => none
    else some none

/-- The caller leaves room in the body for the octets. -/
def setTfdfHeader (f : UslpTransferFrame) (insertZoneLen : Nat) (rule : TfdzRule)
    (upid : BitVec 8) (pointer : Option (BitVec 16)) : UslpTransferFrame :=
  let byte0 := setBits (setBits 0 TFDZ_RULES_MASK (rule.toBits.setWidth 8)) UPID_MASK upid
  let octets := match pointer with
    | some ptr => [UInt8.ofBitVec byte0, highByte ptr, lowByte ptr]
    | none => [UInt8.ofBitVec byte0]
  { f with body := write f.body (f.tfdfOffset insertZoneLen) octets }

/-- The header that the builder leaves in the buffer. -/
def buildHeader (scid : Scid) (vcid : Vcid) (sourceOrDest : Bool) (mapId : BitVec 8)
    (bypass protocolControlCommand ocfFlag : Bool) (vcfCountLength : BitVec 8)
    (providedLen : Nat) : UslpPrimaryHeaderFixed :=
  let header : UslpPrimaryHeaderFixed := ⟨0, 0, 0⟩
  let header := (((header.setTfvn USLP_TFVN).setScid scid).setSourceOrDest sourceOrDest).setVcid
    vcid
  let header := ((header.setMapId mapId).setEofph false).setFrameLength
    (BitVec.ofNat 16 (providedLen - 1))
  ((((header.setBypass bypass).setProtocolControlCommand protocolControlCommand).setOcfFlag
    ocfFlag).setVcfCountLength vcfCountLength)

def new (buffer : Bytes) (scid : Scid) (vcid : Vcid) (sourceOrDest : Bool) (mapId : BitVec 8)
    (bypass protocolControlCommand ocfFlag : Bool) (vcfCountLength : BitVec 8)
    (vcfCount : UInt64) : Except BuildError UslpTransferFrame :=
  let minSize := FIXED_HEADER_SIZE + vcfCountLength.toNat
  if 6 < numBits vcid then .error (.invalidVcid vcid)
  else if 15 < mapId then .error (.invalidMapId mapId)
  else if 7 < vcfCountLength then .error (.invalidVcfCountLength vcfCountLength)
  else if buffer.length < minSize then .error (.bufferTooSmall minSize buffer.length)
  else if MAX_FRAME_SIZE < buffer.length then
    .error (.frameTooLarge MAX_FRAME_SIZE buffer.length)
  else
    .ok ⟨buildHeader scid vcid sourceOrDest mapId bypass protocolControlCommand ocfFlag
        vcfCountLength buffer.length,
      write (buffer.drop FIXED_HEADER_SIZE) 0
        (BigEndian.encode vcfCountLength.toNat vcfCount.toNat)⟩

end UslpTransferFrame

open UslpTransferFrame

theorem new_eq_ok_iff {buffer : Bytes} {frame : UslpTransferFrame} {scid : Scid} {vcid : Vcid}
    {sourceOrDest : Bool} {mapId : BitVec 8} {bypass protocolControlCommand ocfFlag : Bool}
    {vcfCountLength : BitVec 8} {vcfCount : UInt64} :
    UslpTransferFrame.new buffer scid vcid sourceOrDest mapId bypass protocolControlCommand ocfFlag
        vcfCountLength vcfCount = .ok frame ↔
      (numBits vcid ≤ 6 ∧ mapId ≤ 15 ∧ vcfCountLength ≤ 7 ∧
        FIXED_HEADER_SIZE + vcfCountLength.toNat ≤ buffer.length ∧
        buffer.length ≤ MAX_FRAME_SIZE) ∧
        frame = ⟨buildHeader scid vcid sourceOrDest mapId bypass protocolControlCommand ocfFlag
          vcfCountLength buffer.length, write (buffer.drop FIXED_HEADER_SIZE) 0
          (BigEndian.encode vcfCountLength.toNat vcfCount.toNat)⟩ := by
  unfold UslpTransferFrame.new
  dsimp only
  by_cases hvcid : 6 < numBits vcid
  · rw [if_pos hvcid]
    exact iff_of_false (fun h => by cases h) (fun h => absurd h.1.1 (Nat.not_le.2 hvcid))
  rw [if_neg hvcid]
  by_cases hmapId : 15 < mapId
  · rw [if_pos hmapId]
    exact iff_of_false (fun h => by cases h) (fun h => absurd h.1.2.1 (BitVec.not_le.2 hmapId))
  rw [if_neg hmapId]
  by_cases hvcf : 7 < vcfCountLength
  · rw [if_pos hvcf]
    exact iff_of_false (fun h => by cases h) (fun h => absurd h.1.2.2.1 (BitVec.not_le.2 hvcf))
  rw [if_neg hvcf]
  by_cases hroom : buffer.length < FIXED_HEADER_SIZE + vcfCountLength.toNat
  · rw [if_pos hroom]
    exact iff_of_false (fun h => by cases h) (fun h => absurd h.1.2.2.2.1 (Nat.not_le.2 hroom))
  rw [if_neg hroom]
  by_cases hmax : MAX_FRAME_SIZE < buffer.length
  · rw [if_pos hmax]
    exact iff_of_false (fun h => by cases h) (fun h => absurd h.1.2.2.2.2 (Nat.not_le.2 hmax))
  rw [if_neg hmax, Except.ok.injEq, eq_comm]
  exact ⟨fun h => ⟨⟨Nat.le_of_not_lt hvcid, BitVec.not_lt.1 hmapId, BitVec.not_lt.1 hvcf,
    Nat.le_of_not_lt hroom, Nat.le_of_not_lt hmax⟩, h⟩, fun h => h.2⟩

structure UslpFrameWriterConfig where
  scid : Scid
  vcid : Vcid
  mapId : BitVec 8
  bypass : Bool
  protocolControlCommand : Bool
  ocfFlag : Bool
  vcfCountLength : BitVec 8
  insertZoneLen : Nat
  tfdzRule : TfdzRule
  upid : BitVec 8
  fecfPresent : Bool
  maxDataZoneLen : Nat

namespace UslpFrameWriterConfig

/-- The identifiers fit their fields. -/
def InRange (config : UslpFrameWriterConfig) : Prop :=
  numBits config.scid ≤ 16 ∧ numBits config.vcid ≤ 6 ∧ config.mapId ≤ 15 ∧
    config.vcfCountLength ≤ 7 ∧ config.upid.toNat < 32

def dataZoneOffset (config : UslpFrameWriterConfig) : Nat :=
  FIXED_HEADER_SIZE + config.vcfCountLength.toNat + config.insertZoneLen +
    config.tfdzRule.tfdfHeaderLen

end UslpFrameWriterConfig

def ocfLen (ocfFlag : Bool) : Nat := if ocfFlag then 4 else 0

def fecfLen (fecfPresent : Bool) : Nat := if fecfPresent then 2 else 0

def UslpFrameWriter.format (config : UslpFrameWriterConfig) : WriterFormat where
  Counters := UInt64
  BuildError := BuildError
  start := 0
  advance := fun vcfCount => vcfCount + 1
  dataOffset := config.dataZoneOffset
  maxDataLen := config.maxDataZoneLen
  trailerLen := ocfLen config.ocfFlag + fecfLen config.fecfPresent
  stamp := fun _ vcfCount _ bytes =>
    match UslpTransferFrame.new bytes config.scid config.vcid false config.mapId config.bypass
        config.protocolControlCommand config.ocfFlag config.vcfCountLength vcfCount with
    | .error e => .error e
    | .ok frame => .ok (frame.setTfdfHeader config.insertZoneLen config.tfdzRule config.upid
        (if config.tfdzRule.hasPointer then some 0 else none)).asBytes

def UslpFrameReader.layout (insertZoneLen : Nat) (fecfPresent : Bool) (bytes : Bytes) :
    Except (Fault ParseError) (Nat × Nat) :=
  match UslpTransferFrame.parse bytes with
  | .error e => .error (.error e)
  | .ok frame =>
    match frame.tfdzRule insertZoneLen with
    | none => .error .panic
    | some rule =>
      -- a frame that parses is longer than both trailers
      .ok (FIXED_HEADER_SIZE + frame.header.vcfCountLength.toNat + insertZoneLen +
          rule.tfdfHeaderLen,
        bytes.length - ocfLen frame.header.ocfFlag - fecfLen fecfPresent)

theorem UslpFrameReader.layout_le {insertZoneLen : Nat} {fecfPresent : Bool} {bytes : Bytes}
    {dataStart dataEnd : Nat}
    (h : UslpFrameReader.layout insertZoneLen fecfPresent bytes = .ok (dataStart, dataEnd)) :
    dataEnd ≤ bytes.length := by
  rw [UslpFrameReader.layout] at h
  cases hparse : UslpTransferFrame.parse bytes with
  | error e =>
    rw [hparse] at h
    cases h
  | ok frame =>
    cases hrule : frame.tfdzRule insertZoneLen with
    | none =>
      simp only [hparse, hrule] at h
      cases h
    | some rule =>
      simp only [hparse, hrule] at h
      cases h
      omega

def UslpFrameReader.format (insertZoneLen : Nat) (fecfPresent : Bool) : ReaderFormat where
  ParseError := ParseError
  layout := UslpFrameReader.layout insertZoneLen fecfPresent
  layout_le := UslpFrameReader.layout_le

/-! ## What the builder leaves -/

section Build

variable {scid : Scid} {vcid : Vcid} {mapId vcfCountLength : BitVec 8}
  (hscid : numBits scid ≤ 16) (hvcid : numBits vcid ≤ 6) (hmapId : mapId ≤ 15)
  (hvcf : vcfCountLength ≤ 7) (sourceOrDest bypass protocolControlCommand ocfFlag : Bool)
  (providedLen : Nat)

include hscid hvcid hmapId in
theorem tfvn_buildHeader :
    (buildHeader scid vcid sourceOrDest mapId bypass protocolControlCommand ocfFlag vcfCountLength
      providedLen).tfvn = USLP_TFVN := by
  have hfits : Fits (USLP_TFVN.setWidth 32 : BitVec 32) 4 := fits_setWidth (0b1100 : BitVec 4)
  have hmap : Fits (mapId.setWidth 32 : BitVec 32) 4 := by
    apply fits_of_toNat_lt
    rw [BitVec.toNat_setWidth, Nat.mod_eq_of_lt (by omega)]
    exact Nat.lt_succ_of_le (BitVec.le_def.1 hmapId)
  have hscid' : Fits scid 16 := fits_of_toNat_lt (numBits_le_iff.1 hscid)
  have hvcid' : Fits vcid 6 := fits_of_toNat_lt (numBits_le_iff.1 hvcid)
  show (getBits (setBits (setBits (setBits (setBits (setBits (setBits 0 TFVN_MASK
    (USLP_TFVN.setWidth 32)) SCID_MASK scid) SRC_DEST_MASK _) VCID_MASK vcid) MAP_ID_MASK _)
    EOFPH_MASK _) TFVN_MASK).setWidth 8 = _
  rw [getBits_setBits_of_disjoint spans_eofph spans_tfvn (Or.inl (by decide))
      (fits_setWidth (bit false)),
    getBits_setBits_of_disjoint spans_mapId spans_tfvn (Or.inl (by decide)) hmap,
    getBits_setBits_of_disjoint spans_vcid spans_tfvn (Or.inl (by decide)) hvcid',
    getBits_setBits_of_disjoint spans_srcDest spans_tfvn (Or.inl (by decide))
      (fits_setWidth (bit sourceOrDest)),
    getBits_setBits_of_disjoint spans_scid spans_tfvn (Or.inl (by decide)) hscid',
    getBits_setBits_self spans_tfvn hfits]
  rfl

theorem eofph_buildHeader :
    (buildHeader scid vcid sourceOrDest mapId bypass protocolControlCommand ocfFlag vcfCountLength
      providedLen).eofph = false := by
  show (getBits (setBits _ EOFPH_MASK ((bit false).setWidth 32)) EOFPH_MASK != 0) = false
  rw [getBits_setBits_self spans_eofph (fits_setWidth (bit false))]
  rfl

include hvcf in
theorem vcfCountLength_buildHeader :
    (buildHeader scid vcid sourceOrDest mapId bypass protocolControlCommand ocfFlag vcfCountLength
      providedLen).vcfCountLength = vcfCountLength :=
  getBits_setBits_self spans_vcfCountLen
    (fits_of_toNat_lt (Nat.lt_succ_of_le (BitVec.le_def.1 hvcf))) _

include hvcf in
theorem ocfFlag_buildHeader :
    (buildHeader scid vcid sourceOrDest mapId bypass protocolControlCommand ocfFlag vcfCountLength
      providedLen).ocfFlag = ocfFlag := by
  have hlen : Fits vcfCountLength 3 :=
    fits_of_toNat_lt (Nat.lt_succ_of_le (BitVec.le_def.1 hvcf))
  show (getBits (setBits (setBits _ OCF_FLAG_MASK ((bit ocfFlag).setWidth 8)) VCF_COUNT_LEN_MASK
    vcfCountLength) OCF_FLAG_MASK != 0) = ocfFlag
  rw [getBits_setBits_of_disjoint spans_vcfCountLen spans_ocfFlag (Or.inl (by decide)) hlen,
    getBits_setBits_self spans_ocfFlag (fits_setWidth (bit ocfFlag))]
  cases ocfFlag <;> rfl

end Build

theorem rule_octet (rule : TfdzRule) {upid : BitVec 8} (hupid : upid.toNat < 32) :
    TfdzRule.ofBits (getBits (setBits (setBits 0 TFDZ_RULES_MASK (rule.toBits.setWidth 8))
      UPID_MASK upid) TFDZ_RULES_MASK) = rule := by
  rw [getBits_setBits_of_disjoint spans_upid spans_tfdzRules (Or.inl (by decide))
      (fits_of_toNat_lt hupid),
    getBits_setBits_self spans_tfdzRules (fits_setWidth rule.toBits), TfdzRule.ofBits_toBits]

/-! ## Both sides -/

section Frame

variable {bytes : Bytes} {frame : UslpTransferFrame} {insertZoneLen : Nat} {fecfPresent : Bool}

theorem length_asBytes : frame.asBytes.length = FIXED_HEADER_SIZE + frame.body.length := by
  rw [asBytes, List.length_append]
  rfl

theorem refFromBytes_asBytes : refFromBytes frame.asBytes = some frame := by
  have hbody : frame.asBytes.drop FIXED_HEADER_SIZE = frame.body := rfl
  rw [refFromBytes, if_neg (by rw [length_asBytes]; omega), hbody, asBytes,
    UslpPrimaryHeaderFixed.ofBytes_asBytes]

theorem parse_asBytes (hversion : frame.header.tfvn = USLP_TFVN)
    (hwhole : frame.header.eofph = false)
    (hlen : frame.asBytes.length = frame.header.frameLength.toNat + 1) :
    UslpTransferFrame.parse frame.asBytes = .ok frame := by
  rw [UslpTransferFrame.parse, if_neg (by rw [length_asBytes]; omega), refFromBytes_asBytes]
  dsimp only
  rw [if_neg (not_not_intro hversion), hwhole, if_neg Bool.false_ne_true,
    if_neg (not_not_intro hlen)]

theorem layout_of_parse {rule : TfdzRule} (hparse : UslpTransferFrame.parse bytes = .ok frame)
    (hrule : frame.tfdzRule insertZoneLen = some rule) :
    (UslpFrameReader.format insertZoneLen fecfPresent).layout bytes =
      .ok (FIXED_HEADER_SIZE + frame.header.vcfCountLength.toNat + insertZoneLen +
          rule.tfdfHeaderLen,
        bytes.length - ocfLen frame.header.ocfFlag - fecfLen fecfPresent) := by
  simp only [UslpFrameReader.format, UslpFrameReader.layout, hparse, hrule]

theorem setTfdfHeader_body (rule : TfdzRule) (upid : BitVec 8) :
    ∃ octets : Bytes, octets.length = rule.tfdfHeaderLen ∧
      octets.head? = some (UInt8.ofBitVec (setBits (setBits 0 TFDZ_RULES_MASK
        (rule.toBits.setWidth 8)) UPID_MASK upid)) ∧
      frame.setTfdfHeader insertZoneLen rule upid (if rule.hasPointer then some 0 else none) =
        ⟨frame.header, write frame.body (frame.tfdfOffset insertZoneLen) octets⟩ := by
  cases hpointer : rule.hasPointer with
  | true => exact ⟨_, by rw [TfdzRule.tfdfHeaderLen, hpointer]; rfl, rfl, rfl⟩
  | false => exact ⟨_, by rw [TfdzRule.tfdfHeaderLen, hpointer]; rfl, rfl, rfl⟩

theorem tfdzRule_written {body octets : Bytes} {rule : TfdzRule} {upid : BitVec 8}
    (hupid : upid.toNat < 32) (hroom : frame.tfdfOffset insertZoneLen < body.length)
    (hhead : octets.head? = some (UInt8.ofBitVec (setBits (setBits 0 TFDZ_RULES_MASK
      (rule.toBits.setWidth 8)) UPID_MASK upid)))
    (hbody : frame.body = write body (frame.tfdfOffset insertZoneLen) octets) :
    frame.tfdzRule insertZoneLen = some rule := by
  cases octets with
  | nil => cases hhead
  | cons octet octets =>
    rw [tfdzRule, hbody, write_getElem?, if_pos, Nat.sub_self, List.getElem?_cons_zero]
    · rw [List.head?_cons, Option.some_inj] at hhead
      rw [hhead, Option.map_some]
      exact congrArg some (rule_octet rule hupid)
    · rw [List.length_cons]
      omega

end Frame

theorem agrees {config : UslpFrameWriterConfig} (hids : config.InRange)
    (hmax : config.dataZoneOffset + config.maxDataZoneLen + ocfLen config.ocfFlag +
      fecfLen config.fecfPresent ≤ MAX_FRAME_SIZE) :
    Agrees (UslpFrameWriter.format config)
      (UslpFrameReader.format config.insertZoneLen config.fecfPresent) := by
  intro _ vcfCount n bytes _ hle hlen
  obtain ⟨hscid, hvcid, hmapId, hvcf, hupid⟩ := hids
  have hle : n ≤ config.maxDataZoneLen := hle
  have hlen : bytes.length = config.dataZoneOffset + n +
      (ocfLen config.ocfFlag + fecfLen config.fecfPresent) := hlen
  have hoff : config.dataZoneOffset = FIXED_HEADER_SIZE + config.vcfCountLength.toNat +
    config.insertZoneLen + config.tfdzRule.tfdfHeaderLen := rfl
  have hheader : 0 < config.tfdzRule.tfdfHeaderLen := by
    rw [TfdzRule.tfdfHeaderLen]
    split <;> decide
  -- the builder accepts
  let header := buildHeader config.scid config.vcid false config.mapId config.bypass
    config.protocolControlCommand config.ocfFlag config.vcfCountLength bytes.length
  let body := write (bytes.drop FIXED_HEADER_SIZE) 0
    (BigEndian.encode config.vcfCountLength.toNat vcfCount.toNat)
  have hnew : UslpTransferFrame.new bytes config.scid config.vcid false config.mapId config.bypass
      config.protocolControlCommand config.ocfFlag config.vcfCountLength vcfCount =
        .ok ⟨header, body⟩ :=
    new_eq_ok_iff.2 ⟨⟨hvcid, hmapId, hvcf, by omega, by omega⟩, rfl⟩
  have hbodyLen : FIXED_HEADER_SIZE + body.length = bytes.length := by
    show FIXED_HEADER_SIZE + (write _ _ _).length = _
    rw [write_length, List.length_drop]
    omega
  have hcount : header.vcfCountLength = config.vcfCountLength :=
    vcfCountLength_buildHeader hvcf ..
  have hat : UslpTransferFrame.tfdfOffset ⟨header, body⟩ config.insertZoneLen =
      config.vcfCountLength.toNat + config.insertZoneLen := by
    rw [tfdfOffset, hcount]
  -- the header of the data zone is stamped behind the count and the insert zone
  obtain ⟨octets, hoctets, hhead, hset⟩ :=
    @setTfdfHeader_body ⟨header, body⟩ config.insertZoneLen config.tfdzRule config.upid
  rw [hat] at hset
  let frame : UslpTransferFrame :=
    ⟨header, write body (config.vcfCountLength.toNat + config.insertZoneLen) octets⟩
  have hframe : FIXED_HEADER_SIZE + frame.body.length = bytes.length := by
    show FIXED_HEADER_SIZE + (write _ _ _).length = _
    rw [write_length, hbodyLen]
  refine ⟨frame.asBytes, ?_, by rw [length_asBytes, hframe], ?_, ?_⟩
  · simp only [UslpFrameWriter.format, hnew]
    exact congrArg (fun f => Except.ok f.asBytes) hset
  · have hsize : config.dataZoneOffset = header.asBytes.length +
        (config.vcfCountLength.toNat + config.insertZoneLen + config.tfdzRule.tfdfHeaderLen) := by
      rw [hoff, Nat.add_assoc, Nat.add_assoc, ← Nat.add_assoc config.vcfCountLength.toNat]
      rfl
    show slice (header.asBytes ++ frame.body) config.dataZoneOffset n =
      slice bytes config.dataZoneOffset n
    rw [hsize, slice_append_right]
    show slice (write body _ octets) _ n = _
    rw [slice_write_of_disjoint (Or.inr (by omega))]
    show slice (write (bytes.drop FIXED_HEADER_SIZE) 0 _) _ n = _
    rw [slice_write_of_disjoint (Or.inr (by rw [BigEndian.length_encode]; omega)), slice_drop]
    rfl
  · have hsmall : bytes.length ≤ 65536 := Nat.le_trans (by omega) hmax
    have hpos : 0 < bytes.length := Nat.lt_of_lt_of_le (by decide) (Nat.le.intro hframe)
    have hwhole : frame.asBytes.length = frame.header.frameLength.toNat + 1 := by
      show _ = (BitVec.ofNat 16 (bytes.length - 1)).toNat + 1
      rw [length_asBytes, hframe, BitVec.toNat_ofNat, Nat.mod_eq_of_lt (by omega)]
      omega
    have hversion : frame.header.tfvn = USLP_TFVN :=
      tfvn_buildHeader hscid hvcid hmapId false config.bypass config.protocolControlCommand
        config.ocfFlag bytes.length
    have heofph : frame.header.eofph = false :=
      eofph_buildHeader false config.bypass config.protocolControlCommand config.ocfFlag
        bytes.length
    have hparse := parse_asBytes hversion heofph hwhole
    have hplace : frame.tfdfOffset config.insertZoneLen =
        config.vcfCountLength.toNat + config.insertZoneLen := hat
    have hroom : frame.tfdfOffset config.insertZoneLen < body.length := by
      rw [hplace]
      omega
    have hrule : frame.tfdzRule config.insertZoneLen = some config.tfdzRule :=
      tfdzRule_written hupid hroom hhead (by rw [hplace])
    have hocf : frame.header.ocfFlag = config.ocfFlag := ocfFlag_buildHeader hvcf ..
    have hvcfCount : frame.header.vcfCountLength = config.vcfCountLength := hcount
    rw [layout_of_parse hparse hrule, hocf, hvcfCount, length_asBytes, hframe, hlen]
    show Except.ok (config.dataZoneOffset, _) =
      .ok (config.dataZoneOffset, config.dataZoneOffset + n)
    rw [Nat.sub_sub, Nat.add_sub_cancel]

/-- A frame that parses holds the fields that it announces and those that are configured. -/
def Tolerates (insertZoneLen : Nat) (fecfPresent : Bool) (bytes : Bytes) : Prop :=
  ∀ frame, UslpTransferFrame.parse bytes = .ok frame →
    ∃ rule, frame.tfdzRule insertZoneLen = some rule ∧
      FIXED_HEADER_SIZE + frame.header.vcfCountLength.toNat + insertZoneLen + rule.tfdfHeaderLen ≤
        bytes.length - ocfLen frame.header.ocfFlag - fecfLen fecfPresent

theorem safe_iff {bytes : Bytes} {insertZoneLen : Nat} {fecfPresent : Bool} :
    (UslpFrameReader.format insertZoneLen fecfPresent).Safe bytes ↔
      Tolerates insertZoneLen fecfPresent bytes := by
  unfold Tolerates
  rw [ReaderFormat.Safe]
  cases hparse : UslpTransferFrame.parse bytes with
  | error e =>
    simp only [UslpFrameReader.format, UslpFrameReader.layout, hparse]
    exact iff_of_true trivial (fun frame h => by cases h)
  | ok frame =>
    simp only [Except.ok.injEq, forall_eq']
    cases hrule : frame.tfdzRule insertZoneLen with
    | none =>
      simp only [UslpFrameReader.format, UslpFrameReader.layout, hparse, hrule]
      exact iff_of_false id (fun h => by obtain ⟨rule, hnone, -⟩ := h; cases hnone)
    | some rule =>
      rw [layout_of_parse hparse hrule]
      constructor
      · intro h
        exact ⟨rule, rfl, h⟩
      · intro h
        obtain ⟨other, hsome, hle⟩ := h
        cases hsome
        exact hle

end Uslp
end Datalink
end Leodos
