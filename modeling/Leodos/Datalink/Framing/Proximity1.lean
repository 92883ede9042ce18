/-
Proximity-1 transfer frames, `datalink/framing/sdlp/proximity1.rs`.

As in a telecommand frame the header holds the length of the whole frame minus one, in one
bit more, and the version is checked before the frame is cut.
-/
import Leodos.Datalink.Frame

namespace Leodos
namespace Datalink
namespace Proximity1

open Bits Memory Spp

inductive BuildError where
  | invalidScid (scid : Scid)
  | invalidPortId (portId : BitVec 8)
  | dataTooLong (len : Nat)
  | bufferTooSmall (required provided : Nat)
  deriving DecidableEq, Repr

inductive ParseError where
  | tooShortForHeader (actual : Nat)
  | incompleteFrame (headerLen bufferLen : Nat)
  | invalidVersion (version : BitVec 8)
  deriving DecidableEq, Repr

inductive QoS where
  | sequenceControlled
  | expedited
  deriving DecidableEq, Repr

inductive PduType where
  | userData
  | supervisory
  deriving DecidableEq, Repr

inductive DfcId where
  | packets
  | segments
  | reserved
  | userDefined
  deriving DecidableEq, Repr

inductive SrcDest where
  | source
  | destination
  deriving DecidableEq, Repr

def QoS.toBits : QoS → BitVec 1
  | sequenceControlled => 0
  | expedited => 1

def PduType.toBits : PduType → BitVec 1
  | userData => 0
  | supervisory => 1

def DfcId.toBits : DfcId → BitVec 2
  | packets => 0
  | segments => 1
  | reserved => 2
  | userDefined => 3

def SrcDest.toBits : SrcDest → BitVec 1
  | source => 0
  | destination => 1

def VERSION_MASK : BitVec 16 := 0b1100000000000000
def QOS_MASK : BitVec 16 := 0b0010000000000000
def PDU_TYPE_MASK : BitVec 16 := 0b0001000000000000
def DFC_ID_MASK : BitVec 16 := 0b0000110000000000
def SCID_MASK : BitVec 16 := 0b0000001111111111
def PCID_MASK : BitVec 16 := 0b1000000000000000
def PORT_ID_MASK : BitVec 16 := 0b0111000000000000
def SRC_DEST_MASK : BitVec 16 := 0b0000100000000000
def FRAME_LEN_MASK : BitVec 16 := 0b0000011111111111

theorem spans_version : Spans VERSION_MASK 14 2 := spans_of_eq rfl (by decide) (by decide)
theorem spans_qos : Spans QOS_MASK 13 1 := spans_of_eq rfl (by decide) (by decide)
theorem spans_pduType : Spans PDU_TYPE_MASK 12 1 := spans_of_eq rfl (by decide) (by decide)
theorem spans_dfcId : Spans DFC_ID_MASK 10 2 := spans_of_eq rfl (by decide) (by decide)
theorem spans_scid : Spans SCID_MASK 0 10 := spans_of_eq rfl (by decide) (by decide)
theorem spans_frameLen : Spans FRAME_LEN_MASK 0 11 := spans_of_eq rfl (by decide) (by decide)

def PROXIMITY1_VERSION : BitVec 8 := 0b10
def MAX_DATA_FIELD_LEN : Nat := 2043

structure Proximity1Header where
  versionQosPduDfcScid : BitVec 16
  pcidPortSrcdstLen : BitVec 16
  fsn : UInt8
  deriving DecidableEq, Repr

namespace Proximity1Header

def ofBytes (bytes : Bytes) : Proximity1Header :=
  ⟨Bits.ofBytes (bytes.getD 0 0) (bytes.getD 1 0), Bits.ofBytes (bytes.getD 2 0) (bytes.getD 3 0),
    bytes.getD 4 0⟩

def asBytes (h : Proximity1Header) : Bytes :=
  [highByte h.versionQosPduDfcScid, lowByte h.versionQosPduDfcScid, highByte h.pcidPortSrcdstLen,
    lowByte h.pcidPortSrcdstLen, h.fsn]

def version (h : Proximity1Header) : BitVec 8 :=
  (getBits h.versionQosPduDfcScid VERSION_MASK).setWidth 8

def setVersion (h : Proximity1Header) (version : BitVec 8) : Proximity1Header :=
  { h with versionQosPduDfcScid :=
      setBits h.versionQosPduDfcScid VERSION_MASK (version.setWidth 16) }

def qos (h : Proximity1Header) : QoS :=
  if getBits h.versionQosPduDfcScid QOS_MASK = 1 then .expedited else .sequenceControlled

def setQos (h : Proximity1Header) (qos : QoS) : Proximity1Header :=
  { h with versionQosPduDfcScid :=
      setBits h.versionQosPduDfcScid QOS_MASK (qos.toBits.setWidth 16) }

def pduType (h : Proximity1Header) : PduType :=
  if getBits h.versionQosPduDfcScid PDU_TYPE_MASK = 1 then .supervisory else .userData

def setPduType (h : Proximity1Header) (pduType : PduType) : Proximity1Header :=
  { h with versionQosPduDfcScid :=
      setBits h.versionQosPduDfcScid PDU_TYPE_MASK (pduType.toBits.setWidth 16) }

def dfcId (h : Proximity1Header) : DfcId :=
  match (getBits h.versionQosPduDfcScid DFC_ID_MASK).toNat with
  | 0 => .packets
  | 1 => .segments
  | 2 => .reserved
  | _ => .userDefined

def setDfcId (h : Proximity1Header) (dfcId : DfcId) : Proximity1Header :=
  { h with versionQosPduDfcScid :=
      setBits h.versionQosPduDfcScid DFC_ID_MASK (dfcId.toBits.setWidth 16) }

def scid (h : Proximity1Header) : Scid :=
  (getBits h.versionQosPduDfcScid SCID_MASK).setWidth 32

def setScid (h : Proximity1Header) (scid : Scid) : Proximity1Header :=
  { h with versionQosPduDfcScid :=
      setBits h.versionQosPduDfcScid SCID_MASK (scid.setWidth 16) }

def pcid (h : Proximity1Header) : Bool := getBits h.pcidPortSrcdstLen PCID_MASK != 0

def setPcid (h : Proximity1Header) (pcid : Bool) : Proximity1Header :=
  { h with pcidPortSrcdstLen :=
      setBits h.pcidPortSrcdstLen PCID_MASK ((BitVec.ofBool pcid).setWidth 16) }

def portId (h : Proximity1Header) : BitVec 8 :=
  (getBits h.pcidPortSrcdstLen PORT_ID_MASK).setWidth 8

def setPortId (h : Proximity1Header) (portId : BitVec 8) : Proximity1Header :=
  { h with pcidPortSrcdstLen :=
      setBits h.pcidPortSrcdstLen PORT_ID_MASK (portId.setWidth 16) }

def srcDest (h : Proximity1Header) : SrcDest :=
  if getBits h.pcidPortSrcdstLen SRC_DEST_MASK = 1 then .destination else .source

def setSrcDest (h : Proximity1Header) (srcDest : SrcDest) : Proximity1Header :=
  { h with pcidPortSrcdstLen :=
      setBits h.pcidPortSrcdstLen SRC_DEST_MASK (srcDest.toBits.setWidth 16) }

/-- The field holds the length of the frame minus one. -/
def frameLen (h : Proximity1Header) : Nat :=
  (getBits h.pcidPortSrcdstLen FRAME_LEN_MASK).toNat + 1

def setFrameLen (h : Proximity1Header) (total : Nat) : Proximity1Header :=
  { h with pcidPortSrcdstLen :=
      setBits h.pcidPortSrcdstLen FRAME_LEN_MASK (BitVec.ofNat 16 (total - 1)) }

def setFsn (h : Proximity1Header) (fsn : UInt8) : Proximity1Header := { h with fsn := fsn }

theorem ofBytes_asBytes (h : Proximity1Header) (rest : Bytes) :
    ofBytes (h.asBytes ++ rest) = h := by
  show (⟨Bits.ofBytes (highByte h.versionQosPduDfcScid) (lowByte h.versionQosPduDfcScid),
    Bits.ofBytes (highByte h.pcidPortSrcdstLen) (lowByte h.pcidPortSrcdstLen), h.fsn⟩ :
      Proximity1Header) = h
  rw [ofBytes_bytes, ofBytes_bytes]

theorem frameLen_setFrameLen (h : Proximity1Header) {total : Nat} (hpos : 0 < total)
    (hmax : total ≤ 2048) : (h.setFrameLen total).frameLen = total := by
  have hvalue : (BitVec.ofNat 16 (total - 1)).toNat = total - 1 := by
    rw [BitVec.toNat_ofNat]
    exact Nat.mod_eq_of_lt (by omega)
  have hfits : Fits (BitVec.ofNat 16 (total - 1)) 11 := fits_of_toNat_lt (by omega)
  rw [frameLen, setFrameLen, getBits_setBits_self spans_frameLen hfits, hvalue]
  exact Nat.sub_add_cancel hpos

end Proximity1Header

structure Proximity1TransferFrame where
  header : Proximity1Header
  dataField : Bytes
  deriving DecidableEq, Repr

namespace Proximity1TransferFrame

def HEADER_SIZE : Nat := 5

def refFromBytes (bytes : Bytes) : Option Proximity1TransferFrame :=
  if bytes.length < HEADER_SIZE then none
  else some ⟨.ofBytes bytes, bytes.drop HEADER_SIZE⟩

def parse (bytes : Bytes) : Except (Fault ParseError) Proximity1TransferFrame :=
  if bytes.length < HEADER_SIZE then .error (.error (.tooShortForHeader bytes.length))
  else
    let header := Proximity1Header.ofBytes bytes
    if bytes.length < header.frameLen then
      .error (.error (.incompleteFrame header.frameLen bytes.length))
    else if header.version ≠ PROXIMITY1_VERSION then
      .error (.error (.invalidVersion header.version))
    else
      -- `unwrap` of the cast of the octets up to the announced length
      match refFromBytes (bytes.take header.frameLen) with
      | none => .error .panic
      | some frame => .ok frame

def buildHeader (header : Proximity1Header) (scid : Scid) (qos : QoS) (pduType : PduType)
    (dfcId : DfcId) (pcid : Bool) (portId : BitVec 8) (srcDest : SrcDest) (fsn : UInt8)
    (totalLen : Nat) : Proximity1Header :=
  let header := (((header.setVersion PROXIMITY1_VERSION).setQos qos).setPduType pduType).setDfcId
    dfcId
  let header := (((header.setScid scid).setPcid pcid).setPortId portId).setSrcDest srcDest
  (header.setFrameLen totalLen).setFsn fsn

def new (buffer : Bytes) (scid : Scid) (qos : QoS) (pduType : PduType) (dfcId : DfcId)
    (pcid : Bool) (portId : BitVec 8) (srcDest : SrcDest) (fsn : UInt8) (dataFieldLen : Nat) :
    Except BuildError Bytes :=
  if 10 < numBits scid then .error (.invalidScid scid)
  else if 0x07 < portId then .error (.invalidPortId portId)
  else if MAX_DATA_FIELD_LEN < dataFieldLen then .error (.dataTooLong dataFieldLen)
  else
    let totalLen := HEADER_SIZE + dataFieldLen
    if buffer.length < totalLen then .error (.bufferTooSmall totalLen buffer.length)
    else
      .ok (write buffer 0 (buildHeader (.ofBytes buffer) scid qos pduType dfcId pcid portId srcDest
        fsn totalLen).asBytes)

end Proximity1TransferFrame

open Proximity1TransferFrame

structure Prox1FrameWriterConfig where
  scid : Scid
  qos : QoS
  pduType : PduType
  dfcId : DfcId
  pcid : Bool
  portId : BitVec 8
  srcDest : SrcDest
  maxDataFieldLen : Nat

/-- The identifiers fit their fields. -/
def Prox1FrameWriterConfig.InRange (config : Prox1FrameWriterConfig) : Prop :=
  numBits config.scid ≤ 10 ∧ config.portId ≤ 0x07

theorem new_eq_ok_iff {buffer frame : Bytes} {scid : Scid} {qos : QoS} {pduType : PduType}
    {dfcId : DfcId} {pcid : Bool} {portId : BitVec 8} {srcDest : SrcDest} {fsn : UInt8} {n : Nat} :
    Proximity1TransferFrame.new buffer scid qos pduType dfcId pcid portId srcDest fsn n =
        .ok frame ↔
      numBits scid ≤ 10 ∧ portId ≤ 0x07 ∧ n ≤ MAX_DATA_FIELD_LEN ∧
        HEADER_SIZE + n ≤ buffer.length ∧
        frame = write buffer 0 (buildHeader (.ofBytes buffer) scid qos pduType dfcId pcid portId
          srcDest fsn (HEADER_SIZE + n)).asBytes := by
  unfold Proximity1TransferFrame.new
  by_cases hscid : 10 < numBits scid
  · rw [if_pos hscid]
    exact iff_of_false (fun h => by cases h) (fun h => absurd h.1 (Nat.not_le.2 hscid))
  rw [if_neg hscid]
  by_cases hport : 0x07 < portId
  · rw [if_pos hport]
    exact iff_of_false (fun h => by cases h) (fun h => absurd h.2.1 (BitVec.not_le.2 hport))
  rw [if_neg hport]
  by_cases hn : MAX_DATA_FIELD_LEN < n
  · rw [if_pos hn]
    exact iff_of_false (fun h => by cases h) (fun h => absurd h.2.2.1 (Nat.not_le.2 hn))
  rw [if_neg hn]
  dsimp only
  by_cases hroom : buffer.length < HEADER_SIZE + n
  · rw [if_pos hroom]
    exact iff_of_false (fun h => by cases h) (fun h => absurd h.2.2.2.1 (Nat.not_le.2 hroom))
  rw [if_neg hroom, Except.ok.injEq, eq_comm]
  exact ⟨fun h => ⟨Nat.le_of_not_lt hscid, BitVec.not_lt.1 hport, Nat.le_of_not_lt hn,
    Nat.le_of_not_lt hroom, h⟩, fun h => h.2.2.2.2⟩

def Prox1FrameWriter.format (config : Prox1FrameWriterConfig) : WriterFormat where
  Counters := UInt8
  BuildError := BuildError
  start := 0
  advance := fun fsn => fsn + 1
  dataOffset := HEADER_SIZE
  maxDataLen := config.maxDataFieldLen
  trailerLen := 0
  stamp := fun _ fsn dataLen bytes =>
    Proximity1TransferFrame.new bytes config.scid config.qos config.pduType config.dfcId
      config.pcid config.portId config.srcDest fsn dataLen

theorem length_of_parse {bytes : Bytes} {frame : Proximity1TransferFrame}
    (h : Proximity1TransferFrame.parse bytes = .ok frame) :
    HEADER_SIZE + frame.dataField.length ≤ bytes.length := by
  rw [Proximity1TransferFrame.parse] at h
  by_cases hshort : bytes.length < HEADER_SIZE
  · rw [if_pos hshort] at h
    cases h
  · rw [if_neg hshort] at h
    dsimp only at h
    by_cases hcut : bytes.length < (Proximity1Header.ofBytes bytes).frameLen
    · rw [if_pos hcut] at h
      cases h
    · rw [if_neg hcut] at h
      by_cases hversion : (Proximity1Header.ofBytes bytes).version ≠ PROXIMITY1_VERSION
      · rw [if_pos hversion] at h
        cases h
      · rw [if_neg hversion, refFromBytes, List.length_take,
          Nat.min_eq_left (Nat.le_of_not_lt hcut)] at h
        by_cases hheader : (Proximity1Header.ofBytes bytes).frameLen < HEADER_SIZE
        · rw [if_pos hheader] at h
          cases h
        · rw [if_neg hheader] at h
          cases h
          show HEADER_SIZE + ((bytes.take _).drop HEADER_SIZE).length ≤ bytes.length
          rw [List.length_drop, List.length_take]
          omega

def Prox1FrameReader.layout (bytes : Bytes) : Except (Fault ParseError) (Nat × Nat) :=
  match Proximity1TransferFrame.parse bytes with
  | .error fault => .error fault
  | .ok parsed => .ok (HEADER_SIZE, HEADER_SIZE + parsed.dataField.length)

theorem Prox1FrameReader.layout_le {bytes : Bytes} {dataStart dataEnd : Nat}
    (h : Prox1FrameReader.layout bytes = .ok (dataStart, dataEnd)) : dataEnd ≤ bytes.length := by
  rw [Prox1FrameReader.layout] at h
  cases hparse : Proximity1TransferFrame.parse bytes with
  | error fault =>
    rw [hparse] at h
    cases h
  | ok frame =>
    rw [hparse] at h
    cases h
    exact length_of_parse hparse

def Prox1FrameReader.format : ReaderFormat where
  ParseError := ParseError
  layout := Prox1FrameReader.layout
  layout_le := Prox1FrameReader.layout_le

theorem version_buildHeader (header : Proximity1Header) {scid : Scid} (hscid : numBits scid ≤ 10)
    (qos : QoS) (pduType : PduType) (dfcId : DfcId) (pcid : Bool) (portId : BitVec 8)
    (srcDest : SrcDest) (fsn : UInt8) (totalLen : Nat) :
    (buildHeader header scid qos pduType dfcId pcid portId srcDest fsn totalLen).version =
      PROXIMITY1_VERSION := by
  have hfits : Fits (PROXIMITY1_VERSION.setWidth 16 : BitVec 16) 2 :=
    fits_setWidth (0b10 : BitVec 2)
  show (getBits (setBits (setBits (setBits (setBits (setBits header.versionQosPduDfcScid
    VERSION_MASK (PROXIMITY1_VERSION.setWidth 16)) QOS_MASK _) PDU_TYPE_MASK _) DFC_ID_MASK _)
    SCID_MASK _) VERSION_MASK).setWidth 8 = _
  rw [getBits_setBits_of_disjoint spans_scid spans_version (Or.inl (by decide))
      (fits_of_numBits hscid),
    getBits_setBits_of_disjoint spans_dfcId spans_version (Or.inl (by decide))
      (fits_setWidth dfcId.toBits),
    getBits_setBits_of_disjoint spans_pduType spans_version (Or.inl (by decide))
      (fits_setWidth pduType.toBits),
    getBits_setBits_of_disjoint spans_qos spans_version (Or.inl (by decide))
      (fits_setWidth qos.toBits),
    getBits_setBits_self spans_version hfits]
  rfl

theorem layout_of_frameLen {bytes : Bytes} (hlen : HEADER_SIZE ≤ bytes.length)
    (h : (Proximity1Header.ofBytes bytes).frameLen = bytes.length)
    (hversion : (Proximity1Header.ofBytes bytes).version = PROXIMITY1_VERSION) :
    Prox1FrameReader.format.layout bytes = .ok (HEADER_SIZE, bytes.length) := by
  have hparse : Proximity1TransferFrame.parse bytes =
      .ok ⟨.ofBytes bytes, bytes.drop HEADER_SIZE⟩ := by
    rw [Proximity1TransferFrame.parse, if_neg (Nat.not_lt.2 hlen)]
    dsimp only
    rw [h, if_neg (Nat.lt_irrefl _), if_neg (not_not_intro hversion), List.take_length,
      refFromBytes, if_neg (Nat.not_lt.2 hlen)]
  have hdata : HEADER_SIZE + (bytes.drop HEADER_SIZE).length = bytes.length := by
    rw [List.length_drop, Nat.add_sub_cancel' hlen]
  simp only [Prox1FrameReader.format, Prox1FrameReader.layout, hparse, hdata]

theorem agrees {config : Prox1FrameWriterConfig} (hids : config.InRange)
    (hmax : config.maxDataFieldLen ≤ MAX_DATA_FIELD_LEN) :
    Agrees (Prox1FrameWriter.format config) Prox1FrameReader.format := by
  apply agrees_of_header
  intro _ fsn n bytes hle hlen
  have hlen : bytes.length = HEADER_SIZE + n := hlen
  have hn : n ≤ MAX_DATA_FIELD_LEN := Nat.le_trans hle hmax
  refine ⟨(buildHeader (.ofBytes bytes) config.scid config.qos config.pduType config.dfcId
    config.pcid config.portId config.srcDest fsn (HEADER_SIZE + n)).asBytes, rfl, ?_, ?_⟩
  · exact new_eq_ok_iff.2 ⟨hids.1, hids.2, hn, Nat.le_of_eq hlen.symm, rfl⟩
  · have htotal : ((buildHeader (.ofBytes bytes) config.scid config.qos config.pduType config.dfcId
        config.pcid config.portId config.srcDest fsn (HEADER_SIZE + n)).asBytes ++
        bytes.drop HEADER_SIZE).length = HEADER_SIZE + n := by
      rw [List.length_append, List.length_drop, hlen, Nat.add_sub_cancel_left]
      rfl
    show Prox1FrameReader.format.layout (_ ++ bytes.drop HEADER_SIZE) =
      .ok (HEADER_SIZE, HEADER_SIZE + n)
    rw [layout_of_frameLen, htotal]
    · rw [htotal]
      exact Nat.le_add_right ..
    · rw [htotal, Proximity1Header.ofBytes_asBytes]
      exact Proximity1Header.frameLen_setFrameLen _
        (show 0 < HEADER_SIZE + n by rw [HEADER_SIZE]; omega)
        (show HEADER_SIZE + n ≤ 2048 by rw [HEADER_SIZE]; rw [MAX_DATA_FIELD_LEN] at hn; omega)
    · rw [Proximity1Header.ofBytes_asBytes]
      exact version_buildHeader _ hids.1 ..

/-- A header of the right version that announces no more than the octets at hand announces a
whole header. -/
def Tolerates (bytes : Bytes) : Prop :=
  HEADER_SIZE ≤ bytes.length → (Proximity1Header.ofBytes bytes).frameLen ≤ bytes.length →
    (Proximity1Header.ofBytes bytes).version = PROXIMITY1_VERSION →
    HEADER_SIZE ≤ (Proximity1Header.ofBytes bytes).frameLen

theorem parse_returns_iff {bytes : Bytes} :
    Returns (Proximity1TransferFrame.parse bytes) ↔ Tolerates bytes := by
  rw [Proximity1TransferFrame.parse]
  by_cases hshort : bytes.length < HEADER_SIZE
  · rw [if_pos hshort]
    exact iff_of_true (returns_error _) (fun h => absurd h (Nat.not_le.2 hshort))
  · rw [if_neg hshort]
    dsimp only
    by_cases hcut : bytes.length < (Proximity1Header.ofBytes bytes).frameLen
    · rw [if_pos hcut]
      exact iff_of_true (returns_error _) (fun _ h => absurd h (Nat.not_le.2 hcut))
    · rw [if_neg hcut]
      by_cases hversion : (Proximity1Header.ofBytes bytes).version = PROXIMITY1_VERSION
      · rw [if_neg (not_not_intro hversion), refFromBytes, List.length_take,
          Nat.min_eq_left (Nat.le_of_not_lt hcut)]
        by_cases hheader : (Proximity1Header.ofBytes bytes).frameLen < HEADER_SIZE
        · rw [if_pos hheader]
          exact iff_of_false not_returns_panic fun h => Nat.not_lt.2
            (h (Nat.le_of_not_lt hshort) (Nat.le_of_not_lt hcut) hversion) hheader
        · rw [if_neg hheader]
          exact iff_of_true (returns_ok _) (fun _ _ _ => Nat.le_of_not_lt hheader)
      · rw [if_pos hversion]
        exact iff_of_true (returns_error _) (fun _ _ h => absurd h hversion)

theorem safe_iff {bytes : Bytes} : Prox1FrameReader.format.Safe bytes ↔ Tolerates bytes := by
  rw [ReaderFormat.Safe, ← parse_returns_iff]
  cases hparse : Proximity1TransferFrame.parse bytes with
  | error fault =>
    simp only [Prox1FrameReader.format, Prox1FrameReader.layout, hparse, returns_error_iff]
    cases fault with
    | error e => exact iff_of_true trivial (fun h => by cases h)
    | panic => exact iff_of_false id (fun h => h rfl)
  | ok frame =>
    simp only [Prox1FrameReader.format, Prox1FrameReader.layout, hparse]
    exact iff_of_true (Nat.le_add_right ..) (returns_ok _)

end Proximity1
end Datalink
end Leodos
