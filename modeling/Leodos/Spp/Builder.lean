/-
Building Space Packets, `datalink/spp`, and reading them back.

The builder writes six bit fields and the length over what the buffer holds and leaves the
data field to its caller.  It refuses no combination of fields, and data fields of at most
65535 octets; the parser refuses idle packets with a secondary header, and reads data
fields of up to 65536 octets.
-/
import Leodos.Memory.Cells
import Leodos.Spp.SpacePacket

namespace Leodos
namespace Spp

open Bits

inductive BuildError where
  | bufferTooSmall (required provided : Nat)
  | invalidApid (value : Apid)
  | emptyDataField
  deriving DecidableEq, Repr

namespace PrimaryHeader

def asBytes (h : PrimaryHeader) : Bytes :=
  [highByte h.packetVersionAndId, lowByte h.packetVersionAndId,
    highByte h.packetSequenceControl, lowByte h.packetSequenceControl,
    highByte h.packetDataLength, lowByte h.packetDataLength]

def fill (h : PrimaryHeader) (apid : Apid) (packetType : PacketType)
    (sequenceCount : SequenceCount) (secondaryHeader : SecondaryHeaderFlag)
    (sequenceFlag : SequenceFlag) (dataLen : Nat) : PrimaryHeader :=
  ((((((h.setVersion PacketVersion.VERSION_1).setPacketType packetType).setApid
    apid).setSequenceCount sequenceCount).setDataFieldLen
      (BitVec.ofNat 16 dataLen)).setSecondaryHeaderFlag secondaryHeader).setSequenceFlag
        sequenceFlag

end PrimaryHeader

namespace SpacePacket

def asBytes (p : SpacePacket) : Bytes := p.primaryHeader.asBytes ++ p.dataField

/-- The view of a whole byte string. -/
def refFromBytes (bytes : Bytes) : Option SpacePacket :=
  if PrimaryHeader.SIZE ≤ bytes.length then
    some ⟨PrimaryHeader.ofBytes bytes, bytes.drop PrimaryHeader.SIZE⟩
  else none

def new (buffer : Bytes) (apid : Apid) (packetType : PacketType) (sequenceCount : SequenceCount)
    (secondaryHeader : SecondaryHeaderFlag) (sequenceFlag : SequenceFlag) (dataLen : Nat) :
    Except BuildError SpacePacket :=
  if 65535 < dataLen then .error (.invalidApid apid)
  else if dataLen = 0 then .error .emptyDataField
  else if buffer.length < PrimaryHeader.SIZE + dataLen then
    .error (.bufferTooSmall (dataLen + PrimaryHeader.SIZE) buffer.length)
  else
    .ok {
      primaryHeader := (PrimaryHeader.ofBytes buffer).fill apid packetType sequenceCount
        secondaryHeader sequenceFlag dataLen
      dataField := (buffer.drop PrimaryHeader.SIZE).take dataLen }

/-- Copy octets into the data field; `none` is the panic on another length. -/
def copyDataField (p : SpacePacket) (data : Bytes) : Option SpacePacket :=
  if data.length = p.dataField.length then some { p with dataField := data } else none

/-- `&bytes[..len]`. -/
def sliceTo (bytes : Bytes) (len : Nat) : Option Bytes :=
  if len ≤ bytes.length then some (bytes.take len) else none

/-- `parse` with its panics: a cast that fails and a slice out of range are `none`. -/
def parseChecked (bytes : Bytes) : Option (Except ParseError SpacePacket) :=
  if bytes.length < PrimaryHeader.SIZE then some (.error (.tooShortForHeader bytes.length))
  else
    (refFromBytes bytes).bind fun packet =>
      match packet.primaryHeader.validate with
      | .error e => some (.error (.invalid e))
      | .ok () =>
        if bytes.length < packet.primaryHeader.packetLen then
          some (.error (.incompletePacket packet.primaryHeader.packetLen bytes.length))
        else ((sliceTo bytes packet.primaryHeader.packetLen).bind refFromBytes).map .ok

end SpacePacket

/-! ## The bit fields -/

namespace PrimaryHeader

theorem spans_version : Spans PACKET_VERSION_MASK 13 3 := spans_of_eq rfl (by decide) (by decide)
theorem spans_type : Spans PACKET_TYPE_MASK 12 1 := spans_of_eq rfl (by decide) (by decide)
theorem spans_secHdr : Spans SEC_HDR_MASK 11 1 := spans_of_eq rfl (by decide) (by decide)

theorem bit_of_fits {value : BitVec 16} (h : Fits value 1) : value = 0 ∨ value = 1 := by
  have hcut := setWidth_setWidth_of_fits h
  have hbit : ∀ b : BitVec 1, b = 0 ∨ b = 1 := by decide
  obtain hzero | hone := hbit (value.setWidth 1)
  · rw [hzero] at hcut
    exact Or.inl hcut.symm
  · rw [hone] at hcut
    exact Or.inr hcut.symm

theorem toBits_packetType (h : PrimaryHeader) :
    h.packetType.toBits.setWidth 16 = getBits h.packetVersionAndId PACKET_TYPE_MASK := by
  rw [packetType]
  obtain hzero | hone := bit_of_fits (fits_getBits spans_type h.packetVersionAndId)
  · rw [hzero]
    rfl
  · rw [hone]
    rfl

theorem toBits_secondaryHeaderFlag (h : PrimaryHeader) :
    h.secondaryHeaderFlag.toBits.setWidth 16 = getBits h.packetVersionAndId SEC_HDR_MASK := by
  rw [secondaryHeaderFlag]
  obtain hzero | hone := bit_of_fits (fits_getBits spans_secHdr h.packetVersionAndId)
  · rw [hzero]
    rfl
  · rw [hone]
    rfl

theorem toBits_ofBits (bits : BitVec 2) : (SequenceFlag.ofBits bits).toBits = bits := by
  revert bits
  decide

theorem toBits_sequenceFlag (h : PrimaryHeader) :
    h.sequenceFlag.toBits.setWidth 16 = getBits h.packetSequenceControl SEQ_FLAG_MASK := by
  rw [sequenceFlag, toBits_ofBits, setWidth_setWidth_of_fits (fits_getBits spans_seqFlag _)]

theorem setWidth_sequenceCount (h : PrimaryHeader) :
    h.sequenceCount.setWidth 16 = getBits h.packetSequenceControl SEQ_COUNT_MASK := by
  rw [sequenceCount, setWidth_setWidth_of_fits (fits_getBits spans_seqCount _)]

theorem setWidth_apid (h : PrimaryHeader) :
    h.apid.setWidth 16 = getBits h.packetVersionAndId APID_MASK := by
  rw [apid_eq, setWidth_setWidth_of_fits (fits_getBits spans_apid _)]

theorem setWidth_version (h : PrimaryHeader) :
    h.version.setWidth 16 = getBits h.packetVersionAndId PACKET_VERSION_MASK := by
  rw [version, setWidth_setWidth_of_fits (fits_getBits spans_version _)]

/-! ## Reading back what the builder wrote -/

section Fill

variable (h : PrimaryHeader) (apid : Apid) (packetType : PacketType)
  (sequenceCount : SequenceCount) (secondaryHeader : SecondaryHeaderFlag)
  (sequenceFlag : SequenceFlag) (dataLen : Nat)

theorem packetVersionAndId_fill :
    (h.fill apid packetType sequenceCount secondaryHeader sequenceFlag dataLen).packetVersionAndId =
      setBits (setBits (setBits (setBits h.packetVersionAndId PACKET_VERSION_MASK
        (PacketVersion.VERSION_1.setWidth 16)) PACKET_TYPE_MASK (packetType.toBits.setWidth 16))
        APID_MASK (apid.setWidth 16)) SEC_HDR_MASK (secondaryHeader.toBits.setWidth 16) := by
  show setBits (((h.setVersion PacketVersion.VERSION_1).setPacketType packetType).setApid
    apid).packetVersionAndId SEC_HDR_MASK _ = _
  rw [setApid_eq]
  rfl

theorem packetSequenceControl_fill :
    (h.fill apid packetType sequenceCount secondaryHeader sequenceFlag
      dataLen).packetSequenceControl =
      setBits (setBits h.packetSequenceControl SEQ_COUNT_MASK (sequenceCount.setWidth 16))
        SEQ_FLAG_MASK (sequenceFlag.toBits.setWidth 16) := rfl

theorem version_fill :
    (h.fill apid packetType sequenceCount secondaryHeader sequenceFlag dataLen).version =
      PacketVersion.VERSION_1 := by
  rw [version, packetVersionAndId_fill,
    getBits_setBits_of_disjoint spans_secHdr spans_version (by decide) (fits_setWidth _),
    getBits_setBits_of_disjoint spans_apid spans_version (by decide) (fits_setWidth _),
    getBits_setBits_of_disjoint spans_type spans_version (by decide) (fits_setWidth _),
    getBits_setBits_self spans_version (fits_setWidth _)]
  rfl

theorem packetType_fill :
    (h.fill apid packetType sequenceCount secondaryHeader sequenceFlag dataLen).packetType =
      packetType := by
  rw [PrimaryHeader.packetType, packetVersionAndId_fill,
    getBits_setBits_of_disjoint spans_secHdr spans_type (by decide) (fits_setWidth _),
    getBits_setBits_of_disjoint spans_apid spans_type (by decide) (fits_setWidth _),
    getBits_setBits_self spans_type (fits_setWidth _)]
  cases packetType <;> rfl

theorem apid_fill :
    (h.fill apid packetType sequenceCount secondaryHeader sequenceFlag dataLen).apid = apid := by
  rw [apid_eq, packetVersionAndId_fill,
    getBits_setBits_of_disjoint spans_secHdr spans_apid (by decide) (fits_setWidth _),
    getBits_setBits_self spans_apid (fits_setWidth _),
    BitVec.setWidth_setWidth_of_le apid (by decide), BitVec.setWidth_eq]

theorem secondaryHeaderFlag_fill :
    (h.fill apid packetType sequenceCount secondaryHeader sequenceFlag
      dataLen).secondaryHeaderFlag = secondaryHeader := by
  rw [secondaryHeaderFlag, packetVersionAndId_fill,
    getBits_setBits_self spans_secHdr (fits_setWidth _)]
  cases secondaryHeader <;> rfl

theorem sequenceFlag_fill :
    (h.fill apid packetType sequenceCount secondaryHeader sequenceFlag dataLen).sequenceFlag =
      sequenceFlag := sequenceFlag_setSequenceFlag _ _

theorem sequenceCount_fill :
    (h.fill apid packetType sequenceCount secondaryHeader sequenceFlag dataLen).sequenceCount =
      sequenceCount := by
  rw [PrimaryHeader.sequenceCount, packetSequenceControl_fill,
    getBits_setBits_of_disjoint spans_seqFlag spans_seqCount (by decide) (fits_setWidth _),
    getBits_setBits_self spans_seqCount (fits_setWidth _),
    BitVec.setWidth_setWidth_of_le sequenceCount (by decide), BitVec.setWidth_eq]

theorem dataFieldLen_fill (hpos : dataLen ≠ 0) (hle : dataLen ≤ 65535) :
    (h.fill apid packetType sequenceCount secondaryHeader sequenceFlag dataLen).dataFieldLen =
      dataLen := by
  show (BitVec.ofNat 16 dataLen - 1).toNat + 1 = dataLen
  bv_omega

theorem validate_fill :
    (h.fill apid packetType sequenceCount secondaryHeader sequenceFlag dataLen).validate = .ok () ↔
      ¬ (apid = Apid.IDLE ∧ secondaryHeader = .present) := by
  rw [validate, version_fill, apid_fill, secondaryHeaderFlag_fill, if_neg (fun hne => hne rfl)]
  by_cases hidle : apid = Apid.IDLE ∧ secondaryHeader = .present
  · rw [if_pos hidle]
    exact ⟨fun hok => (by cases hok), fun hnot => (hnot hidle).elim⟩
  · rw [if_neg hidle]
    exact ⟨fun _ => hidle, fun _ => rfl⟩

end Fill

theorem fill_fields (h other : PrimaryHeader) (hversion : h.version = PacketVersion.VERSION_1) :
    other.fill h.apid h.packetType h.sequenceCount h.secondaryHeaderFlag h.sequenceFlag
      h.dataFieldLen = h := by
  have hident : (other.fill h.apid h.packetType h.sequenceCount h.secondaryHeaderFlag
      h.sequenceFlag h.dataFieldLen).packetVersionAndId = h.packetVersionAndId := by
    rw [packetVersionAndId_fill, ← hversion, setWidth_version, toBits_packetType, setWidth_apid,
      toBits_secondaryHeaderFlag]
    apply BitVec.eq_of_getLsbD_eq
    intro i hi
    rw [getLsbD_setBits_getBits spans_secHdr _ _ hi, getLsbD_setBits_getBits spans_apid _ _ hi,
      getLsbD_setBits_getBits spans_type _ _ hi, getLsbD_setBits_getBits spans_version _ _ hi]
    -- the four fields cover the word
    by_cases hapid : i < 11
    · rw [if_neg (by omega), if_pos (by omega)]
    · by_cases hsec : i < 12
      · rw [if_pos (by omega)]
      · rw [if_neg (by omega), if_neg (by omega)]
        by_cases htype : i < 13
        · rw [if_pos (by omega)]
        · rw [if_neg (by omega), if_pos (by omega)]
  have hcontrol : (other.fill h.apid h.packetType h.sequenceCount h.secondaryHeaderFlag
      h.sequenceFlag h.dataFieldLen).packetSequenceControl = h.packetSequenceControl := by
    rw [packetSequenceControl_fill, setWidth_sequenceCount, toBits_sequenceFlag]
    apply BitVec.eq_of_getLsbD_eq
    intro i hi
    rw [getLsbD_setBits_getBits spans_seqFlag _ _ hi, getLsbD_setBits_getBits spans_seqCount _ _ hi]
    by_cases hcount : i < 14
    · rw [if_neg (by omega), if_pos (by omega)]
    · rw [if_pos (by omega)]
  have hlength : (other.fill h.apid h.packetType h.sequenceCount h.secondaryHeaderFlag
      h.sequenceFlag h.dataFieldLen).packetDataLength = h.packetDataLength := by
    show BitVec.ofNat 16 (h.packetDataLength.toNat + 1) - 1 = h.packetDataLength
    bv_omega
  cases h
  rw [PrimaryHeader.mk.injEq]
  exact ⟨hident, hcontrol, hlength⟩

theorem length_asBytes (h : PrimaryHeader) : h.asBytes.length = SIZE := rfl

theorem ofBytes_asBytes (h : PrimaryHeader) (rest : Bytes) : ofBytes (h.asBytes ++ rest) = h := by
  rw [ofBytes]
  simp only [asBytes, List.cons_append, List.nil_append, List.getD_cons_zero, List.getD_cons_succ,
    ofBytes_bytes]

theorem asBytes_ofBytes {bytes : Bytes} (h : SIZE ≤ bytes.length) :
    (ofBytes bytes).asBytes = bytes.take SIZE := by
  rw [Memory.take_eq_map_getD h 0, asBytes, ofBytes]
  simp only [highByte_ofBytes, lowByte_ofBytes]
  rfl

end PrimaryHeader

namespace SpacePacket

theorem length_asBytes (p : SpacePacket) :
    p.asBytes.length = PrimaryHeader.SIZE + p.dataField.length := by
  rw [asBytes, List.length_append]
  rfl

theorem new_eq_ok_iff {buffer : Bytes} {apid : Apid} {packetType : PacketType}
    {sequenceCount : SequenceCount} {secondaryHeader : SecondaryHeaderFlag}
    {sequenceFlag : SequenceFlag} {dataLen : Nat} {p : SpacePacket} :
    new buffer apid packetType sequenceCount secondaryHeader sequenceFlag dataLen = .ok p ↔
      dataLen ≠ 0 ∧ dataLen ≤ 65535 ∧ PrimaryHeader.SIZE + dataLen ≤ buffer.length ∧
      p = ⟨(PrimaryHeader.ofBytes buffer).fill apid packetType sequenceCount secondaryHeader
        sequenceFlag dataLen, (buffer.drop PrimaryHeader.SIZE).take dataLen⟩ := by
  rw [new]
  by_cases hlong : 65535 < dataLen
  · rw [if_pos hlong]
    exact ⟨fun h => (by cases h), fun h => absurd h.2.1 (Nat.not_le.2 hlong)⟩
  · rw [if_neg hlong]
    by_cases hzero : dataLen = 0
    · rw [if_pos hzero]
      exact ⟨fun h => (by cases h), fun h => absurd hzero h.1⟩
    · rw [if_neg hzero]
      by_cases hshort : buffer.length < PrimaryHeader.SIZE + dataLen
      · rw [if_pos hshort]
        exact ⟨fun h => (by cases h), fun h => absurd h.2.2.1 (Nat.not_le.2 hshort)⟩
      · rw [if_neg hshort, Except.ok.injEq]
        exact ⟨fun h => ⟨hzero, Nat.not_lt.1 hlong, Nat.not_lt.1 hshort, h.symm⟩,
          fun h => h.2.2.2.symm⟩

/-- A packet whose header counts its data field is parsed from the front of anything, if
its header is valid. -/
theorem parse_asBytes {p : SpacePacket} (hlen : p.primaryHeader.dataFieldLen = p.dataField.length)
    (rest : Bytes) :
    parse (p.asBytes ++ rest) =
      match p.primaryHeader.validate with
      | .error e => .error (.invalid e)
      | .ok () => .ok p := by
  have hheader : PrimaryHeader.ofBytes (p.asBytes ++ rest) = p.primaryHeader := by
    rw [asBytes, List.append_assoc]
    exact p.primaryHeader.ofBytes_asBytes _
  have hpacket : p.primaryHeader.packetLen = p.asBytes.length := by
    rw [PrimaryHeader.packetLen, hlen, length_asBytes]
    omega
  have hsize : ¬ (p.asBytes ++ rest).length < PrimaryHeader.SIZE := by
    rw [List.length_append, length_asBytes]
    omega
  have hwhole : ¬ (p.asBytes ++ rest).length < p.primaryHeader.packetLen := by
    rw [hpacket, List.length_append]
    omega
  have hdata : ((p.asBytes ++ rest).take p.primaryHeader.packetLen).drop PrimaryHeader.SIZE =
      p.dataField := by
    rw [hpacket, List.take_left, asBytes, ← p.primaryHeader.length_asBytes, List.drop_left]
  rw [parse, if_neg hsize]
  dsimp only
  rw [hheader, if_neg hwhole]
  cases p.primaryHeader.validate with
  | error e => rfl
  | ok u => exact congrArg (fun d => Except.ok (SpacePacket.mk p.primaryHeader d)) hdata

theorem asBytes_of_parse {bytes : Bytes} {p : SpacePacket} (h : parse bytes = .ok p) :
    p.primaryHeader.validate = .ok () ∧ p.primaryHeader.packetLen ≤ bytes.length ∧
      p.asBytes = bytes.take p.primaryHeader.packetLen ∧
      p.dataField.length = p.primaryHeader.dataFieldLen := by
  obtain ⟨hvalid, hlen, rfl⟩ := parse_ok_iff.1 h
  have hsize := (PrimaryHeader.ofBytes bytes).SIZE_lt_packetLen
  have hpacket : (PrimaryHeader.ofBytes bytes).packetLen =
      (PrimaryHeader.ofBytes bytes).dataFieldLen + PrimaryHeader.SIZE := rfl
  refine ⟨hvalid, hlen, ?_, ?_⟩
  · show (PrimaryHeader.ofBytes bytes).asBytes ++ (bytes.take _).drop PrimaryHeader.SIZE = _
    have htake : bytes.take PrimaryHeader.SIZE =
        (bytes.take (PrimaryHeader.ofBytes bytes).packetLen).take PrimaryHeader.SIZE := by
      rw [List.take_take, Nat.min_eq_left (by omega)]
    rw [PrimaryHeader.asBytes_ofBytes (by omega), htake, List.take_append_drop]
  · show ((bytes.take (PrimaryHeader.ofBytes bytes).packetLen).drop PrimaryHeader.SIZE).length =
      (PrimaryHeader.ofBytes bytes).dataFieldLen
    rw [List.length_drop, List.length_take, Nat.min_eq_left hlen]
    omega

theorem parseChecked_eq (bytes : Bytes) : parseChecked bytes = some (parse bytes) := by
  rw [parseChecked, parse]
  by_cases hshort : bytes.length < PrimaryHeader.SIZE
  · rw [if_pos hshort, if_pos hshort]
  · have hview : refFromBytes bytes =
        some ⟨PrimaryHeader.ofBytes bytes, bytes.drop PrimaryHeader.SIZE⟩ :=
      if_pos (Nat.not_lt.1 hshort)
    rw [if_neg hshort, if_neg hshort, hview, Option.bind_some]
    dsimp only
    cases (PrimaryHeader.ofBytes bytes).validate with
    | error e => rfl
    | ok u =>
      dsimp only
      by_cases hlen : bytes.length < (PrimaryHeader.ofBytes bytes).packetLen
      · rw [if_pos hlen, if_pos hlen]
      · have hsize := (PrimaryHeader.ofBytes bytes).SIZE_lt_packetLen
        have hfront : PrimaryHeader.ofBytes (bytes.take (PrimaryHeader.ofBytes bytes).packetLen) =
            PrimaryHeader.ofBytes bytes := by
          apply PrimaryHeader.ofBytes_congr
          rw [List.take_take, Nat.min_eq_left (by omega)]
        have hslice : sliceTo bytes (PrimaryHeader.ofBytes bytes).packetLen =
            some (bytes.take (PrimaryHeader.ofBytes bytes).packetLen) := if_pos (Nat.not_lt.1 hlen)
        have hcast : PrimaryHeader.SIZE ≤
            (bytes.take (PrimaryHeader.ofBytes bytes).packetLen).length := by
          rw [List.length_take]
          omega
        rw [if_neg hlen, if_neg hlen, hslice, Option.bind_some, refFromBytes, if_pos hcast, hfront]
        rfl

/-! ## Builder and parser -/

/-- Whatever follows the built packet, the parser returns it with the fields it was built
from. -/
def Reparses (p : SpacePacket) (apid : Apid) (packetType : PacketType)
    (sequenceCount : SequenceCount) (secondaryHeader : SecondaryHeaderFlag)
    (sequenceFlag : SequenceFlag) (dataLen : Nat) : Prop :=
  ∀ trailing, ∃ view, parse (p.asBytes ++ trailing) = .ok view ∧
    view.asBytes = p.asBytes ∧ view.asBytes.length = PrimaryHeader.SIZE + dataLen ∧
    view.primaryHeader.apid = apid ∧ view.primaryHeader.packetType = packetType ∧
    view.primaryHeader.sequenceCount = sequenceCount ∧
    view.primaryHeader.secondaryHeaderFlag = secondaryHeader ∧
    view.primaryHeader.sequenceFlag = sequenceFlag ∧ view.primaryHeader.dataFieldLen = dataLen

/-- A packet built over the buffer with the fields of the view and filled with its data
field has the octets of the view. -/
def Rebuilds (buffer : Bytes) (view : SpacePacket) : Prop :=
  ∃ built copied, new buffer view.primaryHeader.apid view.primaryHeader.packetType
      view.primaryHeader.sequenceCount view.primaryHeader.secondaryHeaderFlag
      view.primaryHeader.sequenceFlag view.primaryHeader.dataFieldLen = .ok built ∧
    built.copyDataField view.dataField = some copied ∧ copied.asBytes = view.asBytes

theorem reparses_iff {buffer : Bytes} {apid : Apid} {packetType : PacketType}
    {sequenceCount : SequenceCount} {secondaryHeader : SecondaryHeaderFlag}
    {sequenceFlag : SequenceFlag} {dataLen : Nat} {p : SpacePacket}
    (h : new buffer apid packetType sequenceCount secondaryHeader sequenceFlag dataLen = .ok p) :
    p.Reparses apid packetType sequenceCount secondaryHeader sequenceFlag dataLen ↔
      ¬ (apid = Apid.IDLE ∧ secondaryHeader = .present) := by
  obtain ⟨hpos, hle, hroom, rfl⟩ := new_eq_ok_iff.1 h
  have hcount := (PrimaryHeader.ofBytes buffer).dataFieldLen_fill apid packetType sequenceCount
    secondaryHeader sequenceFlag dataLen hpos hle
  have hdata : ((buffer.drop PrimaryHeader.SIZE).take dataLen).length = dataLen := by
    rw [List.length_take, List.length_drop]
    omega
  have hparse := parse_asBytes (p := ⟨(PrimaryHeader.ofBytes buffer).fill apid packetType
    sequenceCount secondaryHeader sequenceFlag dataLen,
    (buffer.drop PrimaryHeader.SIZE).take dataLen⟩) (hcount.trans hdata.symm)
  rw [← (PrimaryHeader.ofBytes buffer).validate_fill apid packetType sequenceCount secondaryHeader
    sequenceFlag dataLen]
  constructor
  · intro hall
    obtain ⟨view, hview, -⟩ := hall []
    rw [hparse] at hview
    cases hvalid : ((PrimaryHeader.ofBytes buffer).fill apid packetType sequenceCount
        secondaryHeader sequenceFlag dataLen).validate with
    | error e =>
      rw [hvalid] at hview
      cases hview
    | ok u => rfl
  · intro hvalid trailing
    refine ⟨_, ?_, rfl, ?_, PrimaryHeader.apid_fill .., PrimaryHeader.packetType_fill ..,
      PrimaryHeader.sequenceCount_fill .., PrimaryHeader.secondaryHeaderFlag_fill ..,
      PrimaryHeader.sequenceFlag_fill .., hcount⟩
    · rw [hparse, hvalid]
    · rw [length_asBytes, hdata]

theorem rebuilds_iff {bytes buffer : Bytes} {view : SpacePacket} (h : parse bytes = .ok view)
    (hroom : view.primaryHeader.packetLen ≤ buffer.length) :
    Rebuilds buffer view ↔ view.primaryHeader.dataFieldLen ≤ 65535 := by
  obtain ⟨hvalid, -, -, hdata⟩ := asBytes_of_parse h
  have hversion : view.primaryHeader.version = PacketVersion.VERSION_1 := by
    rw [PrimaryHeader.validate] at hvalid
    by_cases hv : view.primaryHeader.version = PacketVersion.VERSION_1
    · exact hv
    · rw [if_pos hv] at hvalid
      cases hvalid
  have hpacket : view.primaryHeader.packetLen =
      view.primaryHeader.dataFieldLen + PrimaryHeader.SIZE := rfl
  have hlen : ((buffer.drop PrimaryHeader.SIZE).take view.primaryHeader.dataFieldLen).length =
      view.primaryHeader.dataFieldLen := by
    rw [List.length_take, List.length_drop]
    omega
  constructor
  · intro hbuilt
    obtain ⟨built, -, hnew, -⟩ := hbuilt
    exact (new_eq_ok_iff.1 hnew).2.1
  · intro hle
    have hfits : PrimaryHeader.SIZE + view.primaryHeader.dataFieldLen ≤ buffer.length := by omega
    refine ⟨_, _, new_eq_ok_iff.2 ⟨Nat.succ_ne_zero _, hle, hfits, rfl⟩,
      if_pos (hdata.trans hlen.symm), ?_⟩
    rw [PrimaryHeader.fill_fields _ _ hversion]

/-- Building and parsing are inverse but for idle packets with a secondary header, which
only the builder accepts, and for packets of 65536 octets of data, which only the parser
does; and the parser never panics. -/
theorem build_parse_inverse_iff (buffer bytes : Bytes) :
    (∀ apid packetType sequenceCount secondaryHeader sequenceFlag dataLen p,
      new buffer apid packetType sequenceCount secondaryHeader sequenceFlag dataLen = .ok p →
        (p.Reparses apid packetType sequenceCount secondaryHeader sequenceFlag dataLen ↔
          ¬ (apid = Apid.IDLE ∧ secondaryHeader = .present))) ∧
    (∀ view, parse bytes = .ok view → view.primaryHeader.packetLen ≤ buffer.length →
      (Rebuilds buffer view ↔ view.primaryHeader.dataFieldLen ≤ 65535)) ∧
    parseChecked bytes = some (parse bytes) :=
  ⟨fun _ _ _ _ _ _ _ h => reparses_iff h, fun _ h hroom => rebuilds_iff h hroom,
    parseChecked_eq bytes⟩

/-- A telemetry packet of one octet over a dirty buffer, and the same packet rebuilt over
another one. -/
theorem build_parse_inverse_one :
    (∃ p, new [255, 255, 255, 255, 255, 255, 7, 9] 42 .telemetry 5 .absent .unsegmented 1 = .ok p ∧
      p.Reparses 42 .telemetry 5 .absent .unsegmented 1) ∧
    ∃ view, parse [0, 42, 0xc0, 5, 0, 0, 7, 9] = .ok view ∧
      Rebuilds [1, 2, 3, 4, 5, 6, 7] view :=
  ⟨⟨_, rfl,
      ((build_parse_inverse_iff [255, 255, 255, 255, 255, 255, 7, 9] []).1 _ _ _ _ _ _ _ rfl).2
        (by decide)⟩,
    ⟨_, rfl,
      ((build_parse_inverse_iff [1, 2, 3, 4, 5, 6, 7] [0, 42, 0xc0, 5, 0, 0, 7, 9]).2.1 _ rfl
        (by decide)).2 (by decide)⟩⟩

/-- An idle packet with a secondary header is built and not parsed. -/
theorem idle_with_header_not_parsed :
    ∃ p, new [0, 0, 0, 0, 0, 0, 0] Apid.IDLE .telemetry 0 .present .unsegmented 1 = .ok p ∧
      parse p.asBytes = .error (.invalid .idlePacketWithSecondaryHeader) ∧
      ¬ p.Reparses Apid.IDLE .telemetry 0 .present .unsegmented 1 := by
  refine ⟨_, rfl, rfl, fun h => ?_⟩
  obtain ⟨view, hview, -⟩ := h []
  cases hview

end SpacePacket

end Spp
end Leodos
