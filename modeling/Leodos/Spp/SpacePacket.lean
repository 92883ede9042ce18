/-
The primary header of a Space Packet, `datalink/spp`.

Three big-endian words hold the bit fields.  The length field counts the octets of the
data field minus one.
-/
import Leodos.Bits.Field
import Leodos.Spp.Sequence

namespace Leodos
namespace Spp

open Bits

abbrev Apid := BitVec 11

/-- Version 1 is coded as zero. -/
def PacketVersion.VERSION_1 : BitVec 3 := 0

inductive PacketType where
  | telemetry
  | telecommand
  deriving DecidableEq, Repr

inductive SecondaryHeaderFlag where
  | absent
  | present
  deriving DecidableEq, Repr

def PacketType.toBits : PacketType → BitVec 1
  | telemetry => 0
  | telecommand => 1

def SecondaryHeaderFlag.toBits : SecondaryHeaderFlag → BitVec 1
  | absent => 0
  | present => 1

def SequenceFlag.toBits : SequenceFlag → BitVec 2
  | continuation => 0
  | first => 1
  | last => 2
  | unsegmented => 3

def SequenceFlag.ofBits (bits : BitVec 2) : SequenceFlag :=
  if bits = 0 then continuation
  else if bits = 1 then first
  else if bits = 2 then last
  else unsegmented

@[simp] theorem SequenceFlag.ofBits_toBits (flag : SequenceFlag) : ofBits flag.toBits = flag := by
  cases flag <;> rfl

structure PrimaryHeader where
  packetVersionAndId : BitVec 16
  packetSequenceControl : BitVec 16
  packetDataLength : BitVec 16
  deriving DecidableEq, Repr

namespace PrimaryHeader

def PACKET_VERSION_MASK : BitVec 16 := 0b1110000000000000
def PACKET_TYPE_MASK : BitVec 16 := 0b0001000000000000
def SEC_HDR_MASK : BitVec 16 := 0b0000100000000000
def APID_MASK : BitVec 16 := 0b0000011111111111
def SEQ_FLAG_MASK : BitVec 16 := 0b1100000000000000
def SEQ_COUNT_MASK : BitVec 16 := 0b0011111111111111

theorem spans_apid : Spans APID_MASK 0 11 := spans_of_eq rfl (by decide) (by decide)
theorem spans_seqFlag : Spans SEQ_FLAG_MASK 14 2 := spans_of_eq rfl (by decide) (by decide)
theorem spans_seqCount : Spans SEQ_COUNT_MASK 0 14 := spans_of_eq rfl (by decide) (by decide)

def setVersion (h : PrimaryHeader) (version : BitVec 3) : PrimaryHeader :=
  { h with packetVersionAndId :=
      setBits h.packetVersionAndId PACKET_VERSION_MASK (version.setWidth 16) }

def setPacketType (h : PrimaryHeader) (packetType : PacketType) : PrimaryHeader :=
  { h with packetVersionAndId :=
      setBits h.packetVersionAndId PACKET_TYPE_MASK (packetType.toBits.setWidth 16) }

def setSecondaryHeaderFlag (h : PrimaryHeader) (flag : SecondaryHeaderFlag) : PrimaryHeader :=
  { h with packetVersionAndId :=
      setBits h.packetVersionAndId SEC_HDR_MASK (flag.toBits.setWidth 16) }

def apid (h : PrimaryHeader) : Apid := (h.packetVersionAndId &&& APID_MASK).setWidth 11

def setApid (h : PrimaryHeader) (apid : Apid) : PrimaryHeader :=
  { h with packetVersionAndId := (h.packetVersionAndId &&& ~~~APID_MASK) ||| apid.setWidth 16 }

def sequenceFlag (h : PrimaryHeader) : SequenceFlag :=
  .ofBits ((getBits h.packetSequenceControl SEQ_FLAG_MASK).setWidth 2)

def setSequenceFlag (h : PrimaryHeader) (flag : SequenceFlag) : PrimaryHeader :=
  { h with packetSequenceControl :=
      setBits h.packetSequenceControl SEQ_FLAG_MASK (flag.toBits.setWidth 16) }

def sequenceCount (h : PrimaryHeader) : SequenceCount :=
  (getBits h.packetSequenceControl SEQ_COUNT_MASK).setWidth 14

def setSequenceCount (h : PrimaryHeader) (count : SequenceCount) : PrimaryHeader :=
  { h with packetSequenceControl :=
      setBits h.packetSequenceControl SEQ_COUNT_MASK (count.setWidth 16) }

/-- A length of zero wraps in release code. -/
def setDataFieldLen (h : PrimaryHeader) (len : BitVec 16) : PrimaryHeader :=
  { h with packetDataLength := len - 1 }

/-! ## Reading back -/

theorem apid_eq (h : PrimaryHeader) :
    h.apid = (getBits h.packetVersionAndId APID_MASK).setWidth 11 := by
  rw [apid, getBits, spans_apid.1, BitVec.ushiftRight_zero]

theorem setApid_eq (h : PrimaryHeader) (apid : Apid) :
    (h.setApid apid).packetVersionAndId =
      setBits h.packetVersionAndId APID_MASK (apid.setWidth 16) := by
  rw [setApid, setBits, spans_apid.1, BitVec.shiftLeft_zero]

@[simp] theorem apid_setApid (h : PrimaryHeader) (apid : Apid) : (h.setApid apid).apid = apid := by
  rw [apid_eq, setApid_eq, getBits_setBits_self spans_apid (fits_setWidth apid),
    BitVec.setWidth_setWidth_of_le apid (by decide), BitVec.setWidth_eq]

@[simp] theorem sequenceFlag_setSequenceFlag (h : PrimaryHeader) (flag : SequenceFlag) :
    (h.setSequenceFlag flag).sequenceFlag = flag := by
  rw [sequenceFlag, setSequenceFlag, getBits_setBits_self spans_seqFlag (fits_setWidth _),
    BitVec.setWidth_setWidth_of_le _ (by decide), BitVec.setWidth_eq, SequenceFlag.ofBits_toBits]

@[simp] theorem sequenceCount_setSequenceCount (h : PrimaryHeader) (count : SequenceCount) :
    (h.setSequenceCount count).sequenceCount = count := by
  rw [sequenceCount, setSequenceCount, getBits_setBits_self spans_seqCount (fits_setWidth count),
    BitVec.setWidth_setWidth_of_le count (by decide), BitVec.setWidth_eq]

@[simp] theorem sequenceCount_setSequenceFlag (h : PrimaryHeader) (flag : SequenceFlag) :
    (h.setSequenceFlag flag).sequenceCount = h.sequenceCount := by
  rw [sequenceCount, setSequenceFlag,
    getBits_setBits_of_disjoint spans_seqFlag spans_seqCount (Or.inr (by decide)) (fits_setWidth _)]
  rfl

@[simp] theorem apid_setSequenceCount (h : PrimaryHeader) (count : SequenceCount) :
    (h.setSequenceCount count).apid = h.apid := rfl

@[simp] theorem apid_setSequenceFlag (h : PrimaryHeader) (flag : SequenceFlag) :
    (h.setSequenceFlag flag).apid = h.apid := rfl

@[simp] theorem apid_setDataFieldLen (h : PrimaryHeader) (len : BitVec 16) :
    (h.setDataFieldLen len).apid = h.apid := rfl

@[simp] theorem sequenceFlag_setDataFieldLen (h : PrimaryHeader) (len : BitVec 16) :
    (h.setDataFieldLen len).sequenceFlag = h.sequenceFlag := rfl

@[simp] theorem sequenceCount_setDataFieldLen (h : PrimaryHeader) (len : BitVec 16) :
    (h.setDataFieldLen len).sequenceCount = h.sequenceCount := rfl

/-- The length field names `len` octets when there is at least one and not too many. -/
theorem packetDataLength_setDataFieldLen (h : PrimaryHeader) (n : Nat) :
    (h.setDataFieldLen (BitVec.ofNat 16 (n + 1))).packetDataLength = BitVec.ofNat 16 n := by
  rw [setDataFieldLen]
  bv_omega

end PrimaryHeader

end Spp
end Leodos

/-
Space Packets in a byte buffer, `datalink/spp`.

A packet is its primary header and the octets of the data field that the header counts.
Octets of the buffer behind the packet are not part of it.
-/

namespace Leodos
namespace Spp

open Bits

inductive ValidationError where
  | unsupportedVersion (version : BitVec 3)
  | idlePacketWithSecondaryHeader
  deriving DecidableEq, Repr

inductive ParseError where
  | tooShortForHeader (actual : Nat)
  | incompletePacket (headerLen bufferLen : Nat)
  | invalid (error : ValidationError)
  deriving DecidableEq, Repr

def Apid.IDLE : Apid := 0x7ff

namespace PrimaryHeader

/-- Octets of a primary header. -/
def SIZE : Nat := 6

def version (h : PrimaryHeader) : BitVec 3 :=
  (getBits h.packetVersionAndId PACKET_VERSION_MASK).setWidth 3

def packetType (h : PrimaryHeader) : PacketType :=
  if getBits h.packetVersionAndId PACKET_TYPE_MASK = 0 then .telemetry else .telecommand

def secondaryHeaderFlag (h : PrimaryHeader) : SecondaryHeaderFlag :=
  if getBits h.packetVersionAndId SEC_HDR_MASK = 0 then .absent else .present

def dataFieldLen (h : PrimaryHeader) : Nat := h.packetDataLength.toNat + 1

def packetLen (h : PrimaryHeader) : Nat := h.dataFieldLen + SIZE

def validate (h : PrimaryHeader) : Except ValidationError Unit :=
  if h.version ≠ PacketVersion.VERSION_1 then .error (.unsupportedVersion h.version)
  else if h.apid = Apid.IDLE ∧ h.secondaryHeaderFlag = .present then
    .error .idlePacketWithSecondaryHeader
  else .ok ()

def ofBytes (bytes : Bytes) : PrimaryHeader :=
  ⟨Bits.ofBytes (bytes.getD 0 0) (bytes.getD 1 0), Bits.ofBytes (bytes.getD 2 0) (bytes.getD 3 0),
    Bits.ofBytes (bytes.getD 4 0) (bytes.getD 5 0)⟩

theorem SIZE_lt_packetLen (h : PrimaryHeader) : SIZE < h.packetLen := by
  rw [packetLen, dataFieldLen]
  omega

theorem ofBytes_congr {a b : Bytes} (h : a.take SIZE = b.take SIZE) : ofBytes a = ofBytes b := by
  have hget : ∀ i, i < SIZE → a.getD i 0 = b.getD i 0 := by
    intro i hi
    rw [List.getD_eq_getElem?_getD, List.getD_eq_getElem?_getD, ← List.getElem?_take_of_lt hi, h,
      List.getElem?_take_of_lt hi]
  rw [ofBytes, ofBytes, hget 0 (by decide), hget 1 (by decide), hget 2 (by decide),
    hget 3 (by decide), hget 4 (by decide), hget 5 (by decide)]

end PrimaryHeader

structure SpacePacket where
  primaryHeader : PrimaryHeader
  dataField : Bytes
  deriving DecidableEq, Repr

namespace SpacePacket

def parse (bytes : Bytes) : Except ParseError SpacePacket :=
  if bytes.length < PrimaryHeader.SIZE then .error (.tooShortForHeader bytes.length)
  else
    let header := PrimaryHeader.ofBytes bytes
    match header.validate with
    | .error e => .error (.invalid e)
    | .ok () =>
      if bytes.length < header.packetLen then
        .error (.incompletePacket header.packetLen bytes.length)
      else .ok ⟨header, (bytes.take header.packetLen).drop PrimaryHeader.SIZE⟩

theorem parse_ok_iff {bytes : Bytes} {p : SpacePacket} :
    parse bytes = .ok p ↔
      (PrimaryHeader.ofBytes bytes).validate = .ok () ∧
      (PrimaryHeader.ofBytes bytes).packetLen ≤ bytes.length ∧
      p = ⟨PrimaryHeader.ofBytes bytes,
        (bytes.take (PrimaryHeader.ofBytes bytes).packetLen).drop PrimaryHeader.SIZE⟩ := by
  have hsize := (PrimaryHeader.ofBytes bytes).SIZE_lt_packetLen
  rw [parse]
  by_cases hshort : bytes.length < PrimaryHeader.SIZE
  · rw [if_pos hshort]
    constructor
    · intro h
      cases h
    · intro h
      have hlen := h.2.1
      omega
  · rw [if_neg hshort]
    dsimp only
    cases hval : (PrimaryHeader.ofBytes bytes).validate with
    | error e => simp only [reduceCtorEq, false_and]
    | ok u =>
      dsimp only
      by_cases hlen : bytes.length < (PrimaryHeader.ofBytes bytes).packetLen
      · rw [if_pos hlen]
        constructor
        · intro h
          cases h
        · intro h
          exact absurd h.2.1 (Nat.not_le_of_lt hlen)
      · rw [if_neg hlen, Except.ok.injEq]
        constructor
        · intro h
          exact ⟨rfl, Nat.le_of_not_lt hlen, h.symm⟩
        · intro h
          exact h.2.2.symm

def Valid (bytes : Bytes) : Prop :=
  ∃ p, parse bytes = .ok p ∧ p.primaryHeader.packetLen = bytes.length

theorem Valid.pos {bytes : Bytes} (h : Valid bytes) : 0 < bytes.length := by
  obtain ⟨p, -, hlen⟩ := h
  have hsize := p.primaryHeader.SIZE_lt_packetLen
  omega

theorem Valid.parse_append {bytes : Bytes} (h : Valid bytes) (rest : Bytes) :
    ∃ p, parse (bytes ++ rest) = .ok p ∧ p.primaryHeader.packetLen = bytes.length := by
  obtain ⟨p, hparse, hlen⟩ := h
  obtain ⟨hvalid, -, rfl⟩ := parse_ok_iff.1 hparse
  have hsize := (PrimaryHeader.ofBytes bytes).SIZE_lt_packetLen
  have hlen : (PrimaryHeader.ofBytes bytes).packetLen = bytes.length := hlen
  have hsame : PrimaryHeader.ofBytes (bytes ++ rest) = PrimaryHeader.ofBytes bytes := by
    apply PrimaryHeader.ofBytes_congr
    rw [List.take_append_of_le_length (by omega)]
  have hfits : (PrimaryHeader.ofBytes (bytes ++ rest)).packetLen ≤ (bytes ++ rest).length := by
    rw [hsame, hlen, List.length_append]
    exact Nat.le_add_right ..
  refine ⟨_, parse_ok_iff.2 ⟨by rw [hsame]; exact hvalid, hfits, rfl⟩, ?_⟩
  rw [hsame, hlen]

end SpacePacket

end Spp
end Leodos
