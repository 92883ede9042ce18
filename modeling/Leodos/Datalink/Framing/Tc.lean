/-
Telecommand transfer frames, `datalink/framing/sdlp/tc.rs`.

The five octets of the header hold the length of the whole frame minus one.  The parser
cuts the frame at that length before it looks for the header inside it.
-/
import Leodos.Datalink.Frame

namespace Leodos
namespace Datalink
namespace Tc

open Bits Memory Spp

inductive BuildError where
  | invalidScid (scid : Scid)
  | invalidVcid (vcid : Vcid)
  | dataTooLong (len : Nat)
  | bufferTooSmall (required provided : Nat)
  deriving DecidableEq, Repr

inductive ParseError where
  | tooShortForHeader (actual : Nat)
  | incompleteFrame (headerLen bufferLen : Nat)
  deriving DecidableEq, Repr

inductive BypassFlag where
  | typeA
  | typeB
  deriving DecidableEq, Repr

inductive ControlFlag where
  | typeD
  | typeC
  deriving DecidableEq, Repr

def BypassFlag.toBits : BypassFlag → BitVec 1
  | typeA => 0
  | typeB => 1

def ControlFlag.toBits : ControlFlag → BitVec 1
  | typeD => 0
  | typeC => 1

def VERSION_MASK : BitVec 16 := 0b1100000000000000
def BYPASS_FLAG_MASK : BitVec 16 := 0b0010000000000000
def CONTROL_FLAG_MASK : BitVec 16 := 0b0001000000000000
def SCID_MASK : BitVec 16 := 0b0000001111111111
def VCID_MASK : BitVec 16 := 0b1111110000000000
def FRAME_LEN_MASK : BitVec 16 := 0b0000001111111111

theorem spans_frameLen : Spans FRAME_LEN_MASK 0 10 := spans_of_eq rfl (by decide) (by decide)

structure TelecommandTransferFrameHeader where
  idAndScid : BitVec 16
  vcidAndLength : BitVec 16
  sequenceNum : UInt8
  deriving DecidableEq, Repr

namespace TelecommandTransferFrameHeader

def ofBytes (bytes : Bytes) : TelecommandTransferFrameHeader :=
  ⟨Bits.ofBytes (bytes.getD 0 0) (bytes.getD 1 0), Bits.ofBytes (bytes.getD 2 0) (bytes.getD 3 0),
    bytes.getD 4 0⟩

def asBytes (h : TelecommandTransferFrameHeader) : Bytes :=
  [highByte h.idAndScid, lowByte h.idAndScid, highByte h.vcidAndLength, lowByte h.vcidAndLength,
    h.sequenceNum]

def scid (h : TelecommandTransferFrameHeader) : Scid :=
  (getBits h.idAndScid SCID_MASK).setWidth 32

def setScid (h : TelecommandTransferFrameHeader) (scid : Scid) : TelecommandTransferFrameHeader :=
  { h with idAndScid := setBits h.idAndScid SCID_MASK (scid.setWidth 16) }

def vcid (h : TelecommandTransferFrameHeader) : Vcid :=
  (getBits h.vcidAndLength VCID_MASK).setWidth 32

def setVcid (h : TelecommandTransferFrameHeader) (vcid : Vcid) : TelecommandTransferFrameHeader :=
  { h with vcidAndLength := setBits h.vcidAndLength VCID_MASK (vcid.setWidth 16) }

/-- The field holds the length of the frame minus one. -/
def frameLen (h : TelecommandTransferFrameHeader) : Nat :=
  (getBits h.vcidAndLength FRAME_LEN_MASK).toNat + 1

def setFrameLen (h : TelecommandTransferFrameHeader) (length : Nat) :
    TelecommandTransferFrameHeader :=
  { h with vcidAndLength :=
      setBits h.vcidAndLength FRAME_LEN_MASK (BitVec.ofNat 16 (length - 1)) }

def setSequenceNum (h : TelecommandTransferFrameHeader) (seq : UInt8) :
    TelecommandTransferFrameHeader :=
  { h with sequenceNum := seq }

def bypassFlag (h : TelecommandTransferFrameHeader) : BypassFlag :=
  if getBits h.idAndScid BYPASS_FLAG_MASK = 1 then .typeB else .typeA

def setBypassFlag (h : TelecommandTransferFrameHeader) (flag : BypassFlag) :
    TelecommandTransferFrameHeader :=
  { h with idAndScid := setBits h.idAndScid BYPASS_FLAG_MASK (flag.toBits.setWidth 16) }

def controlFlag (h : TelecommandTransferFrameHeader) : ControlFlag :=
  if getBits h.idAndScid CONTROL_FLAG_MASK = 1 then .typeC else .typeD

def setControlFlag (h : TelecommandTransferFrameHeader) (flag : ControlFlag) :
    TelecommandTransferFrameHeader :=
  { h with idAndScid := setBits h.idAndScid CONTROL_FLAG_MASK (flag.toBits.setWidth 16) }

theorem ofBytes_asBytes (h : TelecommandTransferFrameHeader) (rest : Bytes) :
    ofBytes (h.asBytes ++ rest) = h := by
  show (⟨Bits.ofBytes (highByte h.idAndScid) (lowByte h.idAndScid),
    Bits.ofBytes (highByte h.vcidAndLength) (lowByte h.vcidAndLength), h.sequenceNum⟩ :
      TelecommandTransferFrameHeader) = h
  rw [ofBytes_bytes, ofBytes_bytes]

theorem frameLen_setFrameLen (h : TelecommandTransferFrameHeader) {length : Nat}
    (hpos : 0 < length) (hmax : length ≤ 1024) : (h.setFrameLen length).frameLen = length := by
  have hvalue : (BitVec.ofNat 16 (length - 1)).toNat = length - 1 := by
    rw [BitVec.toNat_ofNat]
    exact Nat.mod_eq_of_lt (by omega)
  have hfits : Fits (BitVec.ofNat 16 (length - 1)) 10 := fits_of_toNat_lt (by omega)
  rw [frameLen, setFrameLen, getBits_setBits_self spans_frameLen hfits, hvalue]
  exact Nat.sub_add_cancel hpos

end TelecommandTransferFrameHeader

structure TelecommandTransferFrame where
  header : TelecommandTransferFrameHeader
  dataField : Bytes
  deriving DecidableEq, Repr

namespace TelecommandTransferFrame

def HEADER_SIZE : Nat := 5
def MAX_DATA_FIELD_LEN : Nat := 1019

def refFromBytes (bytes : Bytes) : Option TelecommandTransferFrame :=
  if bytes.length < HEADER_SIZE then none
  else some ⟨.ofBytes bytes, bytes.drop HEADER_SIZE⟩

def parse (bytes : Bytes) : Except (Fault ParseError) TelecommandTransferFrame :=
  if bytes.length < HEADER_SIZE then .error (.error (.tooShortForHeader bytes.length))
  else
    let specifiedLen := (TelecommandTransferFrameHeader.ofBytes bytes).frameLen
    if bytes.length < specifiedLen then
      .error (.error (.incompleteFrame specifiedLen bytes.length))
    else
      -- `unwrap` of the cast of the octets up to the announced length
      match refFromBytes (bytes.take specifiedLen) with
      | none => .error .panic
      | some frame => .ok frame

def new (buffer : Bytes) (scid : Scid) (vcid : Vcid) (bypassFlag : BypassFlag)
    (controlFlag : ControlFlag) (seq : UInt8) (dataFieldLen : Nat) : Except BuildError Bytes :=
  if 10 < numBits scid then .error (.invalidScid scid)
  else if 6 < numBits vcid then .error (.invalidVcid vcid)
  else if MAX_DATA_FIELD_LEN < dataFieldLen then .error (.dataTooLong dataFieldLen)
  else
    let totalLen := HEADER_SIZE + dataFieldLen
    if buffer.length < totalLen then .error (.bufferTooSmall totalLen buffer.length)
    else
      let header := (((((TelecommandTransferFrameHeader.ofBytes buffer).setScid scid).setVcid
        vcid).setBypassFlag bypassFlag).setControlFlag controlFlag).setSequenceNum seq
      .ok (write buffer 0 (header.setFrameLen totalLen).asBytes)

end TelecommandTransferFrame

open TelecommandTransferFrame

structure TcFrameWriterConfig where
  scid : Scid
  vcid : Vcid
  bypass : BypassFlag
  control : ControlFlag
  maxDataFieldLen : Nat

/-- The identifiers fit their fields. -/
def TcFrameWriterConfig.InRange (config : TcFrameWriterConfig) : Prop :=
  numBits config.scid ≤ 10 ∧ numBits config.vcid ≤ 6

def fill (config : TcFrameWriterConfig) (seq : UInt8) (n : Nat)
    (h : TelecommandTransferFrameHeader) : TelecommandTransferFrameHeader :=
  (((((h.setScid config.scid).setVcid config.vcid).setBypassFlag config.bypass).setControlFlag
    config.control).setSequenceNum seq).setFrameLen (HEADER_SIZE + n)

def Accepts (config : TcFrameWriterConfig) (n : Nat) : Prop :=
  config.InRange ∧ n ≤ MAX_DATA_FIELD_LEN

theorem new_eq_ok_iff {buffer frame : Bytes} {config : TcFrameWriterConfig}
    {seq : UInt8} {n : Nat} :
    TelecommandTransferFrame.new buffer config.scid config.vcid config.bypass config.control seq n =
        .ok frame ↔
      Accepts config n ∧ HEADER_SIZE + n ≤ buffer.length ∧
        frame = write buffer 0 (fill config seq n (.ofBytes buffer)).asBytes := by
  unfold TelecommandTransferFrame.new Accepts TcFrameWriterConfig.InRange
  by_cases hscid : 10 < numBits config.scid
  · rw [if_pos hscid]
    exact iff_of_false (fun h => by cases h) (fun h => absurd h.1.1.1 (Nat.not_le.2 hscid))
  rw [if_neg hscid]
  by_cases hvcid : 6 < numBits config.vcid
  · rw [if_pos hvcid]
    exact iff_of_false (fun h => by cases h) (fun h => absurd h.1.1.2 (Nat.not_le.2 hvcid))
  rw [if_neg hvcid]
  by_cases hn : MAX_DATA_FIELD_LEN < n
  · rw [if_pos hn]
    exact iff_of_false (fun h => by cases h) (fun h => absurd h.1.2 (Nat.not_le.2 hn))
  rw [if_neg hn]
  dsimp only
  by_cases hroom : buffer.length < HEADER_SIZE + n
  · rw [if_pos hroom]
    exact iff_of_false (fun h => by cases h) (fun h => absurd h.2.1 (Nat.not_le.2 hroom))
  rw [if_neg hroom, Except.ok.injEq, eq_comm]
  exact ⟨fun h => ⟨⟨⟨Nat.le_of_not_lt hscid, Nat.le_of_not_lt hvcid⟩, Nat.le_of_not_lt hn⟩,
    Nat.le_of_not_lt hroom, h⟩, fun h => h.2.2⟩

def TcFrameWriter.format (config : TcFrameWriterConfig) : WriterFormat where
  Counters := UInt8
  BuildError := BuildError
  start := 0
  advance := fun sequence => sequence + 1
  dataOffset := HEADER_SIZE
  maxDataLen := config.maxDataFieldLen
  trailerLen := 0
  stamp := fun _ seq dataLen bytes =>
    TelecommandTransferFrame.new bytes config.scid config.vcid config.bypass config.control seq
      dataLen

theorem length_of_parse {bytes : Bytes} {frame : TelecommandTransferFrame}
    (h : TelecommandTransferFrame.parse bytes = .ok frame) :
    HEADER_SIZE + frame.dataField.length ≤ bytes.length := by
  rw [TelecommandTransferFrame.parse] at h
  by_cases hshort : bytes.length < HEADER_SIZE
  · rw [if_pos hshort] at h
    cases h
  · rw [if_neg hshort] at h
    dsimp only at h
    by_cases hcut : bytes.length < (TelecommandTransferFrameHeader.ofBytes bytes).frameLen
    · rw [if_pos hcut] at h
      cases h
    · rw [if_neg hcut, refFromBytes, List.length_take,
        Nat.min_eq_left (Nat.le_of_not_lt hcut)] at h
      by_cases hheader : (TelecommandTransferFrameHeader.ofBytes bytes).frameLen < HEADER_SIZE
      · rw [if_pos hheader] at h
        cases h
      · rw [if_neg hheader] at h
        cases h
        show HEADER_SIZE + ((bytes.take _).drop HEADER_SIZE).length ≤ bytes.length
        rw [List.length_drop, List.length_take]
        omega

def TcFrameReader.layout (bytes : Bytes) : Except (Fault ParseError) (Nat × Nat) :=
  match TelecommandTransferFrame.parse bytes with
  | .error fault => .error fault
  | .ok parsed => .ok (HEADER_SIZE, HEADER_SIZE + parsed.dataField.length)

theorem TcFrameReader.layout_le {bytes : Bytes} {dataStart dataEnd : Nat}
    (h : TcFrameReader.layout bytes = .ok (dataStart, dataEnd)) : dataEnd ≤ bytes.length := by
  rw [TcFrameReader.layout] at h
  cases hparse : TelecommandTransferFrame.parse bytes with
  | error fault =>
    rw [hparse] at h
    cases h
  | ok frame =>
    rw [hparse] at h
    cases h
    exact length_of_parse hparse

def TcFrameReader.format : ReaderFormat where
  ParseError := ParseError
  layout := TcFrameReader.layout
  layout_le := TcFrameReader.layout_le

theorem layout_of_frameLen {bytes : Bytes} (hlen : HEADER_SIZE ≤ bytes.length)
    (h : (TelecommandTransferFrameHeader.ofBytes bytes).frameLen = bytes.length) :
    TcFrameReader.format.layout bytes = .ok (HEADER_SIZE, bytes.length) := by
  have hparse : TelecommandTransferFrame.parse bytes =
      .ok ⟨.ofBytes bytes, bytes.drop HEADER_SIZE⟩ := by
    rw [TelecommandTransferFrame.parse, if_neg (Nat.not_lt.2 hlen)]
    dsimp only
    rw [h, if_neg (Nat.lt_irrefl _), List.take_length, refFromBytes, if_neg (Nat.not_lt.2 hlen)]
  have hdata : HEADER_SIZE + (bytes.drop HEADER_SIZE).length = bytes.length := by
    rw [List.length_drop, Nat.add_sub_cancel' hlen]
  simp only [TcFrameReader.format, TcFrameReader.layout, hparse, hdata]

theorem agrees {config : TcFrameWriterConfig} (hids : config.InRange)
    (hmax : config.maxDataFieldLen ≤ MAX_DATA_FIELD_LEN) :
    Agrees (TcFrameWriter.format config) TcFrameReader.format := by
  apply agrees_of_header
  intro _ seq n bytes hle hlen
  have hlen : bytes.length = HEADER_SIZE + n := hlen
  have hn : n ≤ MAX_DATA_FIELD_LEN := Nat.le_trans hle hmax
  obtain ⟨header, hnew⟩ : ∃ header : TelecommandTransferFrameHeader,
      TelecommandTransferFrame.new bytes config.scid config.vcid config.bypass config.control seq
        n = .ok (write bytes 0 (header.setFrameLen (HEADER_SIZE + n)).asBytes) :=
    ⟨_, new_eq_ok_iff.2 ⟨⟨hids, hn⟩, Nat.le_of_eq hlen.symm, rfl⟩⟩
  refine ⟨_, rfl, hnew, ?_⟩
  have htotal : ((header.setFrameLen (HEADER_SIZE + n)).asBytes ++
      bytes.drop HEADER_SIZE).length = HEADER_SIZE + n := by
    rw [List.length_append, List.length_drop, hlen, Nat.add_sub_cancel_left]
    rfl
  have hframe := TelecommandTransferFrameHeader.frameLen_setFrameLen header
    (show 0 < HEADER_SIZE + n by rw [HEADER_SIZE]; omega)
    (show HEADER_SIZE + n ≤ 1024 by rw [HEADER_SIZE]; rw [MAX_DATA_FIELD_LEN] at hn; omega)
  show TcFrameReader.format.layout (_ ++ bytes.drop HEADER_SIZE) =
    .ok (HEADER_SIZE, HEADER_SIZE + n)
  rw [layout_of_frameLen, htotal]
  · rw [htotal]
    exact Nat.le_add_right ..
  · rw [htotal, TelecommandTransferFrameHeader.ofBytes_asBytes, hframe]

/-- A header that announces no more than the octets at hand announces a whole header. -/
def Tolerates (bytes : Bytes) : Prop :=
  HEADER_SIZE ≤ bytes.length →
    (TelecommandTransferFrameHeader.ofBytes bytes).frameLen ≤ bytes.length →
    HEADER_SIZE ≤ (TelecommandTransferFrameHeader.ofBytes bytes).frameLen

theorem parse_returns_iff {bytes : Bytes} :
    Returns (TelecommandTransferFrame.parse bytes) ↔ Tolerates bytes := by
  rw [TelecommandTransferFrame.parse]
  by_cases hshort : bytes.length < HEADER_SIZE
  · rw [if_pos hshort]
    exact iff_of_true (returns_error _) (fun h => absurd h (Nat.not_le.2 hshort))
  · rw [if_neg hshort]
    dsimp only
    by_cases hcut : bytes.length < (TelecommandTransferFrameHeader.ofBytes bytes).frameLen
    · rw [if_pos hcut]
      exact iff_of_true (returns_error _) (fun _ h => absurd h (Nat.not_le.2 hcut))
    · rw [if_neg hcut, refFromBytes, List.length_take, Nat.min_eq_left (Nat.le_of_not_lt hcut)]
      by_cases hheader : (TelecommandTransferFrameHeader.ofBytes bytes).frameLen < HEADER_SIZE
      · rw [if_pos hheader]
        exact iff_of_false not_returns_panic fun h => Nat.not_lt.2
          (h (Nat.le_of_not_lt hshort) (Nat.le_of_not_lt hcut)) hheader
      · rw [if_neg hheader]
        exact iff_of_true (returns_ok _) (fun _ _ => Nat.le_of_not_lt hheader)

theorem safe_iff {bytes : Bytes} : TcFrameReader.format.Safe bytes ↔ Tolerates bytes := by
  rw [ReaderFormat.Safe, ← parse_returns_iff]
  cases hparse : TelecommandTransferFrame.parse bytes with
  | error fault =>
    simp only [TcFrameReader.format, TcFrameReader.layout, hparse, returns_error_iff]
    cases fault with
    | error e => exact iff_of_true trivial (fun h => by cases h)
    | panic => exact iff_of_false id (fun h => h rfl)
  | ok frame =>
    simp only [TcFrameReader.format, TcFrameReader.layout, hparse]
    exact iff_of_true (Nat.le_add_right ..) (returns_ok _)

end Tc
end Datalink
end Leodos
