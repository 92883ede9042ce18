/-
Telemetry transfer frames, `datalink/framing/sdlp/tm.rs`.

The header names no length, so a frame is all the octets that were received.
-/
import Leodos.Datalink.Frame

namespace Leodos
namespace Datalink
namespace Tm

open Bits Memory Spp

inductive BuildError where
  | invalidScid (scid : Scid)
  | invalidVcid (vcid : Vcid)
  | bufferTooSmall (requiredLen providedLen : Nat)
  deriving DecidableEq, Repr

inductive ParseError where
  | invalidBufferLength
  | tooShortForHeader
  deriving DecidableEq, Repr

def VERSION_MASK : BitVec 16 := 0b1100000000000000
def SCID_MASK : BitVec 16 := 0b0011111111110000
def VCID_MASK : BitVec 16 := 0b0000000000001110
def FIRST_HEADER_POINTER_MASK : BitVec 16 := 0b0000011111111111

structure TelemetryTransferFrameHeader where
  versionScidVcidAndOcf : BitVec 16
  mcFrameCount : UInt8
  vcFrameCount : UInt8
  dataFieldStatus : BitVec 16
  deriving DecidableEq, Repr

namespace TelemetryTransferFrameHeader

def ofBytes (bytes : Bytes) : TelemetryTransferFrameHeader :=
  ⟨Bits.ofBytes (bytes.getD 0 0) (bytes.getD 1 0), bytes.getD 2 0, bytes.getD 3 0,
    Bits.ofBytes (bytes.getD 4 0) (bytes.getD 5 0)⟩

def asBytes (h : TelemetryTransferFrameHeader) : Bytes :=
  [highByte h.versionScidVcidAndOcf, lowByte h.versionScidVcidAndOcf, h.mcFrameCount,
    h.vcFrameCount, highByte h.dataFieldStatus, lowByte h.dataFieldStatus]

def version (h : TelemetryTransferFrameHeader) : BitVec 8 :=
  (getBits h.versionScidVcidAndOcf VERSION_MASK).setWidth 8

def setVersion (h : TelemetryTransferFrameHeader) (version : UInt8) :
    TelemetryTransferFrameHeader :=
  { h with versionScidVcidAndOcf :=
      setBits h.versionScidVcidAndOcf VERSION_MASK (version.toBitVec.setWidth 16) }

def scid (h : TelemetryTransferFrameHeader) : Scid :=
  (getBits h.versionScidVcidAndOcf SCID_MASK).setWidth 32

def setScid (h : TelemetryTransferFrameHeader) (scid : Scid) : TelemetryTransferFrameHeader :=
  { h with versionScidVcidAndOcf :=
      setBits h.versionScidVcidAndOcf SCID_MASK (scid.setWidth 16) }

def vcid (h : TelemetryTransferFrameHeader) : Vcid :=
  (getBits h.versionScidVcidAndOcf VCID_MASK).setWidth 32

def setVcid (h : TelemetryTransferFrameHeader) (vcid : Vcid) : TelemetryTransferFrameHeader :=
  { h with versionScidVcidAndOcf :=
      setBits h.versionScidVcidAndOcf VCID_MASK (vcid.setWidth 16) }

def setMcFrameCount (h : TelemetryTransferFrameHeader) (count : UInt8) :
    TelemetryTransferFrameHeader :=
  { h with mcFrameCount := count }

def setVcFrameCount (h : TelemetryTransferFrameHeader) (count : UInt8) :
    TelemetryTransferFrameHeader :=
  { h with vcFrameCount := count }

def firstHeaderPointer (h : TelemetryTransferFrameHeader) : BitVec 16 :=
  getBits h.dataFieldStatus FIRST_HEADER_POINTER_MASK

def setFirstHeaderPointer (h : TelemetryTransferFrameHeader) (fhp : BitVec 16) :
    TelemetryTransferFrameHeader :=
  { h with dataFieldStatus := setBits h.dataFieldStatus FIRST_HEADER_POINTER_MASK fhp }

end TelemetryTransferFrameHeader

structure TelemetryTransferFrame where
  header : TelemetryTransferFrameHeader
  dataField : Bytes
  deriving DecidableEq, Repr

namespace TelemetryTransferFrame

def HEADER_SIZE : Nat := 6

def refFromBytes (bytes : Bytes) : Option TelemetryTransferFrame :=
  if bytes.length < HEADER_SIZE then none
  else some ⟨.ofBytes bytes, bytes.drop HEADER_SIZE⟩

def parseRaw (bytes : Bytes) : Except ParseError TelemetryTransferFrame :=
  if bytes.length < HEADER_SIZE then .error .tooShortForHeader
  else
    match refFromBytes bytes with
    | none => .error .invalidBufferLength
    | some frame => .ok frame

def new (buffer : Bytes) (version : UInt8) (scid : Scid) (vcid : Vcid)
    (mcFrameCount vcFrameCount : UInt8) (firstHeaderPointer : BitVec 16) :
    Except BuildError Bytes :=
  if buffer.length < HEADER_SIZE then .error (.bufferTooSmall HEADER_SIZE buffer.length)
  else if 10 < numBits scid then .error (.invalidScid scid)
  else if 3 < numBits vcid then .error (.invalidVcid vcid)
  else
    let header := (((((TelemetryTransferFrameHeader.ofBytes buffer).setVersion version).setScid
      scid).setVcid vcid).setMcFrameCount mcFrameCount).setVcFrameCount vcFrameCount
    .ok (write buffer 0 (header.setFirstHeaderPointer firstHeaderPointer).asBytes)

end TelemetryTransferFrame

open TelemetryTransferFrame

structure TmFrameWriterConfig where
  scid : Scid
  vcid : Vcid
  maxDataFieldLen : Nat

/-- The identifiers fit their fields. -/
def TmFrameWriterConfig.InRange (config : TmFrameWriterConfig) : Prop :=
  numBits config.scid ≤ 10 ∧ numBits config.vcid ≤ 3

def built (version : UInt8) (scid : Scid) (vcid : Vcid) (mcFrameCount vcFrameCount : UInt8)
    (firstHeaderPointer : BitVec 16) (h : TelemetryTransferFrameHeader) :
    TelemetryTransferFrameHeader :=
  (((((h.setVersion version).setScid scid).setVcid vcid).setMcFrameCount
    mcFrameCount).setVcFrameCount vcFrameCount).setFirstHeaderPointer firstHeaderPointer

theorem new_eq_ok_iff {buffer frame : Bytes} {version : UInt8} {scid : Scid} {vcid : Vcid}
    {mcFrameCount vcFrameCount : UInt8} {firstHeaderPointer : BitVec 16} :
    TelemetryTransferFrame.new buffer version scid vcid mcFrameCount vcFrameCount
        firstHeaderPointer = .ok frame ↔
      HEADER_SIZE ≤ buffer.length ∧ numBits scid ≤ 10 ∧ numBits vcid ≤ 3 ∧
        frame = write buffer 0 (built version scid vcid mcFrameCount vcFrameCount
          firstHeaderPointer (.ofBytes buffer)).asBytes := by
  unfold TelemetryTransferFrame.new
  by_cases hroom : buffer.length < HEADER_SIZE
  · rw [if_pos hroom]
    exact iff_of_false (fun h => by cases h) (fun h => absurd h.1 (Nat.not_le.2 hroom))
  rw [if_neg hroom]
  by_cases hscid : 10 < numBits scid
  · rw [if_pos hscid]
    exact iff_of_false (fun h => by cases h) (fun h => absurd h.2.1 (Nat.not_le.2 hscid))
  rw [if_neg hscid]
  by_cases hvcid : 3 < numBits vcid
  · rw [if_pos hvcid]
    exact iff_of_false (fun h => by cases h) (fun h => absurd h.2.2.1 (Nat.not_le.2 hvcid))
  rw [if_neg hvcid, Except.ok.injEq, eq_comm]
  exact ⟨fun h => ⟨Nat.le_of_not_lt hroom, Nat.le_of_not_lt hscid, Nat.le_of_not_lt hvcid, h⟩,
    fun h => h.2.2.2⟩

/-- The counters are those of the master channel and of the virtual channel. -/
def TmFrameWriter.format (config : TmFrameWriterConfig) : WriterFormat where
  Counters := UInt8 × UInt8
  BuildError := BuildError
  start := (0, 0)
  advance := fun counters => (counters.1 + 1, counters.2 + 1)
  dataOffset := HEADER_SIZE
  maxDataLen := config.maxDataFieldLen
  trailerLen := 0
  stamp := fun _ counters _ bytes =>
    TelemetryTransferFrame.new bytes 0 config.scid config.vcid counters.1 counters.2 0

theorem length_of_parseRaw {bytes : Bytes} {frame : TelemetryTransferFrame}
    (h : parseRaw bytes = .ok frame) : HEADER_SIZE + frame.dataField.length = bytes.length := by
  rw [parseRaw] at h
  by_cases hshort : bytes.length < HEADER_SIZE
  · rw [if_pos hshort] at h
    cases h
  · rw [if_neg hshort, refFromBytes, if_neg hshort] at h
    cases h
    show HEADER_SIZE + (bytes.drop HEADER_SIZE).length = bytes.length
    rw [List.length_drop, Nat.add_sub_cancel' (Nat.le_of_not_lt hshort)]

def TmFrameReader.layout (bytes : Bytes) : Except (Fault ParseError) (Nat × Nat) :=
  match TelemetryTransferFrame.parseRaw bytes with
  | .error e => .error (.error e)
  | .ok parsed => .ok (HEADER_SIZE, HEADER_SIZE + parsed.dataField.length)

theorem TmFrameReader.layout_le {bytes : Bytes} {dataStart dataEnd : Nat}
    (h : TmFrameReader.layout bytes = .ok (dataStart, dataEnd)) : dataEnd ≤ bytes.length := by
  rw [TmFrameReader.layout] at h
  cases hparse : TelemetryTransferFrame.parseRaw bytes with
  | error e =>
    rw [hparse] at h
    cases h
  | ok frame =>
    rw [hparse] at h
    cases h
    exact Nat.le_of_eq (length_of_parseRaw hparse)

def TmFrameReader.format : ReaderFormat where
  ParseError := ParseError
  layout := TmFrameReader.layout
  layout_le := TmFrameReader.layout_le

theorem layout_of_length {bytes : Bytes} (hlen : HEADER_SIZE ≤ bytes.length) :
    TmFrameReader.format.layout bytes = .ok (HEADER_SIZE, bytes.length) := by
  have hparse : TelemetryTransferFrame.parseRaw bytes =
      .ok ⟨.ofBytes bytes, bytes.drop HEADER_SIZE⟩ := by
    rw [parseRaw, if_neg (Nat.not_lt.2 hlen), refFromBytes, if_neg (Nat.not_lt.2 hlen)]
  have hdata : HEADER_SIZE + (bytes.drop HEADER_SIZE).length = bytes.length := by
    rw [List.length_drop, Nat.add_sub_cancel' hlen]
  simp only [TmFrameReader.format, TmFrameReader.layout, hparse, hdata]

theorem agrees {config : TmFrameWriterConfig} (hids : config.InRange) :
    Agrees (TmFrameWriter.format config) TmFrameReader.format := by
  apply agrees_of_header
  intro _ counters n bytes _ hlen
  have hlen : bytes.length = HEADER_SIZE + n := hlen
  have hshort : HEADER_SIZE ≤ bytes.length := by
    rw [hlen]
    exact Nat.le_add_right ..
  obtain ⟨header, hnew⟩ : ∃ header : TelemetryTransferFrameHeader,
      TelemetryTransferFrame.new bytes 0 config.scid config.vcid counters.1 counters.2 0 =
        .ok (write bytes 0 header.asBytes) :=
    ⟨_, new_eq_ok_iff.2 ⟨hshort, hids.1, hids.2, rfl⟩⟩
  refine ⟨_, rfl, hnew, ?_⟩
  have htotal : (header.asBytes ++ bytes.drop HEADER_SIZE).length = HEADER_SIZE + n := by
    rw [List.length_append, List.length_drop, hlen, Nat.add_sub_cancel_left]
    rfl
  show TmFrameReader.format.layout (_ ++ bytes.drop HEADER_SIZE) =
    .ok (HEADER_SIZE, HEADER_SIZE + n)
  rw [layout_of_length, htotal]
  rw [htotal]
  exact Nat.le_add_right ..

theorem safe (bytes : Bytes) : TmFrameReader.format.Safe bytes := by
  rw [ReaderFormat.Safe]
  by_cases hshort : bytes.length < HEADER_SIZE
  · simp only [TmFrameReader.format, TmFrameReader.layout, parseRaw, if_pos hshort]
  · rw [layout_of_length (Nat.le_of_not_lt hshort)]
    exact Nat.le_of_not_lt hshort

end Tm
end Datalink
end Leodos
