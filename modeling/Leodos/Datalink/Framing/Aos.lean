/-
Frames of the advanced orbiting systems, `datalink/framing/sdlp/aos.rs`.

The writer stamps the header without the builder and checks no identifier.  The reader
checks the version that the header carries.
-/
import Leodos.Bits.Endian
import Leodos.Datalink.Frame

namespace Leodos
namespace Datalink
namespace Aos

open Bits Memory Spp

inductive BuildError where
  | invalidScid (scid : Scid)
  | invalidVcid (vcid : Vcid)
  | bufferTooSmall (required provided : Nat)
  deriving DecidableEq, Repr

inductive ParseError where
  | tooShortForHeader
  | invalidVersion (version : BitVec 8)
  deriving DecidableEq, Repr

def VERSION_MASK : BitVec 16 := 0b1100000000000000
def SCID_MASK : BitVec 16 := 0b0011111111000000
def VCID_MASK : BitVec 16 := 0b0000000000111111
def REPLAY_FLAG_MASK : BitVec 8 := 0b10000000
def USAGE_FLAG_MASK : BitVec 8 := 0b01000000

theorem spans_version : Spans VERSION_MASK 14 2 := spans_of_eq rfl (by decide) (by decide)
theorem spans_scid : Spans SCID_MASK 6 8 := spans_of_eq rfl (by decide) (by decide)
theorem spans_vcid : Spans VCID_MASK 0 6 := spans_of_eq rfl (by decide) (by decide)

structure AosPrimaryHeader where
  versionScidVcidField : BitVec 16
  /-- Three octets. -/
  vcFrameCount : BitVec 24
  replayUsageSpareField : BitVec 8
  deriving DecidableEq, Repr

namespace AosPrimaryHeader

def ofBytes (bytes : Bytes) : AosPrimaryHeader :=
  ⟨Bits.ofBytes (bytes.getD 0 0) (bytes.getD 1 0),
    BitVec.ofNat 24 (BigEndian.decode [bytes.getD 2 0, bytes.getD 3 0, bytes.getD 4 0]),
    (bytes.getD 5 0).toBitVec⟩

def asBytes (h : AosPrimaryHeader) : Bytes :=
  [highByte h.versionScidVcidField, lowByte h.versionScidVcidField] ++
    BigEndian.encode 3 h.vcFrameCount.toNat ++ [UInt8.ofBitVec h.replayUsageSpareField]

def version (h : AosPrimaryHeader) : BitVec 8 :=
  (getBits h.versionScidVcidField VERSION_MASK).setWidth 8

def setVersion (h : AosPrimaryHeader) (version : BitVec 8) : AosPrimaryHeader :=
  { h with versionScidVcidField :=
      setBits h.versionScidVcidField VERSION_MASK (version.setWidth 16) }

def scid (h : AosPrimaryHeader) : Scid :=
  (getBits h.versionScidVcidField SCID_MASK).setWidth 32

def setScid (h : AosPrimaryHeader) (scid : Scid) : AosPrimaryHeader :=
  { h with versionScidVcidField :=
      setBits h.versionScidVcidField SCID_MASK (scid.setWidth 16) }

def vcid (h : AosPrimaryHeader) : Vcid :=
  (getBits h.versionScidVcidField VCID_MASK).setWidth 32

def setVcid (h : AosPrimaryHeader) (vcid : Vcid) : AosPrimaryHeader :=
  { h with versionScidVcidField :=
      setBits h.versionScidVcidField VCID_MASK (vcid.setWidth 16) }

def readVcFrameCount (h : AosPrimaryHeader) : UInt32 := .ofBitVec (h.vcFrameCount.setWidth 32)

def setVcFrameCount (h : AosPrimaryHeader) (count : UInt32) : AosPrimaryHeader :=
  { h with vcFrameCount := count.toBitVec.setWidth 24 }

def isReplay (h : AosPrimaryHeader) : Bool :=
  getBits h.replayUsageSpareField REPLAY_FLAG_MASK != 0

def setReplay (h : AosPrimaryHeader) (replay : Bool) : AosPrimaryHeader :=
  { h with replayUsageSpareField :=
      setBits h.replayUsageSpareField REPLAY_FLAG_MASK (if replay then 1 else 0) }

def usageFlag (h : AosPrimaryHeader) : Bool :=
  getBits h.replayUsageSpareField USAGE_FLAG_MASK != 0

def setUsageFlag (h : AosPrimaryHeader) (usage : Bool) : AosPrimaryHeader :=
  { h with replayUsageSpareField :=
      setBits h.replayUsageSpareField USAGE_FLAG_MASK (if usage then 1 else 0) }

theorem length_asBytes (h : AosPrimaryHeader) : h.asBytes.length = 6 := rfl

theorem version_asBytes (h : AosPrimaryHeader) (rest : Bytes) :
    (ofBytes (h.asBytes ++ rest)).version = h.version := by
  show (getBits (Bits.ofBytes (highByte h.versionScidVcidField)
    (lowByte h.versionScidVcidField)) VERSION_MASK).setWidth 8 = _
  rw [ofBytes_bytes]
  rfl

end AosPrimaryHeader

structure AosTransferFrame where
  header : AosPrimaryHeader
  dataField : Bytes
  deriving DecidableEq, Repr

namespace AosTransferFrame

def HEADER_SIZE : Nat := 6
def AOS_VERSION : BitVec 8 := 0b01

def refFromBytes (bytes : Bytes) : Option AosTransferFrame :=
  if bytes.length < HEADER_SIZE then none
  else some ⟨.ofBytes bytes, bytes.drop HEADER_SIZE⟩

def parseRaw (bytes : Bytes) : Except ParseError AosTransferFrame :=
  if bytes.length < HEADER_SIZE then .error .tooShortForHeader
  else
    match refFromBytes bytes with
    | none => .error .tooShortForHeader
    | some frame =>
      if frame.header.version ≠ AOS_VERSION then
        .error (.invalidVersion frame.header.version)
      else .ok frame

def new (buffer : Bytes) (scid : Scid) (vcid : Vcid) (vcFrameCount : UInt32)
    (replayFlag usageFlag : Bool) (payload : Bytes) : Except BuildError Bytes :=
  let totalLen := HEADER_SIZE + payload.length
  if buffer.length < totalLen then .error (.bufferTooSmall totalLen buffer.length)
  else if 6 < numBits vcid then .error (.invalidVcid vcid)
  else
    let header := ((((((AosPrimaryHeader.ofBytes buffer).setVersion AOS_VERSION).setScid
      scid).setVcid vcid).setVcFrameCount vcFrameCount).setReplay replayFlag).setUsageFlag usageFlag
    .ok (write (write buffer 0 header.asBytes) HEADER_SIZE payload)

end AosTransferFrame

open AosTransferFrame

/-- The fields that the builder and the writer set. -/
def built (scid : Scid) (vcid : Vcid) (vcFrameCount : UInt32) (replayFlag usageFlag : Bool)
    (h : AosPrimaryHeader) : AosPrimaryHeader :=
  (((((h.setVersion AOS_VERSION).setScid scid).setVcid vcid).setVcFrameCount
    vcFrameCount).setReplay replayFlag).setUsageFlag usageFlag

theorem new_eq_ok_iff {buffer frame : Bytes} {scid : Scid} {vcid : Vcid} {vcFrameCount : UInt32}
    {replayFlag usageFlag : Bool} {payload : Bytes} :
    AosTransferFrame.new buffer scid vcid vcFrameCount replayFlag usageFlag payload = .ok frame ↔
      HEADER_SIZE + payload.length ≤ buffer.length ∧ numBits vcid ≤ 6 ∧
        frame = write (write buffer 0 (built scid vcid vcFrameCount replayFlag usageFlag
          (.ofBytes buffer)).asBytes) HEADER_SIZE payload := by
  unfold AosTransferFrame.new
  dsimp only
  by_cases hroom : buffer.length < HEADER_SIZE + payload.length
  · rw [if_pos hroom]
    exact iff_of_false (fun h => by cases h) (fun h => absurd h.1 (Nat.not_le.2 hroom))
  rw [if_neg hroom]
  by_cases hvcid : 6 < numBits vcid
  · rw [if_pos hvcid]
    exact iff_of_false (fun h => by cases h) (fun h => absurd h.2.1 (Nat.not_le.2 hvcid))
  rw [if_neg hvcid, Except.ok.injEq, eq_comm]
  exact ⟨fun h => ⟨Nat.le_of_not_lt hroom, Nat.le_of_not_lt hvcid, h⟩, fun h => h.2.2⟩

structure AosFrameWriterConfig where
  scid : Scid
  vcid : Vcid
  maxDataFieldLen : Nat

/-- The identifiers fit their fields. -/
def AosFrameWriterConfig.InRange (config : AosFrameWriterConfig) : Prop :=
  numBits config.scid ≤ 8 ∧ numBits config.vcid ≤ 6

namespace AosFrameWriter

/-- The fields that `finish` sets. -/
def stampHeader (config : AosFrameWriterConfig) (count : UInt32) (header : AosPrimaryHeader) :
    AosPrimaryHeader :=
  (((((header.setVersion AOS_VERSION).setScid config.scid).setVcid config.vcid).setVcFrameCount
    count).setReplay false).setUsageFlag false

def format (config : AosFrameWriterConfig) : WriterFormat where
  Counters := UInt32
  BuildError := BuildError
  start := 0
  advance := fun count => (count + 1) &&& 0xffffff
  dataOffset := HEADER_SIZE
  maxDataLen := config.maxDataFieldLen
  trailerLen := 0
  stamp := fun bufLen count _ bytes =>
    match refFromBytes bytes with
    | none => .error (.bufferTooSmall bytes.length bufLen)
    | some frame => .ok (write bytes 0 (stampHeader config count frame.header).asBytes)

theorem version_stampHeader {config : AosFrameWriterConfig} (hids : config.InRange)
    (count : UInt32) (header : AosPrimaryHeader) :
    (stampHeader config count header).version = AOS_VERSION := by
  have hfits : Fits (AOS_VERSION.setWidth 16 : BitVec 16) 2 := fits_setWidth (0b01 : BitVec 2)
  show (getBits (setBits (setBits (setBits header.versionScidVcidField VERSION_MASK
    (AOS_VERSION.setWidth 16)) SCID_MASK _) VCID_MASK _) VERSION_MASK).setWidth 8 = _
  rw [getBits_setBits_of_disjoint spans_vcid spans_version (Or.inl (by decide))
      (fits_of_numBits hids.2),
    getBits_setBits_of_disjoint spans_scid spans_version (Or.inl (by decide))
      (fits_of_numBits hids.1),
    getBits_setBits_self spans_version hfits]
  rfl

end AosFrameWriter

theorem length_of_parseRaw {bytes : Bytes} {frame : AosTransferFrame}
    (h : parseRaw bytes = .ok frame) : HEADER_SIZE + frame.dataField.length = bytes.length := by
  rw [parseRaw] at h
  by_cases hshort : bytes.length < HEADER_SIZE
  · rw [if_pos hshort] at h
    cases h
  · rw [if_neg hshort, refFromBytes, if_neg hshort] at h
    dsimp only at h
    by_cases hversion : (AosPrimaryHeader.ofBytes bytes).version ≠ AOS_VERSION
    · rw [if_pos hversion] at h
      cases h
    · rw [if_neg hversion] at h
      cases h
      show HEADER_SIZE + (bytes.drop HEADER_SIZE).length = bytes.length
      rw [List.length_drop, Nat.add_sub_cancel' (Nat.le_of_not_lt hshort)]

def AosFrameReader.layout (bytes : Bytes) : Except (Fault ParseError) (Nat × Nat) :=
  match AosTransferFrame.parseRaw bytes with
  | .error e => .error (.error e)
  | .ok parsed => .ok (HEADER_SIZE, HEADER_SIZE + parsed.dataField.length)

theorem AosFrameReader.layout_le {bytes : Bytes} {dataStart dataEnd : Nat}
    (h : AosFrameReader.layout bytes = .ok (dataStart, dataEnd)) : dataEnd ≤ bytes.length := by
  rw [AosFrameReader.layout] at h
  cases hparse : AosTransferFrame.parseRaw bytes with
  | error e =>
    rw [hparse] at h
    cases h
  | ok frame =>
    rw [hparse] at h
    cases h
    exact Nat.le_of_eq (length_of_parseRaw hparse)

def AosFrameReader.format : ReaderFormat where
  ParseError := ParseError
  layout := AosFrameReader.layout
  layout_le := AosFrameReader.layout_le

theorem layout_of_version {bytes : Bytes} (hlen : HEADER_SIZE ≤ bytes.length)
    (h : (AosPrimaryHeader.ofBytes bytes).version = AOS_VERSION) :
    AosFrameReader.format.layout bytes = .ok (HEADER_SIZE, bytes.length) := by
  have hparse : AosTransferFrame.parseRaw bytes = .ok ⟨.ofBytes bytes, bytes.drop HEADER_SIZE⟩ := by
    rw [parseRaw, if_neg (Nat.not_lt.2 hlen), refFromBytes, if_neg (Nat.not_lt.2 hlen)]
    dsimp only
    rw [if_neg (not_not_intro h)]
  have hdata : HEADER_SIZE + (bytes.drop HEADER_SIZE).length = bytes.length := by
    rw [List.length_drop, Nat.add_sub_cancel' hlen]
  simp only [AosFrameReader.format, AosFrameReader.layout, hparse, hdata]

theorem agrees {config : AosFrameWriterConfig} (hids : config.InRange) :
    Agrees (AosFrameWriter.format config) AosFrameReader.format := by
  apply agrees_of_header
  intro _ count n bytes _ hlen
  have hlen : bytes.length = HEADER_SIZE + n := hlen
  have hshort : HEADER_SIZE ≤ bytes.length := by
    rw [hlen]
    exact Nat.le_add_right ..
  have href : refFromBytes bytes = some ⟨.ofBytes bytes, bytes.drop HEADER_SIZE⟩ := by
    rw [refFromBytes, if_neg (Nat.not_lt.2 hshort)]
  refine ⟨(AosFrameWriter.stampHeader config count (.ofBytes bytes)).asBytes, rfl, ?_, ?_⟩
  · simp only [AosFrameWriter.format, href]
  · have htotal : ((AosFrameWriter.stampHeader config count (.ofBytes bytes)).asBytes ++
        bytes.drop HEADER_SIZE).length = HEADER_SIZE + n := by
      rw [List.length_append, List.length_drop, hlen, Nat.add_sub_cancel_left]
      rfl
    show AosFrameReader.format.layout (_ ++ bytes.drop HEADER_SIZE) =
      .ok (HEADER_SIZE, HEADER_SIZE + n)
    rw [layout_of_version, htotal]
    · rw [htotal]
      exact Nat.le_add_right ..
    · rw [AosPrimaryHeader.version_asBytes]
      exact AosFrameWriter.version_stampHeader hids count _

theorem safe (bytes : Bytes) : AosFrameReader.format.Safe bytes := by
  rw [ReaderFormat.Safe]
  by_cases hshort : bytes.length < HEADER_SIZE
  · simp only [AosFrameReader.format, AosFrameReader.layout, parseRaw, if_pos hshort]
  · by_cases hversion : (AosPrimaryHeader.ofBytes bytes).version = AOS_VERSION
    · rw [layout_of_version (Nat.le_of_not_lt hshort) hversion]
      exact Nat.le_of_not_lt hshort
    · simp only [AosFrameReader.format, AosFrameReader.layout, parseRaw, if_neg hshort,
        refFromBytes, ne_eq, hversion, not_false_eq_true, if_true]

end Aos
end Datalink
end Leodos
