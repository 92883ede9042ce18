/-
Sizes of the SRSPP packets on the wire.
-/
import Leodos.Bits.Field
import Leodos.Isl.Address
import Leodos.Spp.SpacePacket
import Leodos.Srspp.Sender.Machine

namespace Leodos
namespace Srspp

/-- `SrsppDataPacket::HEADER_SIZE`: primary header, telecommand secondary header,
routing header, SRSPP header.  An end-of-stream packet is the header alone. -/
def HEADER_SIZE : Nat := 6 + 2 + 2 + 3

/-- The builder finds room for the packet in a buffer of `size` bytes. -/
def PayloadInfo.Builds (size : Nat) (info : PayloadInfo) : Prop :=
  (if info.isEos then HEADER_SIZE else HEADER_SIZE + info.payload.length) ≤ size

instance (size : Nat) (info : PayloadInfo) : Decidable (info.Builds size) :=
  inferInstanceAs (Decidable (_ ≤ size))

end Srspp
end Leodos

/-
SRSPP packets on the wire, `transport/srspp/packet.rs`.

A packet is a view of a byte buffer: 13 octets of headers and a body.  A builder writes
the headers over whatever the buffer holds, leaves the body of a DATA packet to its
caller, and seals the packet with a checksum of all its octets.
-/

namespace Leodos
namespace Srspp

open Bits Isl Spp

inductive SrsppPacketError where
  | bufferTooSmall (required provided : Nat)
  | invalidPacketType (value : UInt8)
  | payloadTooLarge (max provided : Nat)
  deriving DecidableEq, Repr

inductive SrsppType where
  | data
  | ack
  | eos
  deriving DecidableEq, Repr

def SrsppType.toBits : SrsppType → BitVec 2
  | data => 0
  | ack => 1
  | eos => 2

def SrsppType.tryFrom (value : UInt8) : Except SrsppPacketError SrsppType :=
  match value.toNat with
  | 0 => .ok data
  | 1 => .ok ack
  | 2 => .ok eos
  | _ => .error (.invalidPacketType value)

/-! ## The checksum -/

def checksumU8 (bytes : Bytes) : UInt8 := bytes.foldl (· ^^^ ·) 0

def validateChecksumU8 (bytes : Bytes) : Bool := checksumU8 bytes == 0

theorem foldl_xor (acc : UInt8) (bytes : Bytes) :
    bytes.foldl (· ^^^ ·) acc = acc ^^^ checksumU8 bytes := by
  unfold checksumU8
  induction bytes generalizing acc with
  | nil => exact UInt8.xor_zero.symm
  | cons b bytes ih =>
    rw [List.foldl_cons, List.foldl_cons, ih, ih (0 ^^^ b), UInt8.zero_xor, UInt8.xor_assoc]

theorem checksumU8_append (a b : Bytes) : checksumU8 (a ++ b) = checksumU8 a ^^^ checksumU8 b := by
  rw [checksumU8, List.foldl_append, foldl_xor]
  rfl

theorem checksumU8_cons (b : UInt8) (bytes : Bytes) :
    checksumU8 (b :: bytes) = b ^^^ checksumU8 bytes := by
  rw [checksumU8, List.foldl_cons, foldl_xor, UInt8.zero_xor]

theorem xor_eq_zero_iff (a b : UInt8) : a ^^^ b = 0 ↔ a = b := by
  constructor
  · intro h
    have hb : (a ^^^ b) ^^^ b = b := by rw [h, UInt8.zero_xor]
    rwa [UInt8.xor_assoc, UInt8.xor_self, UInt8.xor_zero] at hb
  · rintro rfl
    exact UInt8.xor_self

/-! ## Headers -/

structure TelecommandSecondaryHeader where
  functionCode : UInt8
  checksum : UInt8
  deriving DecidableEq, Repr

structure IslRoutingTelecommandHeader where
  target : RawAddress
  deriving DecidableEq, Repr

structure SrsppHeader where
  sourceAddress : RawAddress
  versionType : UInt8
  deriving DecidableEq, Repr

namespace SrsppHeader

def VERSION_MASK : BitVec 8 := 0b11000000
def TYPE_MASK : BitVec 8 := 0b00110000
def SRSPP_VERSION : BitVec 8 := 0

theorem spans_type : Spans TYPE_MASK 4 2 := spans_of_eq rfl (by decide) (by decide)

def srsppType (h : SrsppHeader) : Except SrsppPacketError SrsppType :=
  SrsppType.tryFrom (UInt8.ofBitVec (getBits h.versionType.toBitVec TYPE_MASK))

/-- The four spare bits keep what they held. -/
def setSrsppType (h : SrsppHeader) (srsppType : SrsppType) : SrsppHeader :=
  let versioned := setBits h.versionType.toBitVec VERSION_MASK SRSPP_VERSION
  { h with
    versionType := UInt8.ofBitVec (setBits versioned TYPE_MASK (srsppType.toBits.setWidth 8)) }

@[simp] theorem srsppType_setSrsppType (h : SrsppHeader) (srsppType : SrsppType) :
    (h.setSrsppType srsppType).srsppType = .ok srsppType := by
  rw [SrsppHeader.srsppType, setSrsppType, getBits_setBits_self spans_type (fits_setWidth _)]
  cases srsppType <;> rfl

end SrsppHeader

/-- The headers that every packet begins with. -/
structure Headers where
  primary : PrimaryHeader
  secondary : TelecommandSecondaryHeader
  islHeader : IslRoutingTelecommandHeader
  srsppHeader : SrsppHeader
  deriving DecidableEq, Repr

namespace Headers

def asBytes (h : Headers) : Bytes :=
  [highByte h.primary.packetVersionAndId, lowByte h.primary.packetVersionAndId,
    highByte h.primary.packetSequenceControl, lowByte h.primary.packetSequenceControl,
    highByte h.primary.packetDataLength, lowByte h.primary.packetDataLength,
    h.secondary.functionCode, h.secondary.checksum,
    h.islHeader.target.groundOrOrb, h.islHeader.target.stationOrSat,
    h.srsppHeader.sourceAddress.groundOrOrb, h.srsppHeader.sourceAddress.stationOrSat,
    h.srsppHeader.versionType]

/-- The headers at the front of `bytes`, and what follows them. -/
def refFromPrefix (bytes : Bytes) : Option (Headers × Bytes) :=
  if HEADER_SIZE ≤ bytes.length then
    let b := fun i => bytes.getD i 0
    some
      ({ primary := ⟨ofBytes (b 0) (b 1), ofBytes (b 2) (b 3), ofBytes (b 4) (b 5)⟩
         secondary := ⟨b 6, b 7⟩
         islHeader := ⟨⟨b 8, b 9⟩⟩
         srsppHeader := ⟨⟨b 10, b 11⟩, b 12⟩ }, bytes.drop HEADER_SIZE)
  else none

@[simp] theorem length_asBytes (h : Headers) : h.asBytes.length = HEADER_SIZE := rfl

@[simp] theorem refFromPrefix_asBytes (h : Headers) (rest : Bytes) :
    refFromPrefix (h.asBytes ++ rest) = some (h, rest) := by
  have hle : HEADER_SIZE ≤ (h.asBytes ++ rest).length := by
    rw [List.length_append, length_asBytes]
    exact Nat.le_add_right _ _
  rw [refFromPrefix, if_pos hle]
  -- each octet of the front is a field of `h`, or half of one
  simp only [asBytes, List.cons_append, List.nil_append, List.getD_cons_zero, List.getD_cons_succ,
    ofBytes_bytes]
  rfl

theorem refFromPrefix_of_le {bytes : Bytes} (h : HEADER_SIZE ≤ bytes.length) :
    ∃ headers, refFromPrefix bytes = some (headers, bytes.drop HEADER_SIZE) :=
  ⟨_, if_pos h⟩

theorem refFromPrefix_of_lt {bytes : Bytes} (h : bytes.length < HEADER_SIZE) :
    refFromPrefix bytes = none := if_neg (Nat.not_le.2 h)

theorem refFromPrefix_take (bytes : Bytes) :
    refFromPrefix (bytes.take HEADER_SIZE) = (refFromPrefix bytes).map fun r => (r.1, []) := by
  by_cases h : HEADER_SIZE ≤ bytes.length
  · have hlen : (bytes.take HEADER_SIZE).length = HEADER_SIZE := by
      rw [List.length_take, Nat.min_eq_left h]
    have hget : ∀ i, i < HEADER_SIZE → (bytes.take HEADER_SIZE).getD i 0 = bytes.getD i 0 := by
      intro i hi
      rw [List.getD_eq_getElem?_getD, List.getElem?_take_of_lt hi, ← List.getD_eq_getElem?_getD]
    have hrest : (bytes.take HEADER_SIZE).drop HEADER_SIZE = [] :=
      List.drop_eq_nil_of_le (Nat.le_of_eq hlen)
    rw [refFromPrefix, refFromPrefix, if_pos h, if_pos (Nat.le_of_eq hlen.symm), hrest,
      Option.map_some]
    simp (disch := decide) only [hget]
  · have hshort : (bytes.take HEADER_SIZE).length < HEADER_SIZE := by
      rw [List.length_take]
      omega
    rw [refFromPrefix_of_lt hshort, refFromPrefix_of_lt (Nat.lt_of_not_le h), Option.map_none]

def setChecksum (h : Headers) (checksum : UInt8) : Headers :=
  { h with secondary := { h.secondary with checksum } }

/-- `set_cfe_checksum` of a packet with these headers and the body `body`. -/
def setCfeChecksum (h : Headers) (body : Bytes) : Headers :=
  h.setChecksum (checksumU8 ((h.setChecksum 0).asBytes ++ body))

theorem checksum_asBytes (h : Headers) (checksum : UInt8) :
    checksumU8 (h.setChecksum checksum).asBytes =
      checksum ^^^ checksumU8 (h.setChecksum 0).asBytes := by
  have hfront : ∀ c, (h.setChecksum c).asBytes = h.asBytes.take 7 ++ c :: h.asBytes.drop 8 :=
    fun c => rfl
  rw [hfront, hfront, checksumU8_append, checksumU8_append, checksumU8_cons, checksumU8_cons,
    UInt8.zero_xor, ← UInt8.xor_assoc, ← UInt8.xor_assoc, UInt8.xor_comm checksum]

/-- Sealed over the body `body`, a packet is valid with the body `body'` when the two
bodies have one checksum. -/
theorem validate_setCfeChecksum (h : Headers) (body body' : Bytes) :
    validateChecksumU8 ((h.setCfeChecksum body).asBytes ++ body') = true ↔
      checksumU8 body = checksumU8 body' := by
  rw [validateChecksumU8, beq_iff_eq, checksumU8_append, setCfeChecksum, checksum_asBytes,
    checksumU8_append, UInt8.xor_comm (checksumU8 (h.setChecksum 0).asBytes), UInt8.xor_assoc,
    UInt8.xor_assoc, ← UInt8.xor_assoc (checksumU8 (h.setChecksum 0).asBytes), UInt8.xor_self,
    UInt8.zero_xor, xor_eq_zero_iff]

end Headers

/-! ## Filling the headers -/

/-- The fields that a packet is built from and that its reader looks at. -/
structure Fields where
  srsppType : SrsppType
  sourceAddress : Address
  target : Address
  apid : Apid
  functionCode : UInt8
  sequenceCount : SequenceCount
  sequenceFlag : SequenceFlag
  deriving DecidableEq, Repr

namespace Headers

def fields (h : Headers) : Except SrsppPacketError Fields := do
  let srsppType ← h.srsppHeader.srsppType
  return {
    srsppType
    sourceAddress := h.srsppHeader.sourceAddress.parse
    target := h.islHeader.target.parse
    apid := h.primary.apid
    functionCode := h.secondary.functionCode
    sequenceCount := h.primary.sequenceCount
    sequenceFlag := h.primary.sequenceFlag }

/-- What every builder writes, for a data field of `dataFieldLen` octets. -/
def fill (h : Headers) (f : Fields) (dataFieldLen : Nat) : Headers where
  primary :=
    ((((((h.primary.setVersion PacketVersion.VERSION_1).setPacketType .telecommand
      ).setSecondaryHeaderFlag .present).setApid f.apid).setSequenceCount f.sequenceCount
      ).setSequenceFlag f.sequenceFlag).setDataFieldLen (BitVec.ofNat 16 dataFieldLen)
  secondary := { functionCode := f.functionCode, checksum := 0 }
  islHeader := { target := .ofAddress f.target }
  srsppHeader :=
    { h.srsppHeader with sourceAddress := .ofAddress f.sourceAddress }.setSrsppType f.srsppType

@[simp] theorem fields_setChecksum (h : Headers) (checksum : UInt8) :
    (h.setChecksum checksum).fields = h.fields := rfl

@[simp] theorem fields_setCfeChecksum (h : Headers) (body : Bytes) :
    (h.setCfeChecksum body).fields = h.fields := rfl

theorem fields_fill (h : Headers) (f : Fields) (n : Nat) :
    (h.fill f n).fields = .ok
      { f with
        sourceAddress := (RawAddress.ofAddress f.sourceAddress).parse
        target := (RawAddress.ofAddress f.target).parse } := by
  unfold fields fill
  simp only [SrsppHeader.srsppType_setSrsppType, PrimaryHeader.apid_setDataFieldLen,
    PrimaryHeader.apid_setSequenceFlag, PrimaryHeader.apid_setSequenceCount,
    PrimaryHeader.apid_setApid, PrimaryHeader.sequenceCount_setDataFieldLen,
    PrimaryHeader.sequenceCount_setSequenceFlag, PrimaryHeader.sequenceCount_setSequenceCount,
    PrimaryHeader.sequenceFlag_setDataFieldLen, PrimaryHeader.sequenceFlag_setSequenceFlag]
  rfl

theorem fields_fill_iff (h : Headers) (f : Fields) (n : Nat) :
    (h.fill f n).fields = .ok f ↔ f.sourceAddress.Encodable ∧ f.target.Encodable := by
  rw [fields_fill, Except.ok.injEq, Fields.mk.injEq, parse_ofAddress_iff, parse_ofAddress_iff]
  exact ⟨fun h => ⟨h.2.1, h.2.2.1⟩, fun h => ⟨rfl, h.1, h.2, rfl, rfl, rfl, rfl⟩⟩

theorem packetDataLength_fill (h : Headers) (f : Fields) (n : Nat) :
    (h.fill f (2 + 2 + 3 + n)).primary.packetDataLength = BitVec.ofNat 16 (n + 6) := by
  have hlen : 2 + 2 + 3 + n = n + 6 + 1 := by omega
  rw [fill, hlen, PrimaryHeader.packetDataLength_setDataFieldLen]

end Headers

/-! ## Packets -/

structure SrsppPacket where
  headers : Headers
  rest : Bytes

structure SrsppDataPacket where
  headers : Headers
  payload : Bytes

structure AckPayload where
  cumulativeAck : BitVec 16
  selectiveAckBitmap : BitVec 16

structure SrsppAckPacket where
  headers : Headers
  ackPayload : AckPayload

structure SrsppEosPacket where
  headers : Headers

def SrsppPacket.parse (bytes : Bytes) : Except SrsppPacketError SrsppPacket :=
  match Headers.refFromPrefix bytes with
  | some (headers, rest) => .ok ⟨headers, rest⟩
  | none => .error (.bufferTooSmall HEADER_SIZE bytes.length)

def SrsppPacket.srsppType (p : SrsppPacket) : Except SrsppPacketError SrsppType :=
  p.headers.srsppHeader.srsppType

def SrsppPacket.sourceAddress (p : SrsppPacket) : Address :=
  p.headers.srsppHeader.sourceAddress.parse

namespace SrsppDataPacket

def asBytes (p : SrsppDataPacket) : Bytes := p.headers.asBytes ++ p.payload

def parse (bytes : Bytes) : Except SrsppPacketError SrsppDataPacket :=
  match Headers.refFromPrefix bytes with
  | some (headers, payload) => .ok ⟨headers, payload⟩
  | none => .error (.bufferTooSmall HEADER_SIZE bytes.length)

def validateCfeChecksum (p : SrsppDataPacket) : Bool := validateChecksumU8 p.asBytes

/-- The builder.  The payload is what the buffer holds, and the checksum covers it. -/
def new (buffer : Bytes) (sourceAddress target : Address) (apid : Apid) (functionCode : UInt8)
    (sequenceCount : SequenceCount) (sequenceFlag : SequenceFlag) (payloadLen : Nat) :
    Except SrsppPacketError SrsppDataPacket :=
  match Headers.refFromPrefix buffer with
  | none => .error (.bufferTooSmall (HEADER_SIZE + payloadLen) buffer.length)
  | some (headers, rest) =>
      if rest.length < payloadLen then
        .error (.bufferTooSmall (HEADER_SIZE + payloadLen) buffer.length)
      else
        let payload := rest.take payloadLen
        let filled := headers.fill
          ⟨.data, sourceAddress, target, apid, functionCode, sequenceCount, sequenceFlag⟩
          (2 + 2 + 3 + payloadLen)
        .ok ⟨filled.setCfeChecksum payload, payload⟩

theorem parse_asBytes (p : SrsppDataPacket) : parse p.asBytes = .ok p := by
  rw [parse, asBytes, Headers.refFromPrefix_asBytes]

end SrsppDataPacket

namespace AckPayload

def new (cumulativeAck selectiveAckBitmap : BitVec 16) : AckPayload :=
  ⟨cumulativeAck, selectiveAckBitmap⟩

/-- The acknowledged count; the two high bits are cut off. -/
def count (p : AckPayload) : SequenceCount := p.cumulativeAck.setWidth 14

def asBytes (p : AckPayload) : Bytes :=
  [highByte p.cumulativeAck, lowByte p.cumulativeAck, highByte p.selectiveAckBitmap,
    lowByte p.selectiveAckBitmap]

def ofBytes (bytes : Bytes) : AckPayload :=
  ⟨Bits.ofBytes (bytes.getD 0 0) (bytes.getD 1 0), Bits.ofBytes (bytes.getD 2 0) (bytes.getD 3 0)⟩

theorem ofBytes_asBytes (p : AckPayload) : ofBytes p.asBytes = p := by
  simp only [ofBytes, asBytes, List.getD_cons_zero, List.getD_cons_succ, ofBytes_bytes]

end AckPayload

namespace SrsppAckPacket

def SIZE : Nat := HEADER_SIZE + 4

def asBytes (p : SrsppAckPacket) : Bytes := p.headers.asBytes ++ p.ackPayload.asBytes

def parse (bytes : Bytes) : Except SrsppPacketError SrsppAckPacket :=
  if bytes.length < SIZE then .error (.bufferTooSmall SIZE bytes.length)
  else
    match Headers.refFromPrefix (bytes.take SIZE) with
    | some (headers, rest) => .ok ⟨headers, .ofBytes rest⟩
    | none => .error (.bufferTooSmall SIZE bytes.length)

def validateCfeChecksum (p : SrsppAckPacket) : Bool := validateChecksumU8 p.asBytes

def new (buffer : Bytes) (sourceAddress target : Address) (apid : Apid) (functionCode : UInt8)
    (sequenceCount cumulativeAck : SequenceCount) (selectiveBitmap : BitVec 16) :
    Except SrsppPacketError SrsppAckPacket :=
  match Headers.refFromPrefix (buffer.take SIZE) with
  | none => .error (.bufferTooSmall SIZE buffer.length)
  | some (headers, rest) =>
      if rest.length < 4 then .error (.bufferTooSmall SIZE buffer.length)
      else
        let filled := headers.fill
          ⟨.ack, sourceAddress, target, apid, functionCode, sequenceCount, .unsegmented⟩
          (2 + 2 + 3 + 4)
        let ackPayload := AckPayload.new (cumulativeAck.setWidth 16) selectiveBitmap
        .ok ⟨filled.setCfeChecksum ackPayload.asBytes, ackPayload⟩

theorem parse_asBytes (p : SrsppAckPacket) : parse p.asBytes = .ok p := by
  have hlen : p.asBytes.length = SIZE := rfl
  rw [parse, if_neg (by rw [hlen]; exact Nat.lt_irrefl _), ← hlen, List.take_length, asBytes,
    Headers.refFromPrefix_asBytes]
  dsimp only
  rw [AckPayload.ofBytes_asBytes]

end SrsppAckPacket

namespace SrsppEosPacket

def asBytes (p : SrsppEosPacket) : Bytes := p.headers.asBytes

def parse (bytes : Bytes) : Except SrsppPacketError SrsppEosPacket :=
  if bytes.length < HEADER_SIZE then .error (.bufferTooSmall HEADER_SIZE bytes.length)
  else
    match Headers.refFromPrefix (bytes.take HEADER_SIZE) with
    | some (headers, _) => .ok ⟨headers⟩
    | none => .error (.bufferTooSmall HEADER_SIZE bytes.length)

def validateCfeChecksum (p : SrsppEosPacket) : Bool := validateChecksumU8 p.asBytes

def new (buffer : Bytes) (sourceAddress target : Address) (apid : Apid) (functionCode : UInt8)
    (sequenceCount : SequenceCount) : Except SrsppPacketError SrsppEosPacket :=
  match Headers.refFromPrefix buffer with
  | none => .error (.bufferTooSmall HEADER_SIZE buffer.length)
  | some (headers, _) =>
      let filled := headers.fill
        ⟨.eos, sourceAddress, target, apid, functionCode, sequenceCount, .unsegmented⟩ (2 + 2 + 3)
      .ok ⟨filled.setCfeChecksum []⟩

theorem parse_asBytes (p : SrsppEosPacket) : parse p.asBytes = .ok p := by
  have hlen : p.asBytes.length = HEADER_SIZE := rfl
  rw [parse, if_neg (by rw [hlen]; exact Nat.lt_irrefl _), ← hlen, List.take_length, asBytes,
    ← List.append_nil p.headers.asBytes, Headers.refFromPrefix_asBytes]

end SrsppEosPacket

end Srspp
end Leodos
