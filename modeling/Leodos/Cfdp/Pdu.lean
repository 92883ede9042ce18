/-
The codes and identifiers of CFDP, `transport/cfdp`.

A code is read from its wire value by a `tryFrom` that fails with the error text of
the source.  Entity identifiers and sequence numbers are 64-bit words;
offsets, lengths and sizes are naturals whose sums are cut to 64 bits where the code
adds them.
-/
import Leodos.Spp.Sequence

namespace Leodos
namespace Cfdp

open Spp

inductive CfdpError where
  | bufferTooSmall (required provided : Nat)
  | dataTooLarge (field : String) (max : Nat)
  | idLengthInvalid (field : String) (len : Nat)
  | idLengthMismatch
  | custom (message : String)
  | transactionNotFound
  | tooManyConcurrentTransactions
  | actionBufferFull
  deriving DecidableEq, Repr

abbrev EntityId := UInt64

abbrev TransactionSeqNum := UInt64

def MAX_ACTIONS_PER_EVENT : Nat := 8
def MAX_CONCURRENT_TRANSACTIONS : Nat := 8
def FILE_DATA_CHUNK_SIZE : Nat := 2048

/-- The sum of two 64-bit numbers as release code computes it. -/
def wrappingAdd (a b : Nat) : Nat := (a + b) % UInt64.size

theorem wrappingAdd_of_lt {a b : Nat} (h : a + b < UInt64.size) : wrappingAdd a b = a + b :=
  Nat.mod_eq_of_lt h

/-- The field of `bitmap` under `mask`, moved to the low end. -/
def getBitsU8 (bitmap mask : UInt8) : UInt8 :=
  UInt8.ofBitVec ((bitmap.toBitVec &&& mask.toBitVec) >>> mask.toBitVec.ctz)

inductive DirectiveCode where
  | eof
  | finished
  | ack
  | metadata
  | nak
  | prompt
  | keepAlive
  deriving DecidableEq, Repr

inductive ConditionCode where
  | noError
  | ackLimitReached
  | keepAliveLimitReached
  | invalidTransmissionMode
  | filestoreRejection
  | fileChecksumFailure
  | fileSizeError
  | nakLimitReached
  | inactivityDetected
  | invalidFileStructure
  | checkLimitReached
  | unsupportedChecksumType
  | suspendReceived
  | cancelReceived
  deriving DecidableEq, Repr

namespace ConditionCode

def toNat : ConditionCode → Nat
  | noError => 0
  | ackLimitReached => 1
  | keepAliveLimitReached => 2
  | invalidTransmissionMode => 3
  | filestoreRejection => 4
  | fileChecksumFailure => 5
  | fileSizeError => 6
  | nakLimitReached => 7
  | inactivityDetected => 8
  | invalidFileStructure => 9
  | checkLimitReached => 10
  | unsupportedChecksumType => 11
  | suspendReceived => 14
  | cancelReceived => 15

def tryFrom (val : UInt8) : Except CfdpError ConditionCode :=
  match val.toNat with
  | 0 => .ok noError
  | 1 => .ok ackLimitReached
  | 2 => .ok keepAliveLimitReached
  | 3 => .ok invalidTransmissionMode
  | 4 => .ok filestoreRejection
  | 5 => .ok fileChecksumFailure
  | 6 => .ok fileSizeError
  | 7 => .ok nakLimitReached
  | 8 => .ok inactivityDetected
  | 9 => .ok invalidFileStructure
  | 10 => .ok checkLimitReached
  | 11 => .ok unsupportedChecksumType
  | 14 => .ok suspendReceived
  | 15 => .ok cancelReceived
  | _ => .error (.custom "Invalid ConditionCode value")

end ConditionCode

inductive TransactionStatus where
  | undefined
  | active
  | terminated
  | unrecognized
  deriving DecidableEq, Repr

inductive ChecksumType where
  | modular
  | proximity1Crc32
  | crc32c
  | ieeeCrc32
  | null
  deriving DecidableEq, Repr

def ChecksumType.tryFrom (value : UInt8) : Except CfdpError ChecksumType :=
  match value.toNat with
  | 0 => .ok modular
  | 1 => .ok proximity1Crc32
  | 2 => .ok crc32c
  | 3 => .ok ieeeCrc32
  | 15 => .ok null
  | _ => .error (.custom "Unsupported checksum type")

/-! ## Fault handlers -/

inductive HandlerCode where
  | cancel
  | suspend
  | ignore
  | abandon
  deriving DecidableEq, Repr

namespace HandlerCode

def tryFrom (value : UInt8) : Except CfdpError HandlerCode :=
  match value.toNat with
  | 1 => .ok cancel
  | 2 => .ok suspend
  | 3 => .ok ignore
  | 4 => .ok abandon
  | _ => .error (.custom "Invalid HandlerCode")

def toBits : HandlerCode → BitVec 32
  | cancel => 0b00
  | suspend => 0b01
  | ignore => 0b10
  | abandon => 0b11

def ofBits (bits : BitVec 32) : HandlerCode :=
  if bits = 0b00 then cancel
  else if bits = 0b01 then suspend
  else if bits = 0b10 then ignore
  else if bits = 0b11 then abandon
  else cancel

end HandlerCode

/-- Two bits for each of the sixteen condition codes. -/
structure FaultHandlerSet where
  bits : BitVec 32
  deriving DecidableEq, Repr

namespace FaultHandlerSet

/-- Every condition cancels, and `Cancel` is `00`. -/
def default : FaultHandlerSet := ⟨0⟩

def setHandler (s : FaultHandlerSet) (condition : ConditionCode) (handler : HandlerCode) :
    FaultHandlerSet :=
  let shift := condition.toNat * 2
  let mask : BitVec 32 := ~~~((0b11 : BitVec 32) <<< shift)
  ⟨(s.bits &&& mask) ||| (handler.toBits <<< shift)⟩

def getHandler (s : FaultHandlerSet) (condition : ConditionCode) : HandlerCode :=
  HandlerCode.ofBits ((s.bits >>> (condition.toNat * 2)) &&& 0b11)

@[simp] theorem getHandler_default (condition : ConditionCode) :
    default.getHandler condition = .cancel := by
  simp [default, getHandler, HandlerCode.ofBits]

end FaultHandlerSet

end Cfdp
end Leodos

/-
The views of CFDP PDUs, `transport/cfdp/pdu`.

A PDU is a header part and what `Pdu::variant` finds in its data field.  The bodies
keep the octets that the accessors read, so an accessor fails here where it fails in
the source.
-/

namespace Leodos
namespace Cfdp

open Spp

/-- A big-endian number. -/
def beNat (bytes : Bytes) : Nat := bytes.foldl (fun acc b => acc * 256 + b.toNat) 0

/-- The octets of a field whose size depends on the large file flag. -/
def fssLen (largeFileFlag : Bool) : Nat := if largeFileFlag then 8 else 4

/-- Read such a field from the front of `bytes`. -/
def readFss (largeFileFlag : Bool) (onError : CfdpError) (bytes : Bytes) : Except CfdpError Nat :=
  if fssLen largeFileFlag ≤ bytes.length then .ok (beNat (bytes.take (fssLen largeFileFlag)))
  else .error onError

/-- Split a length octet and as many bytes as it says off `bytes`. -/
def splitLv (noLength short : CfdpError) (bytes : Bytes) : Except CfdpError (Bytes × Bytes) :=
  match bytes with
  | [] => .error noLength
  | len :: rest =>
      if rest.length < len.toNat then .error short
      else .ok (rest.take len.toNat, rest.drop len.toNat)

/-! ## Type-length-value records -/

inductive TlvType where
  | filestoreRequest
  | filestoreResponse
  | messageToUser
  | faultHandlerOverride
  | flowLabel
  | entityId
  deriving DecidableEq, Repr

def TlvType.tryFrom (value : UInt8) : Except CfdpError TlvType :=
  match value.toNat with
  | 0x00 => .ok filestoreRequest
  | 0x01 => .ok filestoreResponse
  | 0x02 => .ok messageToUser
  | 0x04 => .ok faultHandlerOverride
  | 0x05 => .ok flowLabel
  | 0x06 => .ok entityId
  | _ => .error (.custom "Unknown TLV type")

structure Tlv where
  typeCode : UInt8
  value : Bytes
  deriving DecidableEq, Repr

def Tlv.tlvType (tlv : Tlv) : Except CfdpError TlvType := TlvType.tryFrom tlv.typeCode

/-- The records at the front of a buffer of at most `fuel` octets.  A record that is
cut off ends the list. -/
def tlvsWithin : Nat → Bytes → List Tlv
  | fuel + 1, typeCode :: length :: rest =>
      if rest.length < length.toNat then []
      else ⟨typeCode, rest.take length.toNat⟩ :: tlvsWithin fuel (rest.drop length.toNat)
  | _, _ => []

/-- What `TlvIterator` yields. -/
def tlvs (buffer : Bytes) : List Tlv := tlvsWithin buffer.length buffer

inductive FilestoreAction where
  | createFile
  | deleteFile
  | renameFile
  | appendFile
  | replaceFile
  | createDirectory
  | removeDirectory
  | denyFile
  | denyDirectory
  deriving DecidableEq, Repr

def FilestoreAction.tryFrom (value : UInt8) : Except CfdpError FilestoreAction :=
  match value.toNat with
  | 0x00 => .ok createFile
  | 0x01 => .ok deleteFile
  | 0x02 => .ok renameFile
  | 0x03 => .ok appendFile
  | 0x04 => .ok replaceFile
  | 0x05 => .ok createDirectory
  | 0x06 => .ok removeDirectory
  | 0x07 => .ok denyFile
  | 0x08 => .ok denyDirectory
  | _ => .error (.custom "Invalid FilestoreAction code")

/-- The value of a Filestore Request record. -/
structure TlvFilestoreRequest where
  actionCodeAndSpare : UInt8
  rest : Bytes

namespace TlvFilestoreRequest

def fromTlv (tlv : Tlv) : Except CfdpError TlvFilestoreRequest :=
  match tlv.value with
  | [] => .error (.custom "Filestore Request TLV too short")
  | packed :: rest => .ok ⟨packed, rest⟩

def action (r : TlvFilestoreRequest) : Except CfdpError FilestoreAction :=
  FilestoreAction.tryFrom (getBitsU8 r.actionCodeAndSpare 0b11110000)

def firstFileName (r : TlvFilestoreRequest) : Except CfdpError Bytes := do
  let (name, _) ← splitLv (.custom "Missing first file name length")
    (.custom "Invalid first file name slice") r.rest
  return name

def hasSecond : FilestoreAction → Bool
  | .renameFile | .appendFile | .replaceFile => true
  | _ => false

def secondFileName (r : TlvFilestoreRequest) : Except CfdpError (Option Bytes) := do
  if hasSecond (← r.action) then
    let (_, remainder) ← splitLv (.custom "Missing first file name length")
      (.custom "Invalid first file name slice") r.rest
    let (name, _) ← splitLv (.custom "Missing second file name length")
      (.custom "Invalid second file name slice") remainder
    return some name
  else
    return none

end TlvFilestoreRequest

/-! ## File directives -/

structure MetadataPdu where
  packedFlags : UInt8
  rest : Bytes

namespace MetadataPdu

def checksumType (p : MetadataPdu) : Except CfdpError ChecksumType :=
  ChecksumType.tryFrom (getBitsU8 p.packedFlags 0b00001111)

def fileSize (p : MetadataPdu) (largeFileFlag : Bool) : Except CfdpError Nat :=
  readFss largeFileFlag
    (.custom (if largeFileFlag then "Failed to parse 64-bit file size"
      else "Failed to parse 32-bit file size")) p.rest

/-- The two file names and the options after them. -/
def variableFields (p : MetadataPdu) (largeFileFlag : Bool) :
    Except CfdpError (Bytes × Bytes × List Tlv) := do
  if p.rest.length < fssLen largeFileFlag then
    throw (.custom "Invalid metadata: insufficient data for file size")
  let (sourceName, remainder) ← splitLv
    (.custom "Invalid metadata: missing source name length")
    (.custom "Invalid metadata: insufficient data for source name")
    (p.rest.drop (fssLen largeFileFlag))
  let (destName, optionsTlvs) ← splitLv
    (.custom "Invalid metadata: missing destination name length")
    (.custom "Invalid metadata: insufficient data for destination name") remainder
  return (sourceName, destName, tlvs optionsTlvs)

def options (p : MetadataPdu) (largeFileFlag : Bool) : Except CfdpError (List Tlv) := do
  let (_, _, tlvs) ← p.variableFields largeFileFlag
  return tlvs

/-- One turn of the loop over the options.  An override whose value is not one octet
is skipped. -/
def overrideHandler (handlers : FaultHandlerSet) (tlv : Tlv) :
    Except CfdpError FaultHandlerSet := do
  if (← tlv.tlvType) = .faultHandlerOverride then
    match tlv.value with
    | [packed] =>
        let condition ← ConditionCode.tryFrom (getBitsU8 packed 0b11110000)
        let handler ← HandlerCode.tryFrom (getBitsU8 packed 0b00001111)
        return handlers.setHandler condition handler
    | _ => return handlers
  else
    return handlers

def faultHandlerOverrides (p : MetadataPdu) (largeFileFlag : Bool) :
    Except CfdpError FaultHandlerSet := do
  (← p.options largeFileFlag).foldlM overrideHandler FaultHandlerSet.default

def filestoreRequests (p : MetadataPdu) (largeFileFlag : Bool) : Except CfdpError (List Tlv) := do
  return (← p.options largeFileFlag).filter fun tlv => tlv.tlvType matches .ok .filestoreRequest

end MetadataPdu

structure EofPdu where
  conditionCodeAndSpare : UInt8
  fileChecksum : UInt32

def EofPdu.conditionCode (p : EofPdu) : Except CfdpError ConditionCode :=
  ConditionCode.tryFrom (getBitsU8 p.conditionCodeAndSpare 0b11110000)

structure FinishedPdu where
  packedFlags : UInt8

def FinishedPdu.conditionCode (p : FinishedPdu) : Except CfdpError ConditionCode :=
  ConditionCode.tryFrom (getBitsU8 p.packedFlags 0b11110000)

inductive AckedDirectiveCode where
  | eof
  | finished
  deriving DecidableEq, Repr

structure AckPdu where
  packedCodes : UInt8

namespace AckPdu

def directiveCodeOfAckedPdu (p : AckPdu) : Except CfdpError AckedDirectiveCode :=
  match (getBitsU8 p.packedCodes 0b11110000).toNat with
  | 0x04 => .ok .eof
  | 0x05 => .ok .finished
  | _ => .error (.custom "Invalid AckedPduDirectiveCode value")

def directiveSubtypeCode (p : AckPdu) : UInt8 := getBitsU8 p.packedCodes 0b00001111

def ackedDirectiveCode (p : AckPdu) : Except CfdpError AckedDirectiveCode := do
  match ← p.directiveCodeOfAckedPdu, p.directiveSubtypeCode.toNat with
  | .eof, 0 => return .eof
  | .finished, 1 => return .finished
  | _, _ => throw (.custom "Unknown acknowledged PDU type")

end AckPdu

inductive PromptResponse where
  | keepAlive
  | nak
  deriving DecidableEq, Repr

structure PromptPdu where
  packedFlags : UInt8

def PromptPdu.promptResponse (p : PromptPdu) : PromptResponse :=
  if getBitsU8 p.packedFlags 0b10000000 = 1 then .keepAlive else .nak

inductive KeepAlivePdu where
  | small (progress : UInt32)
  | large (progress : UInt64)

def KeepAlivePdu.progress : KeepAlivePdu → Nat
  | small progress => progress.toNat
  | large progress => progress.toNat

structure NakSegmentRequest where
  startOffset : Nat
  endOffset : Nat
  deriving DecidableEq, Repr

/-- The requests of a NAK PDU, with 32-bit or 64-bit offsets.  `variant` has already
checked that the octets are a whole number of them. -/
inductive NakPdu where
  | small (segments : List (UInt32 × UInt32))
  | large (segments : List (UInt64 × UInt64))

def NakPdu.segmentRequests : NakPdu → List NakSegmentRequest
  | small segments => segments.map fun s => ⟨s.1.toNat, s.2.toNat⟩
  | large segments => segments.map fun s => ⟨s.1.toNat, s.2.toNat⟩

/-! ## File data -/

inductive FileDataPdu where
  | withMeta (adminOctet : UInt8) (rest : Bytes)
  | withoutMeta (rest : Bytes)

namespace FileDataPdu

def offsetSlice : FileDataPdu → Except CfdpError Bytes
  | withMeta adminOctet rest =>
      if rest.length < (getBitsU8 adminOctet 0b00111111).toNat then
        .error (.custom "Invalid FSS Offset slice")
      else .ok (rest.drop (getBitsU8 adminOctet 0b00111111).toNat)
  | withoutMeta rest => .ok rest

def offset (p : FileDataPdu) (largeFileFlag : Bool) : Except CfdpError Nat := do
  readFss largeFileFlag (.custom "Invalid FSS Offset") (← p.offsetSlice)

def fileData (p : FileDataPdu) (largeFileFlag : Bool) : Except CfdpError Bytes :=
  match p with
  | withMeta adminOctet rest =>
      let start := (getBitsU8 adminOctet 0b00111111).toNat + fssLen largeFileFlag
      if rest.length < start then .error (.custom "Invalid file data slice")
      else .ok (rest.drop start)
  | withoutMeta rest =>
      if rest.length < fssLen largeFileFlag then .error (.custom "Invalid file data slice")
      else .ok (rest.drop (fssLen largeFileFlag))

end FileDataPdu

/-! ## The PDU -/

inductive PduVariant where
  | eof (pdu : EofPdu)
  | finished (pdu : FinishedPdu)
  | ack (pdu : AckPdu)
  | metadata (pdu : MetadataPdu)
  | fileData (pdu : FileDataPdu)
  | nak (pdu : NakPdu)
  | prompt (pdu : PromptPdu)
  | keepAlive (pdu : KeepAlivePdu)

structure Pdu where
  largeFileFlag : Bool
  sourceEntityId : Except CfdpError EntityId
  variant : Except CfdpError PduVariant

end Cfdp
end Leodos
