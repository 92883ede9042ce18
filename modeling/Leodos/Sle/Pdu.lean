/-
The PDUs of the RAF and the CLTU service.

An operation is a context tag around a sequence that begins with the credentials.  The
decoders read the octets from front to back and take no notice of the lengths of the
tag, the sequence and the credentials.  An octet array of fixed size is a list of that
length.
-/
import Leodos.Sle.Ber

namespace Leodos
namespace Sle

/-- `[u8; n]`. -/
abbrev Octets (n : Nat) := { bytes : Bytes // bytes.length = n }

/-! ## Shared types -/

structure Time where
  cds : Octets 8
  deriving DecidableEq, Repr

namespace Time

def size : Nat := 8

def decode (buf : Bytes) : Result Time :=
  if h : buf.length < size then .error (.err .bufferTooSmall)
  else .ok ⟨⟨buf.take size, by
    rw [List.length_take]
    unfold size at *
    omega⟩⟩

end Time

inductive ServiceType where
  | rafOnline
  | rafOffline
  | fCltu
  deriving DecidableEq, Repr

namespace ServiceType

def toI64 : ServiceType → I64
  | rafOnline => 0
  | rafOffline => 1
  | fCltu => 2

def fromU8 (v : BitVec 8) : Result ServiceType :=
  if v = 0 then .ok rafOnline
  else if v = 1 then .ok rafOffline
  else if v = 2 then .ok fCltu
  else .error (.err .invalidEnumValue)

end ServiceType

inductive BindResult where
  | success
  | accessDenied
  | serviceTypeNotSupported
  | versionNotSupported
  deriving DecidableEq, Repr

namespace BindResult

def toI64 : BindResult → I64
  | success => 0
  | accessDenied => 1
  | serviceTypeNotSupported => 2
  | versionNotSupported => 3

def fromU8 (v : BitVec 8) : Result BindResult :=
  if v = 0 then .ok success
  else if v = 1 then .ok accessDenied
  else if v = 2 then .ok serviceTypeNotSupported
  else if v = 3 then .ok versionNotSupported
  else .error (.err .invalidEnumValue)

end BindResult

inductive RequestedFrameQuality where
  | goodOnly
  | erredOnly
  | allFrames
  deriving DecidableEq, Repr

namespace RequestedFrameQuality

def toI64 : RequestedFrameQuality → I64
  | goodOnly => 0
  | erredOnly => 1
  | allFrames => 2

def fromI64 (v : I64) : Result RequestedFrameQuality :=
  if v = 0 then .ok goodOnly
  else if v = 1 then .ok erredOnly
  else if v = 2 then .ok allFrames
  else .error (.err .invalidEnumValue)

end RequestedFrameQuality

inductive CltuStatus where
  | radiated
  | expired
  | interrupted
  | productionNotStarted
  deriving DecidableEq, Repr

namespace CltuStatus

def toI64 : CltuStatus → I64
  | radiated => 0
  | expired => 1
  | interrupted => 2
  | productionNotStarted => 3

def fromI64 (v : I64) : Result CltuStatus :=
  if v = 0 then .ok radiated
  else if v = 1 then .ok expired
  else if v = 2 then .ok interrupted
  else if v = 3 then .ok productionNotStarted
  else .error (.err .invalidEnumValue)

end CltuStatus

structure Credentials where
  time : Octets 8
  random : BitVec 32
  hash : Octets 20
  deriving DecidableEq, Repr

/-! ## What the operations share -/

namespace RafOp

def bind : UInt8 := 0
def bindReturn : UInt8 := 1
def start : UInt8 := 4
def transferBuffer : UInt8 := 8

end RafOp

namespace CltuOp

def bind : UInt8 := 0
def start : UInt8 := 4
def transferData : UInt8 := 8
def transferDataReturn : UInt8 := 9

end CltuOp

def writeCredentials : Option Credentials → BerWriter → Result BerWriter
  | none, w => w.writeNull
  | some cred, w => do
      let (credSeq, w) ← w.beginSequence
      let w ← w.writeOctetString cred.time
      let w ← w.writeInteger (cred.random.setWidth 64)
      let w ← w.writeOctetString cred.hash
      w.endSequence credSeq

def encodeOperation (op : UInt8) (credentials : Option Credentials)
    (fields : BerWriter → Result BerWriter) (buf : Bytes) : Result BerWriter := do
  let w := BerWriter.new buf
  let (outer, w) ← w.beginContext op true
  let (seq, w) ← w.beginSequence
  let w ← writeCredentials credentials w
  let w ← fields w
  let w ← w.endSequence seq
  w.endSequence outer

/-- An octet string of the size of the array. -/
def exactly (n : Nat) (bytes : Bytes) : Result (Octets n) :=
  if h : bytes.length = n then .ok ⟨bytes, h⟩ else .error (.err .truncated)

/-- The array from the front of an octet string. -/
def atLeast (n : Nat) (bytes : Bytes) : Result (Octets n) :=
  if h : n ≤ bytes.length then .ok ⟨bytes.take n, List.length_take_of_le h⟩
  else .error (.err .truncated)

/-- NULL, or a sequence whose length is not looked at. -/
def readCredentials (array : (n : Nat) → Bytes → Result (Octets n)) (r : BerReader) :
    Result (Option Credentials × BerReader) := do
  let peek ← r.peekTag
  if BerReader.isUniversal Tags.null peek then
    let r ← r.readNull
    return (none, r)
  else
    let (_, r) ← r.readSequence
    let (timeBytes, r) ← r.readOctetString
    let (random, r) ← r.readInteger
    let (hashBytes, r) ← r.readOctetString
    let time ← array 8 timeBytes
    let hash ← array 20 hashBytes
    return (some ⟨time, random.setWidth 32, hash⟩, r)

/-- The context tag and the sequence of an operation, whose lengths are not looked at. -/
def readOperation (op : UInt8) (buf : Bytes) : Result BerReader := do
  let ((tag, _), r) ← (BerReader.new buf).readContextTag
  if tag ≠ op then .error (.err .unexpectedTag)
  else
    let (_, r) ← r.readSequence
    return r

/-- NULL of any class, or an octet string. -/
def readTime (r : BerReader) : Result (Option Time × BerReader) := do
  let peek ← r.peekTag
  if peek.tag = Tags.null then
    let r ← r.readNull
    return (none, r)
  else
    let (bytes, r) ← r.readOctetString
    let t ← Time.decode bytes
    return (some t, r)

def writeTime : Option Time → BerWriter → Result BerWriter
  | none, w => w.writeNull
  | some t, w => w.writeOctetString t.cds

/-! ## Bind -/

def maxIdLen : Nat := 64

/-- `&id[..len]`. -/
def idBytes (id : Octets 64) (len : Nat) : Result Bytes :=
  if len ≤ maxIdLen then .ok (id.val.take len) else .error .panic

/-- An identifier of at most 64 octets, filled up with zeros. -/
def padId (id : Bytes) (h : id.length ≤ maxIdLen) : Octets 64 :=
  ⟨id ++ List.replicate (maxIdLen - id.length) 0, by
    rw [List.length_append, List.length_replicate]
    unfold maxIdLen at *
    omega⟩

structure RafBindInvocation where
  initiatorId : Octets 64
  initiatorIdLen : Nat
  responderId : Octets 64
  responderIdLen : Nat
  serviceType : ServiceType
  version : BitVec 16
  credentials : Option Credentials
  deriving DecidableEq, Repr

namespace RafBindInvocation

def new (initiatorId responderId : Bytes) (serviceType : ServiceType) (version : BitVec 16)
    (credentials : Option Credentials) : Result RafBindInvocation :=
  if h : initiatorId.length ≤ maxIdLen ∧ responderId.length ≤ maxIdLen then
    .ok
      { initiatorId := padId initiatorId h.1
        initiatorIdLen := initiatorId.length
        responderId := padId responderId h.2
        responderIdLen := responderId.length
        serviceType
        version
        credentials }
  else .error (.err .tooLong)

def encode (p : RafBindInvocation) : Bytes → Result BerWriter :=
  encodeOperation RafOp.bind p.credentials fun w => do
    let w ← w.writeOctetString (← idBytes p.initiatorId p.initiatorIdLen)
    let w ← w.writeOctetString (← idBytes p.responderId p.responderIdLen)
    let w ← w.writeEnum p.serviceType.toI64
    w.writeInteger (p.version.setWidth 64)

def decode (buf : Bytes) : Result RafBindInvocation := do
  let r ← readOperation RafOp.bind buf
  let (credentials, r) ← readCredentials exactly r
  let (initiator, r) ← r.readOctetString
  let (responder, r) ← r.readOctetString
  let (service, r) ← r.readEnum
  let serviceType ← ServiceType.fromU8 (service.setWidth 8)
  let (version, _) ← r.readInteger
  new initiator responder serviceType (version.setWidth 16) credentials

end RafBindInvocation

structure CltuBindInvocation where
  initiatorId : Octets 64
  initiatorIdLen : Nat
  responderId : Octets 64
  responderIdLen : Nat
  serviceType : ServiceType
  version : BitVec 16
  credentials : Option Credentials
  deriving DecidableEq, Repr

namespace CltuBindInvocation

def new (initiatorId responderId : Bytes) (version : BitVec 16)
    (credentials : Option Credentials) : Result CltuBindInvocation :=
  if h : initiatorId.length ≤ maxIdLen ∧ responderId.length ≤ maxIdLen then
    .ok
      { initiatorId := padId initiatorId h.1
        initiatorIdLen := initiatorId.length
        responderId := padId responderId h.2
        responderIdLen := responderId.length
        serviceType := .fCltu
        version
        credentials }
  else .error (.err .tooLong)

def encode (p : CltuBindInvocation) : Bytes → Result BerWriter :=
  encodeOperation CltuOp.bind p.credentials fun w => do
    let w ← w.writeOctetString (← idBytes p.initiatorId p.initiatorIdLen)
    let w ← w.writeOctetString (← idBytes p.responderId p.responderIdLen)
    let w ← w.writeEnum p.serviceType.toI64
    w.writeInteger (p.version.setWidth 64)

def decode (buf : Bytes) : Result CltuBindInvocation := do
  let r ← readOperation CltuOp.bind buf
  let (credentials, r) ← readCredentials atLeast r
  let (initiator, r) ← r.readOctetString
  let (responder, r) ← r.readOctetString
  let (service, r) ← r.readEnum
  let _serviceType ← ServiceType.fromU8 (service.setWidth 8)
  let (version, _) ← r.readInteger
  new initiator responder (version.setWidth 16) credentials

end CltuBindInvocation

structure RafBindReturn where
  result : BindResult
  credentials : Option Credentials
  deriving DecidableEq, Repr

namespace RafBindReturn

def encode (p : RafBindReturn) : Bytes → Result BerWriter :=
  encodeOperation RafOp.bindReturn p.credentials fun w => w.writeEnum p.result.toI64

def decode (buf : Bytes) : Result RafBindReturn := do
  let r ← readOperation RafOp.bindReturn buf
  let (credentials, r) ← readCredentials atLeast r
  let (value, _) ← r.readEnum
  let result ← BindResult.fromU8 (value.setWidth 8)
  return { result, credentials }

end RafBindReturn

/-! ## Start -/

structure RafStartInvocation where
  startTime : Option Time
  stopTime : Option Time
  quality : RequestedFrameQuality
  credentials : Option Credentials
  deriving DecidableEq, Repr

namespace RafStartInvocation

def encode (p : RafStartInvocation) : Bytes → Result BerWriter :=
  encodeOperation RafOp.start p.credentials fun w => do
    let w ← writeTime p.startTime w
    let w ← writeTime p.stopTime w
    w.writeEnum p.quality.toI64

def decode (buf : Bytes) : Result RafStartInvocation := do
  let r ← readOperation RafOp.start buf
  let (credentials, r) ← readCredentials atLeast r
  let (startTime, r) ← readTime r
  let (stopTime, r) ← readTime r
  let (value, _) ← r.readEnum
  let quality ← RequestedFrameQuality.fromI64 value
  return { startTime, stopTime, quality, credentials }

end RafStartInvocation

structure CltuStartInvocation where
  credentials : Option Credentials
  invokeId : BitVec 16
  firstCltuId : BitVec 32
  deriving DecidableEq, Repr

namespace CltuStartInvocation

def encode (p : CltuStartInvocation) : Bytes → Result BerWriter :=
  encodeOperation CltuOp.start p.credentials fun w => do
    let w ← w.writeInteger (p.invokeId.setWidth 64)
    w.writeInteger (p.firstCltuId.setWidth 64)

def decode (buf : Bytes) : Result CltuStartInvocation := do
  let r ← readOperation CltuOp.start buf
  let (credentials, r) ← readCredentials atLeast r
  let (invokeId, r) ← r.readInteger
  let (firstCltuId, _) ← r.readInteger
  return { credentials, invokeId := invokeId.setWidth 16, firstCltuId := firstCltuId.setWidth 32 }

end CltuStartInvocation

/-! ## Transfer of data -/

/-- The private frame buffer and its length come from `new` only and stand for the
frame. -/
structure RafTransferDataInvocation where
  earthReceiveTime : Time
  dataLinkContinuity : BitVec 16
  frame : Bytes
  frame_le : frame.length ≤ 2048
  deriving DecidableEq, Repr

namespace RafTransferDataInvocation

def new (earthReceiveTime : Time) (dataLinkContinuity : BitVec 16) (frame : Bytes) :
    Result RafTransferDataInvocation :=
  if h : frame.length ≤ 2048 then .ok ⟨earthReceiveTime, dataLinkContinuity, frame, h⟩
  else .error (.err .tooLong)

def encode (p : RafTransferDataInvocation) (buf : Bytes) : Result BerWriter := do
  let w := BerWriter.new buf
  let (seq, w) ← w.beginSequence
  let w ← w.writeOctetString p.earthReceiveTime.cds
  let w ← w.writeInteger (p.dataLinkContinuity.signExtend 64)
  let w ← w.writeOctetString p.frame
  w.endSequence seq

def decode (buf : Bytes) : Result RafTransferDataInvocation := do
  let (_, r) ← (BerReader.new buf).readSequence
  let (timeBytes, r) ← r.readOctetString
  let ert ← Time.decode timeBytes
  let (continuity, r) ← r.readInteger
  let (frameData, _) ← r.readOctetString
  new ert (continuity.setWidth 16) frameData

end RafTransferDataInvocation

namespace RafTransferBuffer

/-- The length of the content, and where it begins. -/
def decodeHeader (buf : Bytes) : Result (Nat × Nat) := do
  let r := BerReader.new buf
  let octet ← r.peekTag
  if octet.tag ≠ RafOp.transferBuffer then .error (.err .unexpectedTag)
  else
    let (_, r) ← r.readTag
    let (contentLen, r) ← r.readLength
    return (contentLen, r.pos)

end RafTransferBuffer

/-- The private data buffer and its length come from `new` only and stand for the
data. -/
structure CltuTransferDataInvocation where
  cltuId : BitVec 32
  data : Bytes
  credentials : Option Credentials
  data_le : data.length ≤ 2048
  deriving DecidableEq, Repr

namespace CltuTransferDataInvocation

def new (cltuId : BitVec 32) (data : Bytes) (credentials : Option Credentials) :
    Result CltuTransferDataInvocation :=
  if h : data.length ≤ 2048 then .ok ⟨cltuId, data, credentials, h⟩
  else .error (.err .tooLong)

def encode (p : CltuTransferDataInvocation) : Bytes → Result BerWriter :=
  encodeOperation CltuOp.transferData p.credentials fun w => do
    let w ← w.writeInteger (p.cltuId.setWidth 64)
    w.writeOctetString p.data

def decode (buf : Bytes) : Result CltuTransferDataInvocation := do
  let r ← readOperation CltuOp.transferData buf
  let (credentials, r) ← readCredentials atLeast r
  let (cltuId, r) ← r.readInteger
  let (data, _) ← r.readOctetString
  new (cltuId.setWidth 32) data credentials

end CltuTransferDataInvocation

structure CltuTransferDataReturn where
  cltuId : BitVec 32
  status : CltuStatus
  credentials : Option Credentials
  deriving DecidableEq, Repr

namespace CltuTransferDataReturn

def encode (p : CltuTransferDataReturn) : Bytes → Result BerWriter :=
  encodeOperation CltuOp.transferDataReturn p.credentials fun w => do
    let w ← w.writeInteger (p.cltuId.setWidth 64)
    w.writeEnum p.status.toI64

def decode (buf : Bytes) : Result CltuTransferDataReturn := do
  let r ← readOperation CltuOp.transferDataReturn buf
  let (credentials, r) ← readCredentials atLeast r
  let (cltuId, r) ← r.readInteger
  let (value, _) ← r.readEnum
  let status ← CltuStatus.fromI64 value
  return { cltuId := cltuId.setWidth 32, status, credentials }

end CltuTransferDataReturn

end Sle
end Leodos
