/-
The BER encoder and decoder of the SLE services.

The writer fills a caller's buffer and patches the length of a sequence when the
sequence ends; the reader walks over a buffer element by element.  Every operation says
how it ends: with a value, with an error, or with a panic (an index out of range or a
difference below zero).
-/
import Leodos.Memory.Cells

namespace Leodos
namespace Sle

open Memory

abbrev Bytes := List UInt8

/-- An `i64`. -/
abbrev I64 := BitVec 64

inductive SleError where
  | bufferTooSmall
  | truncated
  | unexpectedTag
  | invalidEnumValue
  | integerOverflow
  | tooLong
  | missingField
  deriving DecidableEq, Repr

/-- How an operation ends without a value. -/
inductive Fault where
  | err (e : SleError)
  | panic
  deriving DecidableEq, Repr

abbrev Result (α : Type) := Except Fault α

/-- The variants in the order of their numbers. -/
inductive Class where
  | universal
  | application
  | context
  | priv
  deriving DecidableEq, Repr

namespace Class

def toBits : Class → UInt8
  | .universal => 0
  | .application => 1
  | .context => 2
  | .priv => 3

def fromBits (bits : UInt8) : Class :=
  if bits = 0 then .universal
  else if bits = 1 then .application
  else if bits = 2 then .context
  else .priv

end Class

namespace Tags

def boolean : UInt8 := 1
def integer : UInt8 := 2
def bitString : UInt8 := 3
def octetString : UInt8 := 4
def null : UInt8 := 5
def enumerated : UInt8 := 10
def sequence : UInt8 := 16

end Tags

/-! ## Tags and lengths -/

def encodeTag (tag : UInt8) (cls : Class) (constructed : Bool) : UInt8 :=
  cls.toBits <<< 6 ||| (if constructed then 0x20 else 0x00) ||| tag &&& 0x1F

/-- The octets that `encode_length` puts down. -/
def lengthOctets (len : Nat) : Bytes :=
  if len < 128 then [.ofNat len]
  else if len ≤ 0xFF then [0x81, .ofNat len]
  else if len ≤ 0xFFFF then [0x82, .ofNat (len >>> 8), .ofNat len]
  else if len ≤ 0xFFFFFF then [0x83, .ofNat (len >>> 16), .ofNat (len >>> 8), .ofNat len]
  else [0x84, .ofNat (len >>> 24), .ofNat (len >>> 16), .ofNat (len >>> 8), .ofNat len]

def encodeLength (len : Nat) (buf : Bytes) : Result (Bytes × Nat) :=
  if buf.length < (lengthOctets len).length then .error (.err .bufferTooSmall)
  else .ok (write buf 0 (lengthOctets len), (lengthOctets len).length)

structure TagOctet where
  tag : UInt8
  cls : Class
  constructed : Bool
  deriving DecidableEq, Repr

def decodeTag : Bytes → Result (TagOctet × Nat)
  | [] => .error (.err .truncated)
  | b :: _ =>
      if b &&& 0x1F = 0x1F then .error (.err .unexpectedTag)
      else .ok (⟨b &&& 0x1F, .fromBits (b >>> 6), b &&& 0x20 != 0⟩, 1)

/-- The length with the number of octets consumed. -/
def decodeLength : Bytes → Result (Nat × Nat)
  | [] => .error (.err .truncated)
  | first :: rest =>
      if first < 128 then .ok (first.toNat, 1)
      else
        let numBytes := (first &&& 0x7F).toNat
        if numBytes = 0 ∨ numBytes > 4 then .error (.err .truncated)
        else if rest.length < numBytes then .error (.err .truncated)
        else .ok ((rest.take numBytes).foldl (fun val b => val <<< 8 ||| b.toNat) 0, 1 + numBytes)

/-! ## Integers -/

/-- `to_be_bytes`. -/
def toBeBytes (value : I64) : Bytes :=
  [.ofNat (value.toNat >>> 56), .ofNat (value.toNat >>> 48), .ofNat (value.toNat >>> 40),
    .ofNat (value.toNat >>> 32), .ofNat (value.toNat >>> 24), .ofNat (value.toNat >>> 16),
    .ofNat (value.toNat >>> 8), .ofNat value.toNat]

/-- Drop the octets in front that the sign of the next one implies; the last one
stays. -/
def stripSign (negative : Bool) : Bytes → Bytes
  | a :: b :: rest =>
      if negative then
        if a = 0xFF ∧ b ≥ 0x80 then stripSign negative (b :: rest) else a :: b :: rest
      else
        if a = 0 ∧ b < 0x80 then stripSign negative (b :: rest) else a :: b :: rest
  | bytes => bytes

def encodeI64 (value : I64) : Bytes := stripSign value.msb (toBeBytes value)

def shiftIn (val : I64) (b : UInt8) : I64 := val <<< 8 ||| b.toBitVec.setWidth 64

def signOf : Bytes → Bool
  | [] => false
  | b :: _ => b &&& 0x80 != 0

def decodeI64 (data : Bytes) : I64 :=
  data.foldl shiftIn (if signOf data then .allOnes 64 else 0)

/-! ## The writer -/

structure BerWriter where
  buf : Bytes
  pos : Nat
  pos_le : pos ≤ buf.length

/-- Where the length of an open sequence goes, and where its content begins. -/
structure SeqStart where
  lenPos : Nat
  contentStart : Nat
  deriving DecidableEq, Repr

namespace BerWriter

def new (buf : Bytes) : BerWriter := ⟨buf, 0, Nat.zero_le _⟩

def len (w : BerWriter) : Nat := w.pos

def asBytes (w : BerWriter) : Bytes := w.buf.take w.pos

def remaining (w : BerWriter) : Nat := w.buf.length - w.pos

def writeBytes (w : BerWriter) (data : Bytes) : Result BerWriter :=
  if h : w.remaining < data.length then .error (.err .bufferTooSmall)
  else .ok
    { buf := write w.buf w.pos data
      pos := w.pos + data.length
      pos_le := by
        have := w.pos_le
        rw [write_length]
        unfold remaining at h
        omega }

def writeByte (w : BerWriter) (b : UInt8) : Result BerWriter :=
  if h : w.remaining = 0 then .error (.err .bufferTooSmall)
  else .ok
    { buf := w.buf.set w.pos b
      pos := w.pos + 1
      pos_le := by
        rw [List.length_set]
        unfold remaining at h
        omega }

def writeTag (w : BerWriter) (tag : UInt8) (cls : Class) (constructed : Bool) : Result BerWriter :=
  w.writeByte (encodeTag tag cls constructed)

def writeLength (w : BerWriter) (len : Nat) : Result BerWriter :=
  if h : (w.buf.drop w.pos).length < (lengthOctets len).length then .error (.err .bufferTooSmall)
  else .ok
    { buf := w.buf.take w.pos ++ write (w.buf.drop w.pos) 0 (lengthOctets len)
      pos := w.pos + (lengthOctets len).length
      pos_le := by
        have := w.pos_le
        rw [List.length_append, write_length, List.length_take]
        rw [List.length_drop] at h ⊢
        omega }

def writeBool (w : BerWriter) (value : Bool) : Result BerWriter := do
  let w ← w.writeTag Tags.boolean .universal false
  let w ← w.writeLength 1
  w.writeByte (if value then 0xFF else 0x00)

def writeInteger (w : BerWriter) (value : I64) : Result BerWriter := do
  let w ← w.writeTag Tags.integer .universal false
  let w ← w.writeLength (encodeI64 value).length
  w.writeBytes (encodeI64 value)

def writeOctetString (w : BerWriter) (data : Bytes) : Result BerWriter := do
  let w ← w.writeTag Tags.octetString .universal false
  let w ← w.writeLength data.length
  w.writeBytes data

def writeEnum (w : BerWriter) (value : I64) : Result BerWriter := do
  let w ← w.writeTag Tags.enumerated .universal false
  let w ← w.writeLength (encodeI64 value).length
  w.writeBytes (encodeI64 value)

def writeNull (w : BerWriter) : Result BerWriter := do
  let w ← w.writeTag Tags.null .universal false
  w.writeLength 0

def writeBitString (w : BerWriter) (data : Bytes) : Result BerWriter := do
  let w ← w.writeTag Tags.bitString .universal false
  let w ← w.writeLength (data.length + 1)
  let w ← w.writeByte 0
  w.writeBytes data

/-- Leave three octets for the length. -/
def reserve (w : BerWriter) : Result (SeqStart × BerWriter) :=
  if h : w.remaining < 3 then .error (.err .bufferTooSmall)
  else .ok (⟨w.pos, w.pos + 3⟩,
    { w with
      pos := w.pos + 3
      pos_le := by
        unfold remaining at h
        omega })

def beginSequence (w : BerWriter) : Result (SeqStart × BerWriter) := do
  let w ← w.writeTag Tags.sequence .universal true
  w.reserve

def beginContext (w : BerWriter) (tag : UInt8) (constructed : Bool) :
    Result (SeqStart × BerWriter) := do
  let w ← w.writeTag tag .context constructed
  w.reserve

/-- Patch the length.  The content moves to the left when the length takes less than
the three octets left for it. -/
def endSequence (w : BerWriter) (start : SeqStart) : Result BerWriter :=
  if w.pos < start.contentStart then .error .panic
  else
    let contentLen := w.pos - start.contentStart
    if contentLen < 128 then
      .ok
        { buf := (copyWithin w.buf start.contentStart contentLen (start.lenPos + 1)).set
            start.lenPos (.ofNat contentLen)
          pos := w.pos - 2
          pos_le := by
            have := w.pos_le
            rw [List.length_set, copyWithin_length]
            omega }
    else if contentLen ≤ 0xFF then
      .ok
        { buf := ((copyWithin w.buf start.contentStart contentLen (start.lenPos + 2)).set
            start.lenPos 0x81).set (start.lenPos + 1) (.ofNat contentLen)
          pos := w.pos - 1
          pos_le := by
            have := w.pos_le
            rw [List.length_set, List.length_set, copyWithin_length]
            omega }
    else
      .ok
        { buf := ((w.buf.set start.lenPos 0x82).set (start.lenPos + 1)
            (.ofNat (contentLen >>> 8))).set (start.lenPos + 2) (.ofNat contentLen)
          pos := w.pos
          pos_le := by
            have := w.pos_le
            rw [List.length_set, List.length_set, List.length_set]
            omega }

end BerWriter

/-! ## The reader -/

structure BerReader where
  buf : Bytes
  pos : Nat
  deriving DecidableEq, Repr

namespace BerReader

def new (buf : Bytes) : BerReader := ⟨buf, 0⟩

def remaining (r : BerReader) : Result Nat :=
  if r.pos ≤ r.buf.length then .ok (r.buf.length - r.pos) else .error .panic

/-- `&buf[pos..]`. -/
def ahead (r : BerReader) : Result Bytes :=
  if r.pos ≤ r.buf.length then .ok (r.buf.drop r.pos) else .error .panic

def peekTag (r : BerReader) : Result TagOctet := do
  let (octet, _) ← decodeTag (← r.ahead)
  return octet

def readTag (r : BerReader) : Result (TagOctet × BerReader) := do
  let (octet, consumed) ← decodeTag (← r.ahead)
  return (octet, { r with pos := r.pos + consumed })

def readLength (r : BerReader) : Result (Nat × BerReader) := do
  let (len, consumed) ← decodeLength (← r.ahead)
  return (len, { r with pos := r.pos + consumed })

def readRaw (r : BerReader) (len : Nat) : Result (Bytes × BerReader) := do
  if (← r.remaining) < len then .error (.err .truncated)
  else return (slice r.buf r.pos len, { r with pos := r.pos + len })

def expect (r : BerReader) (wanted : TagOctet → Bool) : Result (TagOctet × BerReader) := do
  let (octet, r) ← r.readTag
  if wanted octet then return (octet, r) else .error (.err .unexpectedTag)

def isUniversal (tag : UInt8) (octet : TagOctet) : Bool :=
  octet.tag == tag && octet.cls == .universal

/-- The octet of the value is taken without a look at what is left. -/
def readBool (r : BerReader) : Result (Bool × BerReader) := do
  let (_, r) ← r.expect (isUniversal Tags.boolean)
  let (len, r) ← r.readLength
  if len ≠ 1 then .error (.err .truncated)
  else
    match r.buf[r.pos]? with
    | none => .error .panic
    | some val => return (val != 0, { r with pos := r.pos + 1 })

def readNumber (tag : UInt8) (r : BerReader) : Result (I64 × BerReader) := do
  let (_, r) ← r.expect (isUniversal tag)
  let (len, r) ← r.readLength
  if len = 0 ∨ len > 8 then .error (.err .integerOverflow)
  else
    let (data, r) ← r.readRaw len
    return (decodeI64 data, r)

def readInteger (r : BerReader) : Result (I64 × BerReader) := r.readNumber Tags.integer

def readOctetString (r : BerReader) : Result (Bytes × BerReader) := do
  let (_, r) ← r.expect (isUniversal Tags.octetString)
  let (len, r) ← r.readLength
  r.readRaw len

def readEnum (r : BerReader) : Result (I64 × BerReader) := r.readNumber Tags.enumerated

def readNull (r : BerReader) : Result BerReader := do
  let (_, r) ← r.expect (isUniversal Tags.null)
  let (len, r) ← r.readLength
  if len ≠ 0 then .error (.err .truncated) else return r

/-- The length of the content, in front of which the reader stands. -/
def readSequence (r : BerReader) : Result (Nat × BerReader) := do
  let (_, r) ← r.expect fun octet => isUniversal Tags.sequence octet && octet.constructed
  r.readLength

def readContextTag (r : BerReader) : Result ((UInt8 × Nat) × BerReader) := do
  let (octet, r) ← r.expect fun octet => octet.cls == .context
  let (len, r) ← r.readLength
  return ((octet.tag, len), r)

def subReader (r : BerReader) (len : Nat) : Result (BerReader × BerReader) := do
  if (← r.remaining) < len then .error (.err .truncated)
  else return (.new (slice r.buf r.pos len), { r with pos := r.pos + len })

end BerReader

end Sle
end Leodos
