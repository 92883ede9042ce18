/-
Identifiers of spacecraft and virtual channels, `ids.rs`.

Both wrap 32 bits.  A format that gives them fewer checks their width where it uses them.
-/
import Leodos.Bits.Field
import Leodos.Memory.Cells
import Leodos.Spp.Sequence

namespace Leodos
namespace Datalink

open Bits

abbrev Scid := BitVec 32

abbrev Vcid := BitVec 32

def numBits (id : BitVec 32) : Nat := if id = 0 then 0 else id.toNat.log2 + 1

theorem numBits_le_iff {id : BitVec 32} {n : Nat} : numBits id ≤ n ↔ id.toNat < 2 ^ n := by
  rw [numBits]
  by_cases h : id = 0
  · rw [if_pos h, h]
    exact iff_of_true (Nat.zero_le n) (Nat.two_pow_pos n)
  · rw [if_neg h, Nat.succ_le_iff, Nat.log2_lt]
    intro hz
    exact h (BitVec.eq_of_toNat_eq hz)

theorem fits_of_numBits {w n : Nat} {id : BitVec 32} (h : numBits id ≤ n) :
    Fits (id.setWidth w) n := by
  apply fits_of_toNat_lt
  rw [BitVec.toNat_setWidth]
  exact Nat.lt_of_le_of_lt (Nat.mod_le ..) (numBits_le_iff.1 h)

end Datalink
end Leodos

/-
Frame buffers of the data link, `datalink/framing/mod.rs`.

Every writer lays packets one behind the other in its buffer and stamps the header last.
Every reader keeps the received octets and the bounds of the data field that its header
announces.  The formats differ in the values of `WriterFormat` and in the layout that the
reader computes.
-/

namespace Leodos
namespace Datalink

open Memory Spp

/-- How a call ends that returns no value. -/
inductive Fault (ε : Type) where
  | error (e : ε)
  | panic
  deriving DecidableEq, Repr

/-- The call ends with a value or with an error. -/
def Returns {ε α : Type} (result : Except (Fault ε) α) : Prop := result ≠ .error .panic

@[simp] theorem returns_ok {ε α : Type} (a : α) : Returns (.ok a : Except (Fault ε) α) :=
  fun h => by cases h

@[simp] theorem returns_error {ε α : Type} (e : ε) :
    Returns (.error (.error e) : Except (Fault ε) α) :=
  fun h => by cases h

@[simp] theorem not_returns_panic {ε α : Type} :
    ¬ Returns (.error .panic : Except (Fault ε) α) :=
  fun h => h rfl

theorem returns_error_iff {ε α : Type} {fault : Fault ε} :
    Returns (.error fault : Except (Fault ε) α) ↔ fault ≠ .panic :=
  ⟨fun h hp => h (congrArg Except.error hp), fun h hp => h (Except.error.inj hp)⟩

instance {ε α : Type} : (result : Except (Fault ε) α) → Decidable (Returns result)
  | .ok a => .isTrue (returns_ok a)
  | .error (.error e) => .isTrue (returns_error e)
  | .error .panic => .isFalse not_returns_panic

inductive PushError where
  | full
  | tooLarge
  deriving DecidableEq, Repr

/-! ## Writing -/

structure WriterFormat where
  Counters : Type
  BuildError : Type
  start : Counters
  advance : Counters → Counters
  /-- Octets in front of the data. -/
  dataOffset : Nat
  maxDataLen : Nat
  /-- Octets behind the data. -/
  trailerLen : Nat
  /-- Header fields, stamped on the octets of the frame, for that many octets of data.  The first
  number is the length of the whole buffer. -/
  stamp : Nat → Counters → Nat → Bytes → Except BuildError Bytes

structure FrameWriter (F : WriterFormat) where
  counters : F.Counters
  dataLen : Nat
  buf : Bytes

namespace FrameWriter

variable {F : WriterFormat}

def new (F : WriterFormat) (size : Nat) : FrameWriter F := ⟨F.start, 0, List.replicate size 0⟩

def isEmpty (w : FrameWriter F) : Bool := w.dataLen == 0

def remaining (w : FrameWriter F) : Nat := F.maxDataLen - w.dataLen

def push (w : FrameWriter F) (data : Bytes) : Except (Fault PushError) (FrameWriter F) :=
  if F.maxDataLen < data.length then .error (.error .tooLarge)
  else if w.remaining < data.length then .error (.error .full)
  else
    let off := F.dataOffset + w.dataLen
    if w.buf.length < off + data.length then .error .panic
    else .ok { w with buf := write w.buf off data, dataLen := w.dataLen + data.length }

def total (w : FrameWriter F) : Nat := F.dataOffset + w.dataLen + F.trailerLen

def finish (w : FrameWriter F) : Except (Fault F.BuildError) Bytes × FrameWriter F :=
  let next := { w with counters := F.advance w.counters }
  if w.buf.length < w.total then (.error .panic, next)
  else
    match F.stamp w.buf.length w.counters w.dataLen (w.buf.take w.total) with
    | .error e => (.error (.error e), next)
    | .ok frame => (.ok frame, { next with buf := write w.buf 0 frame, dataLen := 0 })

end FrameWriter

/-! ## Reading -/

structure ReaderFormat where
  ParseError : Type
  /-- First octet of the data field and first octet behind it. -/
  layout : Bytes → Except (Fault ParseError) (Nat × Nat)
  layout_le : ∀ {frame dataStart dataEnd}, layout frame = .ok (dataStart, dataEnd) →
    dataEnd ≤ frame.length

structure FrameReader where
  buf : Bytes
  dataStart : Nat
  dataEnd : Nat
  deriving DecidableEq

namespace FrameReader

def new (size : Nat) : FrameReader := ⟨List.replicate size 0, 0, 0⟩

def feed (r : FrameReader) (R : ReaderFormat) (len : Nat) :
    Except (Fault R.ParseError) Unit × FrameReader :=
  if r.buf.length < len then (.error .panic, r)
  else
    match R.layout (r.buf.take len) with
    | .error fault => (.error fault, r)
    | .ok (dataStart, dataEnd) =>
      (.ok (), { r with dataStart := dataStart, dataEnd := dataEnd })

/-- `none` when the bounds are not those of a slice. -/
def dataField (r : FrameReader) : Option Bytes :=
  if r.dataStart ≤ r.dataEnd ∧ r.dataEnd ≤ r.buf.length then
    some (slice r.buf r.dataStart (r.dataEnd - r.dataStart))
  else none

end FrameReader

/-! ## Formats that fit together -/

/-- What is stamped leaves the data alone, and the reader finds the data there. -/
def Agrees (F : WriterFormat) (R : ReaderFormat) : Prop :=
  ∀ bufLen counters n bytes, 0 < n → n ≤ F.maxDataLen →
    bytes.length = F.dataOffset + n + F.trailerLen →
    ∃ frame, F.stamp bufLen counters n bytes = .ok frame ∧ frame.length = bytes.length ∧
      slice frame F.dataOffset n = slice bytes F.dataOffset n ∧
      R.layout frame = .ok (F.dataOffset, F.dataOffset + n)

theorem agrees_of_header {F : WriterFormat} {R : ReaderFormat}
    (h : ∀ bufLen counters n bytes, n ≤ F.maxDataLen →
      bytes.length = F.dataOffset + n + F.trailerLen →
      ∃ header : Bytes, header.length = F.dataOffset ∧
        F.stamp bufLen counters n bytes = .ok (write bytes 0 header) ∧
        R.layout (header ++ bytes.drop F.dataOffset) = .ok (F.dataOffset, F.dataOffset + n)) :
    Agrees F R := by
  intro bufLen counters n bytes _ hmax hlen
  obtain ⟨header, hheader, hstamp, hlayout⟩ := h bufLen counters n bytes hmax hlen
  refine ⟨_, hstamp, write_length .., slice_write_of_disjoint (Or.inr (by omega)), ?_⟩
  rw [write_zero (by omega), hheader]
  exact hlayout

/-- A frame reader never panics on these octets. -/
def ReaderFormat.Safe (R : ReaderFormat) (frame : Bytes) : Prop :=
  match R.layout frame with
  | .error (.error _) => True
  | .error .panic => False
  | .ok (dataStart, dataEnd) => dataStart ≤ dataEnd

end Datalink
end Leodos
