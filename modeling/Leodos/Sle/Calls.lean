/-
Properly nested calls of the writer, and the reader's calls that match them.

Calls that all succeed put down one element after another, each with the length of its
content in front (`write_wire`).  The reader gets every value and every length back
unless a length is too large for its octets (`roundTrips_iff`): a sequence has two of
them and a string four.
-/
import Leodos.Bits.Emission
import Leodos.Sle.Octets

namespace Leodos
namespace Sle

open Emission Memory

/-! ## Calls -/

inductive Primitive where
  | bool (value : Bool)
  | integer (value : I64)
  | octetString (data : Bytes)
  | enum (value : I64)
  | null
  | bitString (data : Bytes)
  deriving DecidableEq, Repr

inductive Head where
  | sequence
  | context (tag : Fin 31) (constructed : Bool)
  deriving DecidableEq, Repr

/-- Properly nested calls: writes one after another, and between the begin of a head and
its end the calls of its content. -/
inductive Calls where
  | done
  | leaf (p : Primitive) (rest : Calls)
  | nest (head : Head) (inner rest : Calls)
  deriving DecidableEq, Repr

namespace Primitive

def write : Primitive → BerWriter → Result BerWriter
  | bool value, w => w.writeBool value
  | integer value, w => w.writeInteger value
  | octetString data, w => w.writeOctetString data
  | enum value, w => w.writeEnum value
  | null, w => w.writeNull
  | bitString data, w => w.writeBitString data

/-- The reader's call that matches.  A bit string has none of its own and is read as
tag, length and octets. -/
def read : Primitive → BerReader → Result (Primitive × BerReader)
  | bool _, r => do
      let (value, r) ← r.readBool
      return (bool value, r)
  | integer _, r => do
      let (value, r) ← r.readInteger
      return (integer value, r)
  | octetString _, r => do
      let (data, r) ← r.readOctetString
      return (octetString data, r)
  | enum _, r => do
      let (value, r) ← r.readEnum
      return (enum value, r)
  | null, r => do
      let r ← r.readNull
      return (null, r)
  | bitString _, r => do
      let (_, r) ← r.expect (BerReader.isUniversal Tags.bitString)
      let (len, r) ← r.readLength
      let (data, r) ← r.readRaw len
      return (bitString data.tail, r)

def tag : Primitive → Fin 31
  | bool _ => 1
  | integer _ => 2
  | octetString _ => 4
  | enum _ => 10
  | null => 5
  | bitString _ => 3

def content : Primitive → Bytes
  | bool value => [if value then 0xFF else 0x00]
  | integer value | enum value => encodeI64 value
  | octetString data => data
  | null => []
  | bitString data => 0 :: data

def tagOctet (p : Primitive) : UInt8 := encodeTag (.ofNat p.tag) .universal false

end Primitive

namespace Head

def begin : Head → BerWriter → Result (SeqStart × BerWriter)
  | sequence, w => w.beginSequence
  | context tag constructed, w => w.beginContext (.ofNat tag) constructed

def read : Head → BerReader → Result ((Head × Nat) × BerReader)
  | sequence, r => do
      let (len, r) ← r.readSequence
      return ((sequence, len), r)
  | context _ _, r => do
      let octet ← r.peekTag
      let ((tag, len), r) ← r.readContextTag
      return ((context (.ofNat 31 tag.toNat) octet.constructed, len), r)

def tagOctet : Head → UInt8
  | sequence => encodeTag Tags.sequence .universal true
  | context tag constructed => encodeTag (.ofNat tag) .context constructed

end Head

namespace Calls

def write : Calls → BerWriter → Result BerWriter
  | done, w => .ok w
  | leaf p rest, w => do
      let w ← p.write w
      rest.write w
  | nest head inner rest, w => do
      let (start, w) ← head.begin w
      let w ← inner.write w
      let w ← w.endSequence start
      rest.write w

/-- The matching calls of the reader, with the values that they return and whether every
declared length is the number of octets read inside. -/
def read : Calls → BerReader → Result ((Calls × Bool) × BerReader)
  | done, r => .ok ((done, true), r)
  | leaf p rest, r => do
      let (p, r) ← p.read r
      let ((rest, agree), r) ← rest.read r
      return ((leaf p rest, agree), r)
  | nest head inner rest, r => do
      let ((head, len), r) ← head.read r
      let start := r.pos
      let ((inner, agree), r) ← inner.read r
      let used := r.pos - start
      let ((rest, agree'), r) ← rest.read r
      return ((nest head inner rest, agree && agree' && len == used), r)

end Calls

/-! ## What is written -/

namespace BerWriter

variable {w w' : BerWriter}

theorem length_asBytes (w : BerWriter) : w.asBytes.length = w.pos := by
  rw [asBytes, List.length_take, Nat.min_eq_left w.pos_le]

theorem buf_eq (w : BerWriter) : w.buf = w.asBytes ++ w.buf.drop w.pos :=
  (List.take_append_drop w.pos w.buf).symm

theorem asBytes_writeBytes {data : Bytes} (h : w.writeBytes data = .ok w') :
    w'.asBytes = w.asBytes ++ data := by
  unfold writeBytes at h
  split at h
  · cases h
  next hroom =>
    obtain rfl := Except.ok.inj h
    have hle := w.pos_le
    unfold remaining at hroom
    show (Memory.write w.buf w.pos data).take (w.pos + data.length) = w.buf.take w.pos ++ data
    rw [Memory.write, List.take_of_length_le (show data.length ≤ w.buf.length - w.pos by omega)]
    refine List.take_left' ?_
    rw [List.length_append, List.length_take]
    omega

theorem asBytes_writeByte {b : UInt8} (h : w.writeByte b = .ok w') :
    w'.asBytes = w.asBytes ++ [b] := by
  unfold writeByte at h
  split at h
  · cases h
  next hroom =>
    obtain rfl := Except.ok.inj h
    have hle := w.pos_le
    unfold remaining at hroom
    show (w.buf.set w.pos b).take (w.pos + 1) = w.buf.take w.pos ++ [b]
    rw [List.take_add_one, List.take_set_of_le (Nat.le_refl _), List.getElem?_set_self (by omega)]
    rfl

theorem asBytes_writeLength {len : Nat} (h : w.writeLength len = .ok w') :
    w'.asBytes = w.asBytes ++ lengthOctets len := by
  unfold writeLength at h
  split at h
  · cases h
  next hroom =>
    obtain rfl := Except.ok.inj h
    have hle := w.pos_le
    show (w.buf.take w.pos ++ Memory.write (w.buf.drop w.pos) 0 (lengthOctets len)).take
      (w.pos + (lengthOctets len).length) = w.buf.take w.pos ++ lengthOctets len
    rw [Memory.write, List.take_zero, List.nil_append, Nat.sub_zero,
      List.take_of_length_le (Nat.le_of_not_lt hroom), ← List.append_assoc]
    refine List.take_left' ?_
    rw [List.length_append, List.length_take]
    omega

theorem reserve_ok {start : SeqStart} (h : w.reserve = .ok (start, w')) :
    start = ⟨w.pos, w.pos + 3⟩ ∧ ∃ a b c, w'.asBytes = w.asBytes ++ [a, b, c] := by
  unfold reserve at h
  split at h
  · cases h
  next hroom =>
    obtain ⟨rfl, rfl⟩ := Prod.mk.inj (Except.ok.inj h)
    have hle := w.pos_le
    unfold remaining at hroom
    refine ⟨rfl, ?_⟩
    have hlen : ((w.buf.drop w.pos).take 3).length = 3 := by
      rw [List.length_take, List.length_drop]
      omega
    match hoctets : (w.buf.drop w.pos).take 3, hlen with
    | [a, b, c], _ =>
      refine ⟨a, b, c, ?_⟩
      show w.buf.take (w.pos + 3) = w.buf.take w.pos ++ [a, b, c]
      rw [List.take_add, hoctets]

theorem write_at {α : Type} {x y c : List α} (h : c.length ≤ y.length) :
    Memory.write (x ++ y) x.length c = x ++ c ++ y.drop c.length := by
  rw [Memory.write, List.take_left, List.length_append, Nat.add_sub_cancel_left,
    List.take_of_length_le h, List.drop_append]
  simp

theorem slice_at {α : Type} (x c y : List α) : slice (x ++ (c ++ y)) x.length c.length = c := by
  rw [slice, List.drop_left, List.take_left]

theorem set_at {α : Type} (x y : List α) (a b : α) :
    (x ++ a :: y).set x.length b = x ++ b :: y := by
  rw [List.set_append_right x.length b (Nat.le_refl _), Nat.sub_self, List.set_cons_zero]

theorem copyWithin_content {α : Type} (x : List α) (left skipped content rest : List α) :
    ∃ rest', copyWithin (x ++ left ++ skipped ++ content ++ rest)
        (x ++ left ++ skipped).length content.length (x ++ left).length =
      x ++ left ++ content ++ rest' := by
  refine ⟨(skipped ++ (content ++ rest)).drop content.length, ?_⟩
  have hslice : slice (x ++ left ++ skipped ++ content ++ rest) (x ++ left ++ skipped).length
      content.length = content := by
    rw [List.append_assoc (x ++ left ++ skipped)]
    exact slice_at _ _ _
  rw [copyWithin, hslice, List.append_assoc, List.append_assoc (x ++ left)]
  refine write_at ?_
  rw [List.length_append, List.length_append]
  omega

theorem set_next {α : Type} (x y : List α) (a a' b b' : α) :
    ((x ++ a :: b :: y).set x.length a').set (x.length + 1) b' = x ++ a' :: b' :: y := by
  rw [set_at, List.set_append_right _ _ (Nat.le_add_right _ 1), Nat.add_sub_cancel_left,
    List.set_cons_succ, List.set_cons_zero]

theorem asBytes_endSequence {done content : Bytes} {a b c : UInt8} {start : SeqStart}
    (hw : w.asBytes = done ++ [a, b, c] ++ content)
    (hstart : start = ⟨done.length, done.length + 3⟩) (h : w.endSequence start = .ok w') :
    w'.asBytes = done ++ patchedLength content.length ++ content := by
  have hlen := w.length_asBytes
  obtain ⟨tail, hbuf⟩ : ∃ tail, w.buf = done ++ [a, b, c] ++ content ++ tail :=
    ⟨_, hw ▸ w.buf_eq⟩
  rw [hw] at hlen
  simp only [List.length_append, List.length_cons, List.length_nil] at hlen
  have hcontent : w.pos - (done.length + 3) = content.length := by omega
  have htake : ∀ octets rest : Bytes, (done ++ octets ++ content ++ rest).take
      (done.length + octets.length + content.length) = done ++ octets ++ content := by
    intro octets rest
    refine List.take_left' ?_
    rw [List.length_append, List.length_append]
  subst hstart
  unfold endSequence at h
  simp only [hcontent, hbuf] at h
  rw [if_neg (by omega)] at h
  unfold patchedLength
  by_cases hshort : content.length < 128
  · rw [if_pos hshort] at h ⊢
    obtain rfl := Except.ok.inj h
    obtain ⟨rest, hrest⟩ := copyWithin_content done [a] [b, c] content tail
    have hmoved : copyWithin (done ++ [a, b, c] ++ content ++ tail) (done.length + 3)
        content.length (done.length + 1) = done ++ a :: (content ++ rest) := by
      simpa using hrest
    refine Eq.trans ?_ (htake [.ofNat content.length] rest)
    simp only [asBytes, hmoved, set_at]
    congr 1
    · simp only [List.length_cons, List.length_nil]
      omega
    · simp
  rw [if_neg hshort] at h ⊢
  by_cases hone : content.length ≤ 0xFF
  · rw [if_pos hone] at h ⊢
    obtain rfl := Except.ok.inj h
    obtain ⟨rest, hrest⟩ := copyWithin_content done [a, b] [c] content tail
    have hmoved : copyWithin (done ++ [a, b, c] ++ content ++ tail) (done.length + 3)
        content.length (done.length + 2) = done ++ a :: b :: (content ++ rest) := by
      simpa using hrest
    refine Eq.trans ?_ (htake [0x81, .ofNat content.length] rest)
    simp only [asBytes, hmoved, set_next]
    congr 1
    · simp only [List.length_cons, List.length_nil]
      omega
    · simp
  · rw [if_neg hone] at h ⊢
    obtain rfl := Except.ok.inj h
    have hthree : done ++ [a, b, c] ++ content ++ tail =
        done ++ a :: b :: c :: (content ++ tail) := by simp
    refine Eq.trans ?_ (htake [0x82, .ofNat (content.length >>> 8), .ofNat content.length] tail)
    simp only [asBytes, hthree, set_next]
    congr 1
    · simp only [List.length_cons, List.length_nil]
      omega
    · rw [List.set_append_right _ _ (by omega), Nat.add_sub_cancel_left]
      simp

end BerWriter

def Primitive.wire (p : Primitive) : Bytes :=
  p.tagOctet :: (lengthOctets p.content.length ++ p.content)

def Calls.wire : Calls → Bytes
  | done => []
  | leaf p rest => p.wire ++ rest.wire
  | nest head inner rest =>
      head.tagOctet :: (patchedLength inner.wire.length ++ inner.wire) ++ rest.wire

section Writing

variable {w w' : BerWriter}

theorem Primitive.asBytes_write {p : Primitive} (h : p.write w = .ok w') :
    w'.asBytes = w.asBytes ++ p.wire := by
  have hbytes : ∀ {tag : UInt8} {content : Bytes},
      (do let w ← w.writeTag tag .universal false
          let w ← w.writeLength content.length
          w.writeBytes content) = .ok w' →
      w'.asBytes = w.asBytes ++ encodeTag tag .universal false ::
        (lengthOctets content.length ++ content) := by
    intro tag content h
    obtain ⟨w₁, h₁, h⟩ := bind_ok h
    obtain ⟨w₂, h₂, h₃⟩ := bind_ok h
    rw [BerWriter.asBytes_writeBytes h₃, BerWriter.asBytes_writeLength h₂,
      BerWriter.asBytes_writeByte h₁]
    simp
  cases p with
  | integer value => exact hbytes h
  | octetString data => exact hbytes h
  | enum value => exact hbytes h
  | bool value =>
    obtain ⟨w₁, h₁, h⟩ := bind_ok h
    obtain ⟨w₂, h₂, h₃⟩ := bind_ok h
    rw [BerWriter.asBytes_writeByte h₃, BerWriter.asBytes_writeLength h₂,
      BerWriter.asBytes_writeByte h₁]
    rw [List.append_assoc, List.append_assoc]
    rfl
  | null =>
    obtain ⟨w₁, h₁, h₂⟩ := bind_ok h
    rw [BerWriter.asBytes_writeLength h₂, BerWriter.asBytes_writeByte h₁]
    rw [List.append_assoc]
    rfl
  | bitString data =>
    obtain ⟨w₁, h₁, h⟩ := bind_ok h
    obtain ⟨w₂, h₂, h⟩ := bind_ok h
    obtain ⟨w₃, h₃, h₄⟩ := bind_ok h
    rw [BerWriter.asBytes_writeBytes h₄, BerWriter.asBytes_writeByte h₃,
      BerWriter.asBytes_writeLength h₂, BerWriter.asBytes_writeByte h₁]
    rw [List.append_assoc, List.append_assoc, List.append_assoc]
    rfl

theorem Head.begin_ok {head : Head} {start : SeqStart} (h : head.begin w = .ok (start, w')) :
    ∃ done a b c, done = w.asBytes ++ [head.tagOctet] ∧ w'.asBytes = done ++ [a, b, c] ∧
      start = ⟨done.length, done.length + 3⟩ := by
  have hbegin : ∀ {tag : UInt8} {cls : Class} {constructed : Bool},
      (do let w ← w.writeTag tag cls constructed
          w.reserve) = .ok (start, w') →
      ∃ done a b c, done = w.asBytes ++ [encodeTag tag cls constructed] ∧
        w'.asBytes = done ++ [a, b, c] ∧ start = ⟨done.length, done.length + 3⟩ := by
    intro tag cls constructed h
    obtain ⟨w₁, h₁, h₂⟩ := bind_ok h
    obtain ⟨hstart, a, b, c, hasBytes⟩ := BerWriter.reserve_ok h₂
    rw [← w₁.length_asBytes] at hstart
    rw [BerWriter.asBytes_writeByte h₁] at hstart hasBytes
    exact ⟨_, a, b, c, rfl, hasBytes, hstart⟩
  cases head with
  | sequence => exact hbegin h
  | context tag constructed => exact hbegin h

theorem Calls.asBytes_write {calls : Calls} (h : calls.write w = .ok w') :
    w'.asBytes = w.asBytes ++ calls.wire := by
  induction calls generalizing w w' with
  | done =>
    obtain rfl := Except.ok.inj h
    exact (List.append_nil _).symm
  | leaf p rest ih =>
    obtain ⟨w₁, h₁, h₂⟩ := bind_ok h
    rw [ih h₂, Primitive.asBytes_write h₁, List.append_assoc]
    rfl
  | nest head inner rest ihInner ihRest =>
    obtain ⟨⟨start, w₁⟩, h₁, h⟩ := bind_ok h
    obtain ⟨w₂, h₂, h⟩ := bind_ok h
    obtain ⟨w₃, h₃, h₄⟩ := bind_ok h
    obtain ⟨done, a, b, c, hdone, hw₁, hstart⟩ := Head.begin_ok h₁
    have hw₂ := ihInner h₂
    rw [hw₁] at hw₂
    rw [ihRest h₄, BerWriter.asBytes_endSequence hw₂ hstart h₃, hdone]
    simp [wire]

end Writing

/-! ## What is read -/

namespace BerReader

/-- The octets in front of the reader. -/
structure At (r : BerReader) (bytes : Bytes) : Prop where
  pos_le : r.pos ≤ r.buf.length
  drop_eq : r.buf.drop r.pos = bytes

def skip (r : BerReader) (n : Nat) : BerReader := { r with pos := r.pos + n }

theorem skip_skip (r : BerReader) (n m : Nat) : (r.skip n).skip m = r.skip (n + m) :=
  congrArg (BerReader.mk r.buf) (Nat.add_assoc _ _ _)

theorem at_new (bytes : Bytes) : (new bytes).At bytes := ⟨Nat.zero_le _, rfl⟩

variable {r : BerReader} {bytes rest : Bytes}

theorem At.skip (h : r.At (bytes ++ rest)) : (r.skip bytes.length).At rest := by
  have hlen := congrArg List.length h.drop_eq
  rw [List.length_drop, List.length_append] at hlen
  have hle := h.pos_le
  refine ⟨?_, ?_⟩
  · show r.pos + bytes.length ≤ r.buf.length
    omega
  · show r.buf.drop (r.pos + bytes.length) = rest
    rw [← List.drop_drop, h.drop_eq, List.drop_left]

theorem At.ahead (h : r.At bytes) : r.ahead = .ok bytes := by
  rw [BerReader.ahead, if_pos h.pos_le, h.drop_eq]

theorem At.remaining (h : r.At bytes) : r.remaining = .ok bytes.length := by
  have hlen := congrArg List.length h.drop_eq
  rw [List.length_drop] at hlen
  rw [BerReader.remaining, if_pos h.pos_le, hlen]

theorem At.peekTag {octet : UInt8} {tag : TagOctet} (h : r.At (octet :: rest))
    (htag : decodeTag (octet :: rest) = .ok (tag, 1)) : r.peekTag = .ok tag := by
  simp only [BerReader.peekTag, h.ahead, htag, ok_bind]
  rfl

theorem At.expect (wanted : TagOctet → Bool) {octet : UInt8} {tag : TagOctet}
    (h : r.At (octet :: rest)) (htag : decodeTag (octet :: rest) = .ok (tag, 1))
    (hwanted : wanted tag = true) : r.expect wanted = .ok (tag, r.skip 1) := by
  have hread : r.readTag = .ok (tag, r.skip 1) := by
    simp only [readTag, h.ahead, htag, ok_bind]
    rfl
  simp only [BerReader.expect, hread, ok_bind, hwanted, if_true]
  rfl

theorem At.readLength {len : Bytes} {n : Nat} (h : r.At (len ++ rest))
    (hlen : decodeLength (len ++ rest) = .ok (n, len.length)) :
    r.readLength = .ok (n, r.skip len.length) := by
  simp only [BerReader.readLength, h.ahead, hlen, ok_bind]
  rfl

theorem At.readRaw {data : Bytes} (h : r.At (data ++ rest)) :
    r.readRaw data.length = .ok (data, r.skip data.length) := by
  have hle : ¬ (data ++ rest).length < data.length := by
    rw [List.length_append]
    omega
  have hslice : slice r.buf r.pos data.length = data := by
    rw [slice, h.drop_eq, List.take_left]
  simp only [BerReader.readRaw, h.remaining, ok_bind, if_neg hle, hslice]
  rfl

end BerReader

section Reading

open BerReader

variable {r : BerReader} {rest : Bytes}

theorem Primitive.read_header (p : Primitive) (h : r.At (p.wire ++ rest)) :
    r.expect (isUniversal (.ofNat p.tag)) = .ok (⟨.ofNat p.tag, .universal, false⟩, r.skip 1) ∧
      (r.skip 1).At (lengthOctets p.content.length ++ (p.content ++ rest)) ∧
      (r.skip 1).readLength = .ok (p.content.length % 4294967296,
        r.skip (1 + (lengthOctets p.content.length).length)) ∧
      (r.skip (1 + (lengthOctets p.content.length).length)).At (p.content ++ rest) := by
  have htag := decodeTag_encodeTag p.tag .universal false
  have h' : r.At ([p.tagOctet] ++ (lengthOctets p.content.length ++ (p.content ++ rest))) := by
    have hwire : p.wire ++ rest =
        [p.tagOctet] ++ (lengthOctets p.content.length ++ (p.content ++ rest)) := by simp [wire]
    rw [hwire] at h
    exact h
  have h₁ : (r.skip 1).At (lengthOctets p.content.length ++ (p.content ++ rest)) := h'.skip
  have h₂ := h₁.skip
  have hlen := h₁.readLength (decodeLength_lengthOctets _ _)
  rw [skip_skip] at h₂ hlen
  exact ⟨h'.expect _ (htag _) (by simp [isUniversal]), h₁, hlen, h₂⟩

theorem Primitive.length_wire (p : Primitive) :
    p.wire.length = 1 + (lengthOctets p.content.length).length + p.content.length := by
  simp only [wire, List.length_cons, List.length_append]
  omega

theorem Primitive.read_number {tag : Fin 31} {value : I64} {p : Primitive}
    (htag : p.tag = tag) (hcontent : p.content = encodeI64 value) (h : r.At (p.wire ++ rest)) :
    r.readNumber (.ofNat tag) = .ok (value, r.skip p.wire.length) := by
  obtain ⟨hexpect, -, hlen, hat⟩ := p.read_header h
  obtain ⟨hpos, hle⟩ := length_encodeI64 value
  rw [hcontent] at hlen hat
  rw [Nat.mod_eq_of_lt (by omega)] at hlen
  rw [htag] at hexpect
  have hraw := hat.readRaw
  simp only [readNumber, hexpect, hlen, ok_bind]
  rw [if_neg (by omega), hraw]
  simp only [ok_bind, skip_skip, decodeI64_encodeI64, p.length_wire, hcontent]
  rfl

theorem Primitive.read_wire {p : Primitive} (hsmall : p.content.length < 4294967296)
    (h : r.At (p.wire ++ rest)) : p.read r = .ok (p, r.skip p.wire.length) := by
  obtain ⟨hexpect, -, hlen, hat⟩ := p.read_header h
  rw [Nat.mod_eq_of_lt hsmall] at hlen
  have hraw := hat.readRaw
  have hskip := p.length_wire
  rw [skip_skip] at hraw
  rw [← hskip] at hraw
  cases p with
  | bool value =>
    have hval : (r.skip (1 + (lengthOctets 1).length)).buf[
        (r.skip (1 + (lengthOctets 1).length)).pos]? = some (if value then 0xFF else 0x00) := by
      have hdrop := congrArg (fun l => l[0]?) hat.drop_eq
      rw [List.getElem?_drop, Nat.add_zero] at hdrop
      exact hdrop
    have hexpect' : r.expect (isUniversal Tags.boolean) = _ := hexpect
    have hlen' : (r.skip 1).readLength = .ok (1, r.skip (1 + (lengthOctets 1).length)) := hlen
    have hvalue : ((if value then 0xFF else 0x00 : UInt8) != 0) = value := by
      cases value <;> decide
    simp only [read, readBool, hexpect', hlen', ok_bind, ne_eq, not_true, if_false]
    rw [hval]
    show Except.ok (bool _, _) = _
    rw [hvalue]
    rfl
  | integer value =>
    have hnum : r.readInteger = .ok (value, _) :=
      @read_number r rest (integer value).tag value _ rfl rfl h
    simp only [read, hnum, ok_bind]
    rfl
  | octetString data =>
    have hexpect' : r.expect (isUniversal Tags.octetString) = _ := hexpect
    simp only [content] at hlen hraw
    simp only [read, readOctetString, hexpect', hlen, hraw, ok_bind]
    rfl
  | enum value =>
    have hnum : r.readEnum = .ok (value, _) :=
      @read_number r rest (enum value).tag value _ rfl rfl h
    simp only [read, hnum, ok_bind]
    rfl
  | null =>
    have hexpect' : r.expect (isUniversal Tags.null) = _ := hexpect
    simp only [content, List.length_nil] at hlen
    simp only [read, readNull, hexpect', hlen, ok_bind, ne_eq, not_true, if_false]
    rfl
  | bitString data =>
    have hexpect' : r.expect (isUniversal Tags.bitString) = _ := hexpect
    simp only [content] at hlen hraw
    simp only [read, hexpect', hlen, hraw, ok_bind]
    rfl

theorem Head.read_wire (head : Head) {n : Nat}
    (h : r.At (head.tagOctet :: (patchedLength n ++ rest))) :
    head.read r = .ok ((head, n % 65536), r.skip (1 + (patchedLength n).length)) ∧
      (r.skip (1 + (patchedLength n).length)).At rest := by
  have h₀ : r.At ([head.tagOctet] ++ (patchedLength n ++ rest)) := h
  have h₁ : (r.skip 1).At (patchedLength n ++ rest) := h₀.skip
  have hlen := h₁.readLength (decodeLength_patchedLength n rest)
  have h₂ := h₁.skip
  rw [skip_skip] at hlen h₂
  refine ⟨?_, h₂⟩
  cases head with
  | sequence =>
    have hexpect := h.expect (fun octet => isUniversal Tags.sequence octet && octet.constructed)
      (decodeTag_encodeTag 16 .universal true _) (by decide)
    simp only [read, readSequence, hexpect, hlen, ok_bind]
    rfl
  | context tag constructed =>
    have htag := decodeTag_encodeTag tag .context constructed (patchedLength n ++ rest)
    have hexpect := h.expect (fun octet => octet.cls == .context) htag rfl
    have hpeek := h.peekTag htag
    have hsame : Fin.ofNat 31 (UInt8.ofNat tag.val).toNat = tag := by
      have hlt := tag.isLt
      refine Fin.ext ?_
      rw [Fin.val_ofNat, UInt8.toNat_ofNat']
      omega
    simp only [read, readContextTag, hpeek, hexpect, hlen, ok_bind]
    show Except.ok ((context (Fin.ofNat 31 (UInt8.ofNat tag.val).toNat) constructed, _), _) = _
    rw [hsame]

theorem length_of_readRaw {r' : BerReader} {len : Nat} {data : Bytes}
    (h : r.readRaw len = .ok (data, r')) : data.length = len := by
  unfold readRaw at h
  obtain ⟨left, hleft, h⟩ := bind_ok h
  by_cases hlt : left < len
  · rw [if_pos hlt] at h
    cases h
  · rw [if_neg hlt] at h
    obtain ⟨rfl, -⟩ := Prod.mk.inj (Except.ok.inj h)
    unfold remaining at hleft
    split at hleft
    · obtain rfl := Except.ok.inj hleft
      exact slice_length (by omega)
    · cases hleft

theorem Primitive.small_of_read {p : Primitive} {r' : BerReader} (h : r.At (p.wire ++ rest))
    (hread : p.read r = .ok (p, r')) : p.content.length < 4294967296 := by
  obtain ⟨hexpect, -, hlen, -⟩ := p.read_header h
  cases p with
  | bool value => exact show 1 < 4294967296 by decide
  | integer value => exact Nat.lt_of_le_of_lt (length_encodeI64 value).2 (by decide)
  | enum value => exact Nat.lt_of_le_of_lt (length_encodeI64 value).2 (by decide)
  | null => exact show 0 < 4294967296 by decide
  | octetString data =>
    have hexpect' : r.expect (isUniversal Tags.octetString) = _ := hexpect
    simp only [read, readOctetString, hexpect', hlen, ok_bind] at hread
    obtain ⟨⟨data', r''⟩, hraw, hsame⟩ := bind_ok hread
    have hdata : data' = data := by
      injection (Prod.mk.inj (Except.ok.inj hsame)).1
    have hlength := length_of_readRaw hraw
    rw [hdata] at hlength
    have hmod := Nat.mod_lt (content (octetString data)).length (show 0 < 4294967296 by decide)
    rw [← hlength] at hmod
    exact hmod
  | bitString data =>
    have hexpect' : r.expect (isUniversal Tags.bitString) = _ := hexpect
    simp only [read, hexpect', hlen, ok_bind] at hread
    obtain ⟨⟨data', r''⟩, hraw, hsame⟩ := bind_ok hread
    have hdata : data'.tail = data := by
      injection (Prod.mk.inj (Except.ok.inj hsame)).1
    have hlength := length_of_readRaw hraw
    have htail := congrArg List.length hdata
    rw [List.length_tail, hlength] at htail
    simp only [content, List.length_cons] at htail ⊢
    omega

end Reading

/-! ## Round trips -/

namespace Calls

/-- Every length has room in its octets. -/
def Small : Calls → Prop
  | done => True
  | leaf p rest => p.content.length < 4294967296 ∧ rest.Small
  | nest _ inner rest => inner.wire.length ≤ 0xFFFF ∧ inner.Small ∧ rest.Small

instance decidableSmall : (calls : Calls) → Decidable calls.Small
  | done => inferInstanceAs (Decidable True)
  | leaf _ rest =>
      have := decidableSmall rest
      inferInstanceAs (Decidable (_ ∧ _))
  | nest _ inner rest =>
      have := decidableSmall inner
      have := decidableSmall rest
      inferInstanceAs (Decidable (_ ∧ _ ∧ _))

/-- No sequence is too long for the length that is left for it. -/
def SequencesFit : Calls → Prop
  | done => True
  | leaf _ rest => rest.SequencesFit
  | nest _ inner rest => inner.wire.length ≤ 0xFFFF ∧ inner.SequencesFit ∧ rest.SequencesFit

/-- The octets are a tree of elements of definite length, each length the number of
octets of its content. -/
inductive Tree : Calls → Bytes → Prop where
  | done : Tree .done []
  | leaf {p : Primitive} {rest : Calls} {len bytes : Bytes}
      (hlen : decodeLength len = .ok (p.content.length, len.length)) (hrest : Tree rest bytes) :
      Tree (.leaf p rest) (p.tagOctet :: (len ++ p.content) ++ bytes)
  | nest {head : Head} {inner rest : Calls} {len content bytes : Bytes}
      (hinner : Tree inner content) (hlen : decodeLength len = .ok (content.length, len.length))
      (hrest : Tree rest bytes) :
      Tree (.nest head inner rest) (head.tagOctet :: (len ++ content) ++ bytes)

/-- The octets are such a tree, the reader gets the same values from it, and no sequence
got through that is too long. -/
structure RoundTrips (calls : Calls) (bytes : Bytes) : Prop where
  tree : Tree calls bytes
  readBack : ∃ r, calls.read (.new bytes) = .ok ((calls, true), r) ∧ r.remaining = .ok 0
  fits : calls.SequencesFit

theorem Small.sequencesFit {calls : Calls} (h : calls.Small) : calls.SequencesFit := by
  induction calls with
  | done => trivial
  | leaf p rest ih => exact ih h.2
  | nest head inner rest ihInner ihRest => exact ⟨h.1, ihInner h.2.1, ihRest h.2.2⟩

theorem Small.tree {calls : Calls} (h : calls.Small) : Tree calls calls.wire := by
  induction calls with
  | done => exact .done
  | leaf p rest ih =>
    refine .leaf ?_ (ih h.2)
    have hlen := decodeLength_lengthOctets p.content.length []
    rw [List.append_nil, Nat.mod_eq_of_lt h.1] at hlen
    exact hlen
  | nest head inner rest ihInner ihRest =>
    refine .nest (ihInner h.2.1) ?_ (ihRest h.2.2)
    have hlen := decodeLength_patchedLength inner.wire.length []
    rw [List.append_nil, Nat.mod_eq_of_lt (Nat.lt_succ_of_le h.1)] at hlen
    exact hlen

open BerReader

theorem wire_nest_append (head : Head) (inner calls : Calls) (rest : Bytes) :
    (nest head inner calls).wire ++ rest = head.tagOctet ::
      (patchedLength inner.wire.length ++ (inner.wire ++ (calls.wire ++ rest))) := by
  simp [wire]

theorem Small.read_wire {calls : Calls} (h : calls.Small) {r : BerReader} {rest : Bytes}
    (hat : r.At (calls.wire ++ rest)) :
    calls.read r = .ok ((calls, true), r.skip calls.wire.length) := by
  induction calls generalizing r rest with
  | done => rfl
  | leaf p calls ih =>
    rw [wire, List.append_assoc] at hat
    have hp := Primitive.read_wire h.1 hat
    have hrest := ih h.2 hat.skip
    rw [skip_skip] at hrest
    simp only [read, hp, hrest, ok_bind, wire, List.length_append]
    rfl
  | nest head inner calls ihInner ihRest =>
    rw [wire_nest_append] at hat
    obtain ⟨hhead, hin⟩ := head.read_wire hat
    have hinner := ihInner h.2.1 hin
    have hrest := ihRest h.2.2 hin.skip
    have hlen : (nest head inner calls).wire.length =
        1 + (patchedLength inner.wire.length).length + inner.wire.length + calls.wire.length := by
      simp only [wire, List.length_append, List.length_cons]
      omega
    have hmod : inner.wire.length % 65536 = inner.wire.length :=
      Nat.mod_eq_of_lt (Nat.lt_succ_of_le h.1)
    rw [skip_skip] at hinner
    rw [skip_skip, skip_skip] at hrest
    have hused : (r.skip (1 + (patchedLength inner.wire.length).length + inner.wire.length)).pos -
        (r.skip (1 + (patchedLength inner.wire.length).length)).pos = inner.wire.length := by
      simp only [skip]
      omega
    simp only [read, hhead, hinner, hrest, ok_bind, hmod, hused, hlen, beq_self_eq_true,
      Bool.and_self]
    rfl

theorem small_of_read {calls : Calls} {r r' : BerReader} {rest : Bytes}
    (hat : r.At (calls.wire ++ rest)) (h : calls.read r = .ok ((calls, true), r')) :
    calls.Small := by
  induction calls generalizing r r' rest with
  | done => trivial
  | leaf p calls ih =>
    rw [wire, List.append_assoc] at hat
    obtain ⟨⟨p', r₁⟩, hp, h⟩ := bind_ok h
    obtain ⟨⟨⟨calls', agree⟩, r₂⟩, hcalls, h⟩ := bind_ok h
    obtain ⟨hsame, hr⟩ := Prod.mk.inj (Except.ok.inj h)
    obtain ⟨hleaf, hagree⟩ := Prod.mk.inj hsame
    simp only [leaf.injEq] at hleaf hagree hr
    obtain ⟨rfl, rfl⟩ := hleaf
    subst hagree
    have hsmall := Primitive.small_of_read hat hp
    rw [Primitive.read_wire hsmall hat] at hp
    obtain ⟨-, rfl⟩ := Prod.mk.inj (Except.ok.inj hp)
    exact ⟨hsmall, ih hat.skip hcalls⟩
  | nest head inner calls ihInner ihRest =>
    rw [wire_nest_append] at hat
    obtain ⟨hhead, hin⟩ := head.read_wire hat
    simp only [read, hhead, ok_bind] at h
    obtain ⟨⟨⟨inner', agree⟩, r₁⟩, hinner, h⟩ := bind_ok h
    obtain ⟨⟨⟨calls', agree'⟩, r₂⟩, hcalls, h⟩ := bind_ok h
    obtain ⟨hsame, hr⟩ := Prod.mk.inj (Except.ok.inj h)
    obtain ⟨hnest, hagree⟩ := Prod.mk.inj hsame
    simp only [nest.injEq, true_and] at hnest
    obtain ⟨rfl, rfl⟩ := hnest
    simp only [Bool.and_eq_true, beq_iff_eq] at hagree
    obtain ⟨⟨rfl, rfl⟩, hused⟩ := hagree
    have hsmall := ihInner hin hinner
    rw [hsmall.read_wire hin] at hinner
    obtain ⟨-, rfl⟩ := Prod.mk.inj (Except.ok.inj hinner)
    have hlength : inner'.wire.length % 65536 = inner'.wire.length := by
      simp only [skip] at hused
      omega
    exact ⟨by omega, hsmall, ihRest hin.skip hcalls⟩

theorem at_wire (calls : Calls) : (BerReader.new calls.wire).At (calls.wire ++ []) := by
  rw [List.append_nil]
  exact at_new calls.wire

theorem roundTrips_iff {calls : Calls} {buf : Bytes} {w : BerWriter}
    (h : calls.write (.new buf) = .ok w) : RoundTrips calls w.asBytes ↔ calls.Small := by
  have hbytes : w.asBytes = calls.wire := by
    rw [asBytes_write h]
    rfl
  rw [hbytes]
  constructor
  · intro hround
    obtain ⟨r, hread, -⟩ := hround.readBack
    exact small_of_read (at_wire calls) hread
  · intro hsmall
    have hat := at_wire calls
    exact ⟨hsmall.tree, ⟨_, hsmall.read_wire hat, hat.skip.remaining⟩, hsmall.sequencesFit⟩

end Calls

end Sle
end Leodos
