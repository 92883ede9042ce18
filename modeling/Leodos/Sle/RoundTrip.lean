/-
PDUs that are encoded and decoded again.

The encoder of a PDU makes properly nested calls of the writer; the decoder reads the
octets of these calls from front to back.  An identifier comes back with zeros beyond its
length, and the service type of a CLTU bind comes back as the one of the CLTU service.
-/
import Leodos.Sle.Calls
import Leodos.Sle.Pdu

namespace Leodos
namespace Sle

open Emission Calls

/-! ## The fields as they are read -/

namespace BerReader.At

variable {r : BerReader} {rest : Bytes}

theorem readOctetString {data : Bytes} (hsmall : data.length < 4294967296)
    (h : r.At ((Primitive.octetString data).wire ++ rest)) :
    ∃ r', r.readOctetString = .ok (data, r') ∧ r'.At rest := by
  have hread := Primitive.read_wire (p := .octetString data) hsmall h
  obtain ⟨⟨data', r'⟩, hdata, hsame⟩ := bind_ok hread
  obtain ⟨hp, hr⟩ := Prod.mk.inj (Except.ok.inj hsame)
  obtain rfl : data' = data := by injection hp
  subst hr
  exact ⟨_, hdata, h.skip⟩

theorem readInteger {value : I64} (h : r.At ((Primitive.integer value).wire ++ rest)) :
    ∃ r', r.readInteger = .ok (value, r') ∧ r'.At rest :=
  ⟨_, Primitive.read_number rfl rfl h, h.skip⟩

theorem readEnum {value : I64} (h : r.At ((Primitive.enum value).wire ++ rest)) :
    ∃ r', r.readEnum = .ok (value, r') ∧ r'.At rest :=
  ⟨_, Primitive.read_number rfl rfl h, h.skip⟩

theorem readNull (h : r.At (Primitive.null.wire ++ rest)) :
    ∃ r', r.readNull = .ok r' ∧ r'.At rest := by
  have hread := Primitive.read_wire (p := .null) (show 0 < 4294967296 by decide) h
  obtain ⟨r', hnull, hsame⟩ := bind_ok hread
  obtain ⟨-, hr⟩ := Prod.mk.inj (Except.ok.inj hsame)
  obtain rfl : r' = _ := hr
  exact ⟨_, hnull, h.skip⟩

theorem peekPrimitive {p : Primitive} (h : r.At (p.wire ++ rest)) :
    r.peekTag = .ok ⟨.ofNat p.tag, .universal, false⟩ :=
  peekTag h (decodeTag_encodeTag p.tag .universal false _)

variable {n : Nat}

theorem readSequence (h : r.At (Head.sequence.tagOctet :: (patchedLength n ++ rest))) :
    ∃ r', r.readSequence = .ok (n % 65536, r') ∧ r'.At rest := by
  obtain ⟨hread, hat⟩ := Head.read_wire .sequence h
  obtain ⟨⟨len, r'⟩, hseq, hsame⟩ := bind_ok hread
  obtain ⟨hlen, hr⟩ := Prod.mk.inj (Except.ok.inj hsame)
  obtain rfl : len = n % 65536 := (Prod.mk.inj hlen).2
  obtain rfl : r' = _ := hr
  exact ⟨_, hseq, hat⟩

theorem readContextTag {tag : Fin 31} {constructed : Bool}
    (h : r.At ((Head.context tag constructed).tagOctet :: (patchedLength n ++ rest))) :
    ∃ r', r.readContextTag = .ok ((.ofNat tag, n % 65536), r') ∧ r'.At rest := by
  have htag := decodeTag_encodeTag tag .context constructed (patchedLength n ++ rest)
  have hexpect := expect (fun octet => octet.cls == .context) h htag rfl
  have h₀ : r.At ([(Head.context tag constructed).tagOctet] ++ (patchedLength n ++ rest)) := h
  have h₁ : (r.skip 1).At (patchedLength n ++ rest) := h₀.skip
  have hlen := readLength h₁ (decodeLength_patchedLength n rest)
  refine ⟨_, ?_, h₁.skip⟩
  simp only [BerReader.readContextTag, hexpect, hlen, ok_bind]
  rfl

end BerReader.At

/-! ## Credentials and operations -/

def credentialsCalls : Option Credentials → Calls → Calls
  | none, rest => leaf .null rest
  | some cred, rest =>
      nest .sequence
        (leaf (.octetString cred.time) (leaf (.integer (cred.random.setWidth 64))
          (leaf (.octetString cred.hash) done))) rest

def operationCalls (op : Fin 31) (credentials : Option Credentials) (fields : Calls) : Calls :=
  nest (.context op true) (nest .sequence (credentialsCalls credentials fields) done) done

theorem write_credentialsCalls (credentials : Option Credentials) (rest : Calls) (w : BerWriter) :
    (credentialsCalls credentials rest).write w =
      (do let w ← writeCredentials credentials w
          rest.write w) := by
  cases credentials with
  | none => rfl
  | some cred =>
    simp only [credentialsCalls, Calls.write, writeCredentials, Primitive.write, Head.begin,
      bind_assoc]
    rfl

theorem bind_done (m : Result BerWriter) : (do let w ← m; Except.ok w) = m := bind_pure m

theorem encodeOperation_eq (op : Fin 31) (credentials : Option Credentials)
    {fields : BerWriter → Result BerWriter} {calls : Calls} (h : ∀ w, fields w = calls.write w)
    (buf : Bytes) :
    encodeOperation (.ofNat op) credentials fields buf =
      (operationCalls op credentials calls).write (.new buf) := by
  simp only [encodeOperation, operationCalls, Calls.write, write_credentialsCalls, h, Head.begin,
    bind_assoc, bind_done]

theorem asBytes_new {calls : Calls} {buf : Bytes} {w : BerWriter}
    (h : calls.write (.new buf) = .ok w) : w.asBytes = calls.wire := by
  rw [asBytes_write h]
  rfl

theorem readOperation_wire (op : Fin 31) (credentials : Option Credentials) (fields : Calls) :
    ∃ r, readOperation (.ofNat op) (operationCalls op credentials fields).wire = .ok r ∧
      r.At ((credentialsCalls credentials fields).wire ++ []) := by
  have hat := at_wire (operationCalls op credentials fields)
  simp only [operationCalls, wire, List.append_nil] at hat
  obtain ⟨r₁, htag, hat⟩ := hat.readContextTag
  obtain ⟨r₂, hseq, hat⟩ := hat.readSequence
  refine ⟨r₂, ?_, by rwa [List.append_nil]⟩
  simp only [readOperation, operationCalls, wire, List.append_nil, htag, hseq, ok_bind, ne_eq,
    not_true, if_false]
  rfl

/-- How a decoder takes the arrays of the credentials from octet strings. -/
def Takes (array : (n : Nat) → Bytes → Result (Octets n)) : Prop :=
  ∀ {n : Nat} (octets : Octets n), array n octets = .ok octets

theorem takes_exactly : Takes exactly := fun octets => dif_pos octets.2

theorem takes_atLeast : Takes atLeast := by
  intro n octets
  rw [atLeast, dif_pos (Nat.le_of_eq octets.2.symm)]
  exact congrArg Except.ok (Subtype.ext (List.take_of_length_le (Nat.le_of_eq octets.2)))

theorem setWidth_back {n : Nat} (h : n ≤ 64) (x : BitVec n) : (x.setWidth 64).setWidth n = x := by
  rw [BitVec.setWidth_setWidth_of_le _ h, BitVec.setWidth_eq]

theorem readCredentials_wire {array : (n : Nat) → Bytes → Result (Octets n)} (harray : Takes array)
    (credentials : Option Credentials) {fields : Calls} {r : BerReader} {rest : Bytes}
    (h : r.At ((credentialsCalls credentials fields).wire ++ rest)) :
    ∃ r', readCredentials array r = .ok (credentials, r') ∧ r'.At (fields.wire ++ rest) := by
  cases credentials with
  | none =>
    simp only [credentialsCalls, wire, List.append_assoc] at h
    have hpeek := h.peekPrimitive
    obtain ⟨r₁, hnull, hat⟩ := h.readNull
    refine ⟨r₁, ?_, hat⟩
    have hwanted : BerReader.isUniversal Tags.null ⟨.ofNat Primitive.null.tag, .universal, false⟩ =
        true := by decide
    simp only [readCredentials, hpeek, hnull, ok_bind, hwanted, if_true]
    rfl
  | some cred =>
    simp only [credentialsCalls, wire, List.append_assoc, List.cons_append, List.nil_append] at h
    have hpeek := BerReader.At.peekTag h (decodeTag_encodeTag 16 .universal true _)
    obtain ⟨r₁, hseq, hat⟩ := h.readSequence
    obtain ⟨r₂, htime, hat⟩ := hat.readOctetString (by rw [cred.time.2]; decide)
    obtain ⟨r₃, hrandom, hat⟩ := hat.readInteger
    obtain ⟨r₄, hhash, hat⟩ := hat.readOctetString (by rw [cred.hash.2]; decide)
    refine ⟨r₄, ?_, hat⟩
    have hwanted : BerReader.isUniversal Tags.null ⟨.ofNat (16 : Fin 31), .universal, true⟩ =
        false := by decide
    simp only [readCredentials, hpeek, hseq, htime, hrandom, hhash, ok_bind, hwanted,
      harray cred.time, harray cred.hash, setWidth_back (show 32 ≤ 64 by decide)]
    rfl

def timePrimitive : Option Time → Primitive
  | none => .null
  | some t => .octetString t.cds

theorem writeTime_eq (time : Option Time) (w : BerWriter) :
    writeTime time w = (timePrimitive time).write w := by
  cases time <;> rfl

theorem Time.decode_cds (t : Time) : Time.decode t.cds = .ok t := by
  rw [Time.decode, dif_neg (by rw [t.cds.2]; decide)]
  have htake : t.cds.val.take Time.size = t.cds.val :=
    List.take_of_length_le (Nat.le_of_eq t.cds.2)
  exact congrArg (fun cds => Except.ok (Time.mk cds)) (Subtype.ext htake)

theorem readTime_wire (time : Option Time) {r : BerReader} {rest : Bytes}
    (h : r.At ((timePrimitive time).wire ++ rest)) :
    ∃ r', readTime r = .ok (time, r') ∧ r'.At rest := by
  have hpeek := h.peekPrimitive
  cases time with
  | none =>
    obtain ⟨r₁, hnull, hat⟩ := h.readNull
    have hwanted : UInt8.ofNat (timePrimitive none).tag = Tags.null := by decide
    refine ⟨r₁, ?_, hat⟩
    simp only [readTime, hpeek, hnull, ok_bind, hwanted, if_true]
    rfl
  | some t =>
    obtain ⟨r₁, htime, hat⟩ := h.readOctetString (by rw [t.cds.2]; decide)
    have hwanted : UInt8.ofNat (timePrimitive (some t)).tag ≠ Tags.null :=
      show UInt8.ofNat (4 : Fin 31) ≠ Tags.null by decide
    refine ⟨r₁, ?_, hat⟩
    simp only [readTime, hpeek, htime, ok_bind, hwanted, if_false, Time.decode_cds]
    rfl

theorem ServiceType.fromU8_toI64 (s : ServiceType) : fromU8 (s.toI64.setWidth 8) = .ok s := by
  cases s <;> rfl

theorem BindResult.fromU8_toI64 (b : BindResult) : fromU8 (b.toI64.setWidth 8) = .ok b := by
  cases b <;> rfl

theorem RequestedFrameQuality.fromI64_toI64 (q : RequestedFrameQuality) :
    fromI64 q.toI64 = .ok q := by
  cases q <;> rfl

theorem CltuStatus.fromI64_toI64 (s : CltuStatus) : fromI64 s.toI64 = .ok s := by
  cases s <;> rfl

/-! ## The PDUs without identifiers -/

variable {buf : Bytes} {w : BerWriter}

theorem operation_read (op : Fin 31) {credentials : Option Credentials}
    {array : (n : Nat) → Bytes → Result (Octets n)} {fields : BerWriter → Result BerWriter}
    (h : encodeOperation (.ofNat op) credentials fields buf = .ok w) (harray : Takes array)
    (calls : Calls) (hcalls : ∀ w, fields w = calls.write w) :
    ∃ r₁ r₂, readOperation (.ofNat op) w.asBytes = .ok r₁ ∧
      readCredentials array r₁ = .ok (credentials, r₂) ∧ r₂.At (calls.wire ++ []) := by
  rw [encodeOperation_eq op credentials hcalls] at h
  rw [asBytes_new h]
  obtain ⟨r₁, hop, hat⟩ := readOperation_wire op credentials calls
  obtain ⟨r₂, hcred, hat⟩ := readCredentials_wire harray credentials hat
  exact ⟨r₁, r₂, hop, hcred, hat⟩

theorem RafBindReturn.decode_encode {p : RafBindReturn} (h : p.encode buf = .ok w) :
    RafBindReturn.decode w.asBytes = .ok p := by
  obtain ⟨r₁, r₂, hop, hcred, hat⟩ := operation_read 1 h takes_atLeast
    (leaf (.enum p.result.toI64) done) (fun w => (bind_done _).symm)
  simp only [wire, List.append_assoc] at hat
  obtain ⟨r₃, hresult, -⟩ := hat.readEnum
  have hop' : readOperation RafOp.bindReturn _ = .ok r₁ := hop
  simp only [decode, hop', hcred, hresult, ok_bind, BindResult.fromU8_toI64]
  rfl

theorem RafStartInvocation.decode_encode {p : RafStartInvocation} (h : p.encode buf = .ok w) :
    RafStartInvocation.decode w.asBytes = .ok p := by
  obtain ⟨r₁, r₂, hop, hcred, hat⟩ := operation_read 4 h takes_atLeast
    (leaf (timePrimitive p.startTime)
      (leaf (timePrimitive p.stopTime) (leaf (.enum p.quality.toI64) done)))
    (fun w => by simp only [Calls.write, writeTime_eq, bind_done]; rfl)
  simp only [wire, List.append_assoc] at hat
  obtain ⟨r₃, hstart, hat⟩ := readTime_wire _ hat
  obtain ⟨r₄, hstop, hat⟩ := readTime_wire _ hat
  obtain ⟨r₅, hquality, -⟩ := hat.readEnum
  have hop' : readOperation RafOp.start _ = .ok r₁ := hop
  simp only [decode, hop', hcred, hstart, hstop, hquality, ok_bind,
    RequestedFrameQuality.fromI64_toI64]
  rfl

theorem CltuStartInvocation.decode_encode {p : CltuStartInvocation} (h : p.encode buf = .ok w) :
    CltuStartInvocation.decode w.asBytes = .ok p := by
  obtain ⟨r₁, r₂, hop, hcred, hat⟩ := operation_read 4 h takes_atLeast
    (leaf (.integer (p.invokeId.setWidth 64)) (leaf (.integer (p.firstCltuId.setWidth 64)) done))
    (fun w => by simp only [Calls.write, bind_done, Primitive.write])
  simp only [wire, List.append_assoc] at hat
  obtain ⟨r₃, hinvoke, hat⟩ := hat.readInteger
  obtain ⟨r₄, hfirst, -⟩ := hat.readInteger
  have hop' : readOperation CltuOp.start _ = .ok r₁ := hop
  simp only [decode, hop', hcred, hinvoke, hfirst, ok_bind, setWidth_back (show 16 ≤ 64 by decide),
    setWidth_back (show 32 ≤ 64 by decide)]
  rfl

theorem CltuTransferDataInvocation.decode_encode {p : CltuTransferDataInvocation}
    (h : p.encode buf = .ok w) : CltuTransferDataInvocation.decode w.asBytes = .ok p := by
  obtain ⟨r₁, r₂, hop, hcred, hat⟩ := operation_read 8 h takes_atLeast
    (leaf (.integer (p.cltuId.setWidth 64)) (leaf (.octetString p.data) done))
    (fun w => by simp only [Calls.write, bind_done, Primitive.write])
  simp only [wire, List.append_assoc] at hat
  obtain ⟨r₃, hid, hat⟩ := hat.readInteger
  obtain ⟨r₄, hdata, -⟩ := hat.readOctetString (Nat.lt_of_le_of_lt p.data_le (by decide))
  have hop' : readOperation CltuOp.transferData _ = .ok r₁ := hop
  simp only [decode, hop', hcred, hid, hdata, ok_bind, setWidth_back (show 32 ≤ 64 by decide)]
  exact dif_pos p.data_le

theorem CltuTransferDataReturn.decode_encode {p : CltuTransferDataReturn}
    (h : p.encode buf = .ok w) : CltuTransferDataReturn.decode w.asBytes = .ok p := by
  obtain ⟨r₁, r₂, hop, hcred, hat⟩ := operation_read 9 h takes_atLeast
    (leaf (.integer (p.cltuId.setWidth 64)) (leaf (.enum p.status.toI64) done))
    (fun w => by simp only [Calls.write, bind_done, Primitive.write])
  simp only [wire, List.append_assoc] at hat
  obtain ⟨r₃, hid, hat⟩ := hat.readInteger
  obtain ⟨r₄, hstatus, -⟩ := hat.readEnum
  have hop' : readOperation CltuOp.transferDataReturn _ = .ok r₁ := hop
  simp only [decode, hop', hcred, hid, hstatus, ok_bind, setWidth_back (show 32 ≤ 64 by decide),
    CltuStatus.fromI64_toI64]
  rfl

theorem signExtend_back (x : BitVec 16) : (x.signExtend 64).setWidth 16 = x := by
  refine BitVec.eq_of_getLsbD_eq ?_
  intro i hi
  have hlow : i < 64 := by omega
  simp only [BitVec.getLsbD_setWidth, BitVec.getLsbD_signExtend, hi, hlow, decide_true,
    Bool.true_and, if_true]

theorem RafTransferDataInvocation.decode_encode {p : RafTransferDataInvocation}
    (h : p.encode buf = .ok w) : RafTransferDataInvocation.decode w.asBytes = .ok p := by
  let fields := leaf (.octetString p.earthReceiveTime.cds)
    (leaf (.integer (p.dataLinkContinuity.signExtend 64)) (leaf (.octetString p.frame) done))
  have heq : p.encode buf = (nest .sequence fields done).write (.new buf) := by
    simp only [encode, fields, Calls.write, Primitive.write, Head.begin, bind_assoc, bind_done]
  rw [asBytes_new (heq.symm.trans h)]
  have hat := at_wire (nest .sequence fields done)
  have hwire : (nest .sequence fields done).wire ++ [] =
      Head.sequence.tagOctet :: (patchedLength fields.wire.length ++ fields.wire) := by
    simp only [wire, List.append_nil]
  have hfields : fields.wire = (Primitive.octetString p.earthReceiveTime.cds).wire ++
      ((Primitive.integer (p.dataLinkContinuity.signExtend 64)).wire ++
        ((Primitive.octetString p.frame).wire ++ [])) := rfl
  rw [hwire] at hat
  obtain ⟨r₁, hseq, hat⟩ := hat.readSequence
  rw [hfields] at hat
  obtain ⟨r₂, htime, hat⟩ := hat.readOctetString (by rw [p.earthReceiveTime.cds.2]; decide)
  obtain ⟨r₃, hcontinuity, hat⟩ := hat.readInteger
  obtain ⟨r₄, hframe, -⟩ := hat.readOctetString (Nat.lt_of_le_of_lt p.frame_le (by decide))
  simp only [decode, hseq, htime, hcontinuity, hframe, ok_bind, Time.decode_cds, signExtend_back]
  exact dif_pos p.frame_le

/-! ## Bind -/

/-- The identifier is zero beyond its length. -/
def Padded (id : Octets 64) (len : Nat) : Prop := ∀ b ∈ id.val.drop len, b = 0

instance (id : Octets 64) (len : Nat) : Decidable (Padded id len) :=
  inferInstanceAs (Decidable (∀ b ∈ id.val.drop len, b = 0))

def bindFields (initiator responder : Bytes) (service : ServiceType) (version : BitVec 16) :
    Calls :=
  leaf (.octetString initiator) (leaf (.octetString responder)
    (leaf (.enum service.toI64) (leaf (.integer (version.setWidth 64)) done)))

theorem idBytes_ok {id : Octets 64} {len : Nat} {bytes : Bytes} (h : idBytes id len = .ok bytes) :
    len ≤ maxIdLen := by
  unfold idBytes at h
  split at h
  next hle => exact hle
  · cases h

theorem length_take_id {id : Octets 64} {len : Nat} (h : len ≤ maxIdLen) :
    (id.val.take len).length = len := by
  refine List.length_take_of_le ?_
  rw [id.2]
  exact h

theorem take_id_le (id : Octets 64) (len : Nat) : (id.val.take len).length ≤ maxIdLen := by
  rw [List.length_take, id.2]
  exact Nat.min_le_right _ _

theorem padId_take {id : Octets 64} {len : Nat} (hle : len ≤ maxIdLen) :
    padId (id.val.take len) (take_id_le id len) = id ↔ Padded id len := by
  have hsplit : id.val = id.val.take len ++ id.val.drop len := (List.take_append_drop _ _).symm
  have hlen : (id.val.drop len).length = maxIdLen - len := by
    rw [List.length_drop, id.2]
    rfl
  have hval : padId (id.val.take len) (take_id_le id len) = id ↔
      id.val.take len ++ List.replicate (maxIdLen - len) 0 = id.val := by
    rw [Subtype.ext_iff]
    show id.val.take len ++ List.replicate (maxIdLen - (id.val.take len).length) 0 = id.val ↔ _
    rw [length_take_id hle]
  rw [hval]
  constructor
  · intro hpad b hb
    have hdrop := List.append_cancel_left (hpad.trans hsplit)
    rw [← hdrop] at hb
    exact List.eq_of_mem_replicate hb
  · intro hzero
    have hdrop : id.val.drop len = List.replicate (maxIdLen - len) 0 := by
      exact List.eq_replicate_iff.2 ⟨hlen, hzero⟩
    rw [← hdrop]
    exact hsplit.symm

/-- The two identifiers have room in their arrays when the encoder of a bind succeeds, and
the decoder stands in front of them when it has the credentials. -/
theorem bind_read {id₁ id₂ : Octets 64} {len₁ len₂ : Nat} {service : ServiceType}
    {version : BitVec 16} {credentials : Option Credentials}
    {array : (n : Nat) → Bytes → Result (Octets n)}
    (h : encodeOperation 0 credentials (fun w => do
      let w ← w.writeOctetString (← idBytes id₁ len₁)
      let w ← w.writeOctetString (← idBytes id₂ len₂)
      let w ← w.writeEnum service.toI64
      w.writeInteger (version.setWidth 64)) buf = .ok w) (harray : Takes array) :
    len₁ ≤ maxIdLen ∧ len₂ ≤ maxIdLen ∧
      ∃ r₁ r₂, readOperation 0 w.asBytes = .ok r₁ ∧
        readCredentials array r₁ = .ok (credentials, r₂) ∧
        r₂.At
          ((bindFields (id₁.val.take len₁) (id₂.val.take len₂) service version).wire ++ []) := by
  obtain ⟨hle₁, hle₂⟩ : len₁ ≤ maxIdLen ∧ len₂ ≤ maxIdLen := by
    obtain ⟨_, -, hfields⟩ := bind_ok h
    obtain ⟨_, -, hfields⟩ := bind_ok hfields
    obtain ⟨_, -, hfields⟩ := bind_ok hfields
    obtain ⟨_, hfields, -⟩ := bind_ok hfields
    obtain ⟨bytes₁, hid₁, hfields⟩ := bind_ok hfields
    obtain ⟨_, -, hfields⟩ := bind_ok hfields
    obtain ⟨bytes₂, hid₂, -⟩ := bind_ok hfields
    exact ⟨idBytes_ok hid₁, idBytes_ok hid₂⟩
  refine ⟨hle₁, hle₂, operation_read 0 h harray _ ?_⟩
  intro w
  simp only [idBytes, if_pos hle₁, if_pos hle₂, bindFields, Calls.write, Primitive.write, ok_bind,
    bind_done]

theorem bindFields_read {id₁ id₂ : Octets 64} {len₁ len₂ : Nat} {service : ServiceType}
    {version : BitVec 16} {r : BerReader}
    (h : r.At ((bindFields (id₁.val.take len₁) (id₂.val.take len₂) service version).wire ++ [])) :
    ∃ r₁ r₂ r₃ r₄, r.readOctetString = .ok (id₁.val.take len₁, r₁) ∧
      r₁.readOctetString = .ok (id₂.val.take len₂, r₂) ∧ r₂.readEnum = .ok (service.toI64, r₃) ∧
      r₃.readInteger = .ok (version.setWidth 64, r₄) := by
  have hsmall : ∀ (id : Octets 64) (len : Nat), (id.val.take len).length < 4294967296 :=
    fun id len => Nat.lt_of_le_of_lt (take_id_le id len) (by decide)
  simp only [bindFields, wire, List.append_assoc] at h
  obtain ⟨r₁, h₁, hat⟩ := h.readOctetString (hsmall _ _)
  obtain ⟨r₂, h₂, hat⟩ := hat.readOctetString (hsmall _ _)
  obtain ⟨r₃, h₃, hat⟩ := hat.readEnum
  obtain ⟨r₄, h₄, -⟩ := hat.readInteger
  exact ⟨r₁, r₂, r₃, r₄, h₁, h₂, h₃, h₄⟩

theorem RafBindInvocation.decode_encode {p : RafBindInvocation} (h : p.encode buf = .ok w) :
    RafBindInvocation.decode w.asBytes = .ok p ↔
      Padded p.initiatorId p.initiatorIdLen ∧ Padded p.responderId p.responderIdLen := by
  obtain ⟨hle₁, hle₂, r₁, r₂, hop, hcred, hat⟩ := bind_read h takes_exactly
  obtain ⟨r₃, r₄, r₅, r₆, hinitiator, hresponder, hservice, hversion⟩ := bindFields_read hat
  have hop' : readOperation RafOp.bind _ = .ok r₁ := hop
  have hlen₁ : (p.initiatorId.val.take p.initiatorIdLen).length = _ := length_take_id hle₁
  have hlen₂ : (p.responderId.val.take p.responderIdLen).length = _ := length_take_id hle₂
  simp only [decode, hop', hcred, hinitiator, hresponder, hservice, hversion, ok_bind,
    ServiceType.fromU8_toI64, setWidth_back (show 16 ≤ 64 by decide)]
  rw [new, dif_pos ⟨take_id_le _ _, take_id_le _ _⟩, ← padId_take hle₁, ← padId_take hle₂]
  cases p
  simp only [Except.ok.injEq, mk.injEq, hlen₁, hlen₂, and_true, true_and]

theorem CltuBindInvocation.decode_encode {p : CltuBindInvocation} (h : p.encode buf = .ok w) :
    CltuBindInvocation.decode w.asBytes = .ok p ↔
      Padded p.initiatorId p.initiatorIdLen ∧ Padded p.responderId p.responderIdLen ∧
        p.serviceType = .fCltu := by
  obtain ⟨hle₁, hle₂, r₁, r₂, hop, hcred, hat⟩ := bind_read h takes_atLeast
  obtain ⟨r₃, r₄, r₅, r₆, hinitiator, hresponder, hservice, hversion⟩ := bindFields_read hat
  have hop' : readOperation CltuOp.bind _ = .ok r₁ := hop
  have hlen₁ : (p.initiatorId.val.take p.initiatorIdLen).length = _ := length_take_id hle₁
  have hlen₂ : (p.responderId.val.take p.responderIdLen).length = _ := length_take_id hle₂
  simp only [decode, hop', hcred, hinitiator, hresponder, hservice, hversion, ok_bind,
    ServiceType.fromU8_toI64, setWidth_back (show 16 ≤ 64 by decide)]
  rw [new, dif_pos ⟨take_id_le _ _, take_id_le _ _⟩, ← padId_take hle₁, ← padId_take hle₂]
  cases p
  simp only [Except.ok.injEq, mk.injEq, hlen₁, hlen₂, and_true, true_and]
  exact and_congr_right fun _ => and_congr_right fun _ => eq_comm

/-! ## Room for the calls -/

/-- The operation succeeds and takes at most `n` octets of what is left. -/
def Fits (w : BerWriter) (m : Result BerWriter) (n : Nat) : Prop :=
  ∃ w', m = .ok w' ∧ w.remaining ≤ w'.remaining + n

theorem Fits.bind {m : Result BerWriter} {f : BerWriter → Result BerWriter} {n k : Nat}
    (hm : Fits w m n) (hroom : n + k ≤ w.remaining)
    (hf : ∀ w', m = .ok w' → k ≤ w'.remaining → Fits w' (f w') k) : Fits w (m >>= f) (n + k) := by
  obtain ⟨w₁, h₁, hleft₁⟩ := hm
  obtain ⟨w₂, h₂, hleft₂⟩ := hf w₁ h₁ (by omega)
  refine ⟨w₂, ?_, by omega⟩
  rw [h₁]
  exact h₂

theorem fits_writeByte (b : UInt8) (h : 1 ≤ w.remaining) : Fits w (w.writeByte b) 1 := by
  rw [BerWriter.writeByte, dif_neg (by omega)]
  refine ⟨_, rfl, ?_⟩
  simp only [BerWriter.remaining, List.length_set] at h ⊢
  omega

theorem fits_writeBytes (data : Bytes) (h : data.length ≤ w.remaining) :
    Fits w (w.writeBytes data) data.length := by
  rw [BerWriter.writeBytes, dif_neg (by omega)]
  refine ⟨_, rfl, ?_⟩
  simp only [BerWriter.remaining, Memory.write_length] at h ⊢
  omega

theorem fits_writeLength (len : Nat) (h : (lengthOctets len).length ≤ w.remaining) :
    Fits w (w.writeLength len) (lengthOctets len).length := by
  have hroom : ¬ (w.buf.drop w.pos).length < (lengthOctets len).length := by
    rw [List.length_drop]
    exact Nat.not_lt.2 h
  have hle := w.pos_le
  rw [BerWriter.writeLength, dif_neg hroom]
  refine ⟨_, rfl, ?_⟩
  simp only [BerWriter.remaining, List.length_append, Memory.write_length, List.length_take,
    List.length_drop] at h ⊢
  omega

theorem fits_begin (head : Head) (h : 4 ≤ w.remaining) :
    ∃ start w', head.begin w = .ok (start, w') ∧ w.remaining ≤ w'.remaining + 4 := by
  have hbegin : ∀ (tag : UInt8) (cls : Class) (constructed : Bool), ∃ start w',
      (do let w ← w.writeTag tag cls constructed
          w.reserve) = .ok (start, w') ∧ w.remaining ≤ w'.remaining + 4 := by
    intro tag cls constructed
    obtain ⟨w₁, h₁, hleft⟩ := fits_writeByte (encodeTag tag cls constructed)
      (Nat.le_trans (by decide) h)
    have h₁' : w.writeTag tag cls constructed = .ok w₁ := h₁
    refine ⟨⟨w₁.pos, w₁.pos + 3⟩, ?_⟩
    simp only [h₁', ok_bind]
    rw [BerWriter.reserve, dif_neg (by omega)]
    refine ⟨_, rfl, ?_⟩
    simp only [BerWriter.remaining] at h hleft ⊢
    omega
  cases head with
  | sequence => exact hbegin _ _ _
  | context tag constructed => exact hbegin _ _ _

theorem fits_endSequence {start : SeqStart} (h : start.contentStart ≤ w.pos) :
    Fits w (w.endSequence start) 0 := by
  unfold BerWriter.endSequence
  rw [if_neg (by omega)]
  simp only
  split
  · refine ⟨_, rfl, ?_⟩
    simp only [BerWriter.remaining, List.length_set, Memory.copyWithin_length]
    omega
  · split
    · refine ⟨_, rfl, ?_⟩
      simp only [BerWriter.remaining, List.length_set, Memory.copyWithin_length]
      omega
    · refine ⟨_, rfl, ?_⟩
      simp only [BerWriter.remaining, List.length_set]
      omega

theorem fits_primitive (p : Primitive) (h : p.wire.length ≤ w.remaining) :
    Fits w (p.write w) p.wire.length := by
  have hbytes : ∀ (tag : UInt8) (content : Bytes),
      1 + ((lengthOctets content.length).length + content.length) ≤ w.remaining →
      Fits w (do let w ← w.writeTag tag .universal false
                 let w ← w.writeLength content.length
                 w.writeBytes content)
        (1 + ((lengthOctets content.length).length + content.length)) := by
    intro tag content h
    refine (fits_writeByte _ (by omega)).bind h fun w₁ _ h₁ => ?_
    refine (fits_writeLength _ (by omega)).bind h₁ fun w₂ _ h₂ => ?_
    exact fits_writeBytes _ h₂
  rw [p.length_wire, Nat.add_assoc] at h ⊢
  cases p with
  | integer value => exact hbytes Tags.integer _ h
  | octetString data => exact hbytes Tags.octetString _ h
  | enum value => exact hbytes Tags.enumerated _ h
  | bool value =>
    refine (fits_writeByte _ (by omega)).bind h fun w₁ _ h₁ => ?_
    have hlen : (lengthOctets 1).length + 1 ≤ w₁.remaining := h₁
    refine (fits_writeLength 1 (by omega)).bind h₁ fun w₂ _ h₂ => ?_
    exact fits_writeByte _ h₂
  | null =>
    refine (fits_writeByte _ (by omega)).bind h fun w₁ _ h₁ => ?_
    exact fits_writeLength _ h₁
  | bitString data =>
    have hlen : (lengthOctets (data.length + 1)).length + (data.length + 1) =
      (lengthOctets (data.length + 1)).length + (1 + data.length) := by omega
    simp only [Primitive.content, List.length_cons, hlen] at h ⊢
    refine (fits_writeByte _ (by omega)).bind h fun w₁ _ h₁ => ?_
    refine (fits_writeLength _ (by omega)).bind h₁ fun w₂ _ h₂ => ?_
    refine (fits_writeByte _ (by omega)).bind h₂ fun w₃ _ h₃ => ?_
    exact fits_writeBytes _ h₃

/-- Room for every call, with three octets for the length of each sequence. -/
def Calls.room : Calls → Nat
  | done => 0
  | leaf p rest => p.wire.length + rest.room
  | nest _ inner rest => 4 + inner.room + rest.room

theorem fits_calls {calls : Calls} {w : BerWriter} (h : calls.room ≤ w.remaining) :
    Fits w (calls.write w) calls.room := by
  induction calls generalizing w with
  | done => exact ⟨w, rfl, Nat.le_refl _⟩
  | leaf p rest ih =>
    have hp : p.wire.length ≤ w.remaining := Nat.le_trans (Nat.le_add_right _ _) h
    exact (fits_primitive p hp).bind h fun w₁ _ h₁ => ih h₁
  | nest head inner rest ihInner ihRest =>
    have hroom : 4 + inner.room + rest.room ≤ w.remaining := h
    obtain ⟨start, w₁, h₁, hleft₁⟩ := fits_begin head (show 4 ≤ w.remaining by omega)
    obtain ⟨w₂, h₂, hleft₂⟩ := ihInner (show inner.room ≤ w₁.remaining by omega)
    obtain ⟨done, a, b, c, -, hw₁, hstart⟩ := Head.begin_ok h₁
    have hpos : start.contentStart ≤ w₂.pos := by
      rw [← w₂.length_asBytes, Calls.asBytes_write h₂, hw₁, hstart]
      simp only [List.length_append, List.length_cons, List.length_nil]
      omega
    obtain ⟨w₃, h₃, hleft₃⟩ := fits_endSequence hpos
    obtain ⟨w₄, h₄, hleft₄⟩ := ihRest (show rest.room ≤ w₃.remaining by omega)
    refine ⟨w₄, ?_, ?_⟩
    · simp only [Calls.write, h₁, h₂, h₃, h₄, ok_bind]
    · show w.remaining ≤ w₄.remaining + (4 + inner.room + rest.room)
      omega

theorem exists_write (calls : Calls) :
    ∃ w, calls.write (.new (List.replicate calls.room 0)) = .ok w := by
  have hroom : (BerWriter.new (List.replicate calls.room 0)).remaining = calls.room :=
    List.length_replicate
  obtain ⟨w, hw, -⟩ := fits_calls (Nat.le_of_eq hroom.symm)
  exact ⟨w, hw⟩

/-! ## The round trips -/

/-- The octets of calls that succeed are a tree of them, with every value and every length,
exactly when no sequence is longer than 65535 octets and no string needs a length of more
than four octets.  A PDU that is encoded is decoded again as it was, a bind if its
identifiers are zero beyond their lengths and a CLTU bind if besides it asks for the CLTU
service. -/
theorem roundTrip_iff (buf : Bytes) :
    (∀ (calls : Calls) (w : BerWriter), calls.write (.new buf) = .ok w →
      (RoundTrips calls w.asBytes ↔ calls.Small)) ∧
    (∀ (p : RafBindInvocation) (w : BerWriter), p.encode buf = .ok w →
      (RafBindInvocation.decode w.asBytes = .ok p ↔
        Padded p.initiatorId p.initiatorIdLen ∧ Padded p.responderId p.responderIdLen)) ∧
    (∀ (p : CltuBindInvocation) (w : BerWriter), p.encode buf = .ok w →
      (CltuBindInvocation.decode w.asBytes = .ok p ↔
        Padded p.initiatorId p.initiatorIdLen ∧ Padded p.responderId p.responderIdLen ∧
          p.serviceType = .fCltu)) ∧
    (∀ (p : RafBindReturn) (w : BerWriter), p.encode buf = .ok w →
      RafBindReturn.decode w.asBytes = .ok p) ∧
    (∀ (p : RafStartInvocation) (w : BerWriter), p.encode buf = .ok w →
      RafStartInvocation.decode w.asBytes = .ok p) ∧
    (∀ (p : RafTransferDataInvocation) (w : BerWriter), p.encode buf = .ok w →
      RafTransferDataInvocation.decode w.asBytes = .ok p) ∧
    (∀ (p : CltuStartInvocation) (w : BerWriter), p.encode buf = .ok w →
      CltuStartInvocation.decode w.asBytes = .ok p) ∧
    (∀ (p : CltuTransferDataInvocation) (w : BerWriter), p.encode buf = .ok w →
      CltuTransferDataInvocation.decode w.asBytes = .ok p) ∧
    (∀ (p : CltuTransferDataReturn) (w : BerWriter), p.encode buf = .ok w →
      CltuTransferDataReturn.decode w.asBytes = .ok p) :=
  ⟨fun _ _ h => roundTrips_iff h,
    fun _ _ h => RafBindInvocation.decode_encode h,
    fun _ _ h => CltuBindInvocation.decode_encode h,
    fun _ _ h => RafBindReturn.decode_encode h,
    fun _ _ h => RafStartInvocation.decode_encode h,
    fun _ _ h => RafTransferDataInvocation.decode_encode h,
    fun _ _ h => CltuStartInvocation.decode_encode h,
    fun _ _ h => CltuTransferDataInvocation.decode_encode h,
    fun _ _ h => CltuTransferDataReturn.decode_encode h⟩

theorem roundTrip_nested :
    ∃ w, (nest (.context 4 true) (nest .sequence (leaf (.integer 300) (leaf (.bool true) done))
        (leaf .null done)) (leaf (.enum (-1)) done)).write (.new (List.replicate 32 0)) = .ok w ∧
      RoundTrips (nest (.context 4 true) (nest .sequence (leaf (.integer 300)
        (leaf (.bool true) done)) (leaf .null done)) (leaf (.enum (-1)) done)) w.asBytes :=
  ⟨_, rfl, ((roundTrip_iff (List.replicate 32 0)).1 _ _ rfl).2 (by decide)⟩

def strayBind : CltuBindInvocation :=
  { initiatorId := padId [65] (by decide)
    initiatorIdLen := 1
    responderId := padId [66] (by decide)
    responderIdLen := 1
    serviceType := .rafOnline
    version := 1
    credentials := none }

def longSequence : Calls := nest .sequence (leaf (.octetString (List.replicate 65532 0)) done) done

/-- The sequence gets through with a length of zero, and the bind comes back for another
service. -/
theorem longSequence_strayBind :
    (∃ w, longSequence.write (.new (List.replicate longSequence.room 0)) = .ok w ∧
      ¬ RoundTrips longSequence w.asBytes) ∧
    ∃ w, strayBind.encode (List.replicate 32 0) = .ok w ∧
      CltuBindInvocation.decode w.asBytes ≠ .ok strayBind := by
  constructor
  · obtain ⟨w, hw⟩ := exists_write longSequence
    refine ⟨w, hw, fun hround => ?_⟩
    have hlong : (leaf (.octetString (List.replicate 65532 0)) done).wire.length = 65536 := by
      rw [Calls.wire, List.length_append, Primitive.length_wire, Primitive.content,
        List.length_replicate]
      decide
    have hfits : (leaf (.octetString (List.replicate 65532 0)) done).wire.length ≤ 0xFFFF :=
      hround.fits.1
    rw [hlong] at hfits
    exact absurd hfits (by decide)
  · obtain ⟨w, hw⟩ : ∃ w, strayBind.encode (List.replicate 32 0) = .ok w := ⟨_, rfl⟩
    refine ⟨w, hw, fun hsame => ?_⟩
    exact absurd ((CltuBindInvocation.decode_encode hw).1 hsame).2.2 (by decide)

end Sle
end Leodos
