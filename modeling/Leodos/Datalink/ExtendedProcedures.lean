/-
Headers of the extended procedures, `datalink/security/sdls/ep.rs`.

A tag octet is followed by the length of the data in bits.
-/
import Leodos.Bits.Assembly
import Leodos.Bits.Endian
import Leodos.Datalink.Sdls

namespace Leodos
namespace Datalink
namespace Sdls

open Bits Memory Spp

inductive PduType where
  | command
  | reply
  deriving DecidableEq, Repr

def TYPE_MASK : BitVec 8 := 0b10000000
def USER_FLAG_MASK : BitVec 8 := 0b01000000
def SERVICE_GROUP_MASK : BitVec 8 := 0b00110000
def PROCEDURE_ID_MASK : BitVec 8 := 0b00001111

def EP_HEADER_SIZE : Nat := 3

structure EpHeader where
  pduType : PduType
  userFlag : Bool
  serviceGroup : BitVec 8
  procedureId : BitVec 8
  deriving DecidableEq, Repr

namespace EpHeader

def parse (bytes : Bytes) : Except Error (EpHeader × Nat) :=
  if bytes.length < EP_HEADER_SIZE then .error .frameTooShort
  else
    let tag := (bytes.getD 0 0).toBitVec
    let pduType := if getBits tag TYPE_MASK = 0 then PduType.command else .reply
    let lengthBits := BigEndian.decode [bytes.getD 1 0, bytes.getD 2 0]
    .ok (⟨pduType, getBits tag USER_FLAG_MASK != 0, getBits tag SERVICE_GROUP_MASK,
      getBits tag PROCEDURE_ID_MASK⟩, lengthBits / 8)

def typeVal (h : EpHeader) : BitVec 8 :=
  match h.pduType with
  | .command => 0
  | .reply => 1

def tag (h : EpHeader) : BitVec 8 :=
  setBits (setBits (setBits (setBits 0 TYPE_MASK h.typeVal) USER_FLAG_MASK
    ((BitVec.ofBool h.userFlag).setWidth 8)) SERVICE_GROUP_MASK h.serviceGroup) PROCEDURE_ID_MASK
    h.procedureId

/-- The buffer with the header in front.  The length in bits is a product of 16-bit numbers,
which panics when it overflows. -/
def encode (h : EpHeader) (dataLenBytes : BitVec 16) (out : Bytes) : Except (Fault Error) Bytes :=
  if out.length < EP_HEADER_SIZE then .error (.error (.bufferTooSmall EP_HEADER_SIZE out.length))
  else if UInt16.size ≤ dataLenBytes.toNat * 8 then .error .panic
  else
    .ok (write out 0
      (UInt8.ofBitVec h.tag :: BigEndian.encode 2 (dataLenBytes.toNat * 8)))

/-- The header and the length that were given are parsed. -/
def Exact (h : EpHeader) (dataLenBytes : BitVec 16) (out : Bytes) : Prop :=
  Returns (h.encode dataLenBytes out) ∧
    ∀ bytes, h.encode dataLenBytes out = .ok bytes → parse bytes = .ok (h, dataLenBytes.toNat)

def typeField : Field 8 := ⟨TYPE_MASK, 7, 1, spans_of_eq rfl (by decide) (by decide)⟩
def userFlagField : Field 8 := ⟨USER_FLAG_MASK, 6, 1, spans_of_eq rfl (by decide) (by decide)⟩
def serviceGroupField : Field 8 :=
  ⟨SERVICE_GROUP_MASK, 4, 2, spans_of_eq rfl (by decide) (by decide)⟩
def procedureIdField : Field 8 :=
  ⟨PROCEDURE_ID_MASK, 0, 4, spans_of_eq rfl (by decide) (by decide)⟩

theorem parse_tag {h : EpHeader} (hgroup : h.serviceGroup.toNat < 4)
    (hprocedure : h.procedureId.toNat < 16) (high low : UInt8) (rest : Bytes) :
    parse (UInt8.ofBitVec h.tag :: high :: low :: rest) =
      .ok (h, BigEndian.decode [high, low] / 8) := by
  obtain ⟨htype, huser, hservice, hproc, -⟩ := reads_assemble 0#8
    [(typeField, h.typeVal), (userFlagField, (BitVec.ofBool h.userFlag).setWidth 8),
      (serviceGroupField, h.serviceGroup), (procedureIdField, h.procedureId)]
    (by decide : [typeField, userFlagField, serviceGroupField, procedureIdField].Pairwise
      Field.Apart)
    ⟨by unfold typeVal; cases h.pduType <;> exact fits_of_toNat_lt (by decide),
      fits_setWidth (BitVec.ofBool h.userFlag), fits_of_toNat_lt hgroup,
      fits_of_toNat_lt hprocedure, trivial⟩
  have htype : getBits h.tag TYPE_MASK = h.typeVal := htype
  have huser : getBits h.tag USER_FLAG_MASK = (BitVec.ofBool h.userFlag).setWidth 8 := huser
  have hservice : getBits h.tag SERVICE_GROUP_MASK = h.serviceGroup := hservice
  have hproc : getBits h.tag PROCEDURE_ID_MASK = h.procedureId := hproc
  have hpdu : (if h.typeVal = 0 then PduType.command else PduType.reply) = h.pduType := by
    unfold typeVal
    cases h.pduType <;> rfl
  have hflag : ((BitVec.ofBool h.userFlag).setWidth 8 != 0) = h.userFlag := by
    cases h.userFlag <;> rfl
  have hroom : ¬ (UInt8.ofBitVec h.tag :: high :: low :: rest).length < EP_HEADER_SIZE := by
    simp only [List.length_cons, EP_HEADER_SIZE]
    omega
  rw [parse, if_neg hroom]
  show Except.ok ((⟨if getBits h.tag TYPE_MASK = 0 then PduType.command else PduType.reply,
    getBits h.tag USER_FLAG_MASK != 0, getBits h.tag SERVICE_GROUP_MASK,
    getBits h.tag PROCEDURE_ID_MASK⟩ : EpHeader), BigEndian.decode [high, low] / 8) = _
  rw [htype, huser, hservice, hproc, hpdu, hflag]

theorem encode_exact_iff {h : EpHeader} {dataLenBytes : BitVec 16} {out : Bytes} :
    h.Exact dataLenBytes out ↔ (EP_HEADER_SIZE ≤ out.length →
      h.serviceGroup.toNat < 4 ∧ h.procedureId.toNat < 16 ∧ dataLenBytes.toNat < 8192) := by
  unfold Exact encode
  by_cases hroom : out.length < EP_HEADER_SIZE
  · rw [if_pos hroom]
    exact iff_of_true ⟨returns_error _, fun bytes hbytes => by cases hbytes⟩
      (fun hle => absurd hle (Nat.not_le.2 hroom))
  rw [if_neg hroom, imp_iff_right (Nat.le_of_not_lt hroom)]
  have hsize : UInt16.size = 8192 * 8 := rfl
  by_cases hlength : UInt16.size ≤ dataLenBytes.toNat * 8
  · rw [if_pos hlength]
    exact iff_of_false (fun hexact => not_returns_panic hexact.1) (fun hfits => by omega)
  rw [if_neg hlength, and_iff_right (returns_ok _)]
  simp only [Except.ok.injEq, forall_eq']
  have hwrite : write out 0 (UInt8.ofBitVec h.tag :: BigEndian.encode 2 (dataLenBytes.toNat * 8)) =
      UInt8.ofBitVec h.tag :: (BigEndian.encode 2 (dataLenBytes.toNat * 8) ++ out.drop 3) :=
    write_zero (Nat.le_of_not_lt hroom)
  have hdecode : BigEndian.decode (BigEndian.encode 2 (dataLenBytes.toNat * 8)) / 8 =
      dataLenBytes.toNat := by
    rw [BigEndian.decode_encode_of_lt (by omega), Nat.mul_div_cancel _ (by decide)]
  rw [hwrite]
  constructor
  · intro hparse
    unfold parse at hparse
    split at hparse
    · cases hparse
    obtain ⟨hheader, -⟩ := Prod.mk.inj (Except.ok.inj hparse)
    have hgroup := congrArg EpHeader.serviceGroup hheader
    have hprocedure := congrArg EpHeader.procedureId hheader
    exact ⟨hgroup ▸ toNat_getBits_lt serviceGroupField.spans _,
      hprocedure ▸ toNat_getBits_lt procedureIdField.spans _, by omega⟩
  · intro hfits
    obtain ⟨hgroup, hprocedure, -⟩ := hfits
    exact (parse_tag hgroup hprocedure _ _ _).trans
      (congrArg (fun len => Except.ok (h, len)) hdecode)

end EpHeader

end Sdls
end Datalink
end Leodos
