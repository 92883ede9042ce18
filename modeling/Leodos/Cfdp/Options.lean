/-
The options of a Metadata PDU.

What the accessors return is compared with the octets themselves: a record is a type, a length
and that many octets of value, the records of a PDU follow its two file names, and octets at the
end that are no whole record are left alone.
-/
import Leodos.Bits.Field
import Leodos.Cfdp.Pdu

namespace Leodos
namespace Cfdp

open Spp

/-! ## Records -/

def NoRecord : Bytes → Prop
  | _ :: length :: rest => rest.length < length.toNat
  | _ => True

/-- The octets are these records, one behind the other, and a rest that is none. -/
inductive Records : Bytes → List Tlv → Prop where
  | stop {rest : Bytes} (h : NoRecord rest) : Records rest []
  | record {typeCode length : UInt8} {value rest : Bytes} {tlvs : List Tlv}
      (h : value.length = length.toNat) (hrest : Records rest tlvs) :
      Records (typeCode :: length :: (value ++ rest)) (⟨typeCode, value⟩ :: tlvs)

theorem records_tlvsWithin {fuel : Nat} {buffer : Bytes} (h : buffer.length ≤ fuel) :
    Records buffer (tlvsWithin fuel buffer) := by
  induction fuel generalizing buffer with
  | zero =>
    have hnil : buffer = [] := List.length_eq_zero_iff.1 (Nat.le_zero.1 h)
    rw [hnil]
    exact .stop trivial
  | succ fuel ih =>
    match buffer with
    | [] => exact .stop trivial
    | [typeCode] => exact .stop trivial
    | typeCode :: length :: rest =>
      rw [tlvsWithin]
      by_cases hcut : rest.length < length.toNat
      · rw [if_pos hcut]
        exact .stop hcut
      · rw [if_neg hcut]
        have hlen : (rest.take length.toNat).length = length.toNat := by
          rw [List.length_take]
          omega
        have hrest : (rest.drop length.toNat).length ≤ fuel := by
          simp only [List.length_cons] at h
          rw [List.length_drop]
          omega
        have hrecord := @Records.record typeCode _ _ _ _ hlen (ih hrest)
        rw [List.take_append_drop] at hrecord
        exact hrecord

theorem Records.eq_tlvsWithin {buffer : Bytes} {records : List Tlv} (h : Records buffer records)
    {fuel : Nat} (hfuel : buffer.length ≤ fuel) : records = tlvsWithin fuel buffer := by
  induction h generalizing fuel with
  | @stop rest hnone =>
    match fuel, rest with
    | 0, _ => rfl
    | _ + 1, [] => rfl
    | _ + 1, [_] => rfl
    | _ + 1, _ :: length :: rest => exact (if_pos hnone).symm
  | @record typeCode length value rest tlvs hlen hrest ih =>
    match fuel with
    | 0 => exact absurd hfuel (Nat.not_succ_le_zero _)
    | fuel + 1 =>
      have hcut : ¬ (value ++ rest).length < length.toNat := by
        rw [List.length_append]
        omega
      have hle : rest.length ≤ fuel := by
        simp only [List.length_cons, List.length_append] at hfuel
        omega
      rw [tlvsWithin, if_neg hcut, List.take_left' hlen, List.drop_left' hlen, ← ih hle]

theorem records_iff {buffer : Bytes} {records : List Tlv} :
    Records buffer records ↔ tlvs buffer = records :=
  ⟨fun h => (h.eq_tlvsWithin (Nat.le_refl _)).symm, fun h => h ▸ records_tlvsWithin (Nat.le_refl _)⟩

/-! ## Names -/

/-- A length and that many octets, in front of the rest. -/
def Named (bytes name rest : Bytes) : Prop :=
  ∃ length : UInt8, bytes = length :: (name ++ rest) ∧ name.length = length.toNat

theorem splitLv_eq_ok_iff {noLength short : CfdpError} {bytes name rest : Bytes} :
    splitLv noLength short bytes = .ok (name, rest) ↔ Named bytes name rest := by
  unfold splitLv Named
  cases bytes with
  | nil =>
    refine iff_of_false (fun h => by cases h) (fun h => ?_)
    obtain ⟨length, hbytes, -⟩ := h
    cases hbytes
  | cons len tail =>
    dsimp only
    constructor
    · intro h
      by_cases hshort : tail.length < len.toNat
      · rw [if_pos hshort] at h
        cases h
      · rw [if_neg hshort] at h
        cases h
        refine ⟨len, by rw [List.take_append_drop], ?_⟩
        rw [List.length_take]
        omega
    · intro h
      obtain ⟨length, hbytes, hlen⟩ := h
      obtain ⟨rfl, rfl⟩ := List.cons.inj hbytes
      have hroom : ¬ (name ++ rest).length < len.toNat := by
        rw [List.length_append]
        omega
      rw [if_neg hroom, List.take_left' hlen, List.drop_left' hlen]

namespace MetadataPdu

/-- The fields of the PDU that follow its first octet. -/
def Fields (p : MetadataPdu) (largeFileFlag : Bool) (source dest : Bytes) (options : List Tlv) :
    Prop :=
  ∃ size afterSize afterSource tail : Bytes, p.rest = size ++ afterSize ∧
    size.length = fssLen largeFileFlag ∧ Named afterSize source afterSource ∧
    Named afterSource dest tail ∧ Records tail options

theorem variableFields_eq_ok_iff {p : MetadataPdu} {largeFileFlag : Bool} {source dest : Bytes}
    {options : List Tlv} :
    p.variableFields largeFileFlag = .ok (source, dest, options) ↔
      p.Fields largeFileFlag source dest options := by
  unfold variableFields Fields
  by_cases hsize : p.rest.length < fssLen largeFileFlag
  · rw [if_pos hsize]
    refine iff_of_false (fun h => by cases h) (fun h => ?_)
    obtain ⟨size, afterSize, -, -, hrest, hlen, -⟩ := h
    rw [hrest, List.length_append] at hsize
    omega
  · rw [if_neg hsize]
    constructor
    · intro h
      cases hsource : splitLv (.custom "Invalid metadata: missing source name length")
          (.custom "Invalid metadata: insufficient data for source name")
          (p.rest.drop (fssLen largeFileFlag)) with
      | error e =>
        rw [hsource] at h
        cases h
      | ok named =>
        obtain ⟨name, remainder⟩ := named
        rw [hsource] at h
        cases hdest : splitLv (.custom "Invalid metadata: missing destination name length")
            (.custom "Invalid metadata: insufficient data for destination name") remainder with
        | error e =>
          simp only [bind, Except.bind, hdest] at h
          cases h
        | ok other =>
          obtain ⟨destName, tail⟩ := other
          simp only [bind, Except.bind, hdest, pure, Except.pure] at h
          cases h
          refine ⟨p.rest.take (fssLen largeFileFlag), p.rest.drop (fssLen largeFileFlag), remainder,
            tail, (List.take_append_drop ..).symm, ?_, splitLv_eq_ok_iff.1 hsource,
            splitLv_eq_ok_iff.1 hdest, records_iff.2 rfl⟩
          rw [List.length_take]
          omega
    · intro h
      obtain ⟨size, afterSize, afterSource, tail, hrest, hlen, hsource, hdest, hrecords⟩ := h
      have hdrop : p.rest.drop (fssLen largeFileFlag) = afterSize := by
        rw [hrest, List.drop_left' hlen]
      rw [hdrop]
      simp only [bind, Except.bind, pure, Except.pure, splitLv_eq_ok_iff.2 hsource,
        splitLv_eq_ok_iff.2 hdest, records_iff.1 hrecords]

end MetadataPdu

/-! ## Fault handlers -/

namespace FaultHandlerSet

open Bits

def slotMask (condition : ConditionCode) : BitVec 32 := (0b11 : BitVec 32) <<< (condition.toNat * 2)

theorem spans_slot (condition : ConditionCode) :
    Spans (slotMask condition) (condition.toNat * 2) 2 := by
  cases condition <;> exact spans_of_eq (by decide) (by decide) (by decide)

theorem setHandler_eq (s : FaultHandlerSet) (condition : ConditionCode) (handler : HandlerCode) :
    s.setHandler condition handler = ⟨setBits s.bits (slotMask condition) handler.toBits⟩ := by
  rw [setBits, (spans_slot condition).1]
  rfl

theorem getHandler_eq (s : FaultHandlerSet) (condition : ConditionCode) :
    s.getHandler condition = HandlerCode.ofBits (getBits s.bits (slotMask condition)) := by
  unfold getHandler
  congr 1
  apply BitVec.eq_of_getLsbD_eq
  intro i hi
  have hlow : (0b11 : BitVec 32).getLsbD i = decide (i < 2) := by
    show (BitVec.ofNat 32 (2 ^ 2 - 1)).getLsbD i = _
    rw [BitVec.getLsbD_ofNat, decide_eq_true hi, Bool.true_and]
    exact Nat.testBit_two_pow_sub_one 2 i
  rw [getLsbD_getBits (spans_slot condition), BitVec.getLsbD_and, BitVec.getLsbD_ushiftRight, hlow,
    Bool.and_comm]

theorem apart_of_ne {condition other : ConditionCode} (h : condition ≠ other) :
    condition.toNat * 2 + 2 ≤ other.toNat * 2 ∨ other.toNat * 2 + 2 ≤ condition.toNat * 2 := by
  have hne : condition.toNat ≠ other.toNat := by
    cases condition <;> cases other <;> first
      | exact absurd rfl h
      | decide
  omega

theorem getHandler_setHandler (s : FaultHandlerSet) (condition other : ConditionCode)
    (handler : HandlerCode) :
    (s.setHandler condition handler).getHandler other =
      if condition = other then handler else s.getHandler other := by
  have hfits : Fits handler.toBits 2 := by
    cases handler <;> exact fits_of_toNat_lt (by decide)
  rw [setHandler_eq, getHandler_eq, getHandler_eq]
  by_cases hsame : condition = other
  · rw [if_pos hsame, ← hsame, getBits_setBits_self (spans_slot condition) hfits]
    cases handler <;> rfl
  · rw [if_neg hsame, getBits_setBits_of_disjoint (spans_slot condition) (spans_slot other)
      (apart_of_ne hsame) hfits]

end FaultHandlerSet

def Tlv.isRequest (tlv : Tlv) : Bool := tlv.tlvType matches .ok .filestoreRequest

def Tlv.override (tlv : Tlv) : Option (ConditionCode × HandlerCode) :=
  match tlv.tlvType, tlv.value with
  | .ok .faultHandlerOverride, [packed] =>
    match ConditionCode.tryFrom (getBitsU8 packed 0b11110000),
        HandlerCode.tryFrom (getBitsU8 packed 0b00001111) with
    | .ok condition, .ok handler => some (condition, handler)
    | _, _ => none
  | _, _ => none

/-- The handler of a condition after some overrides, of which the latest counts. -/
def overridden (condition : ConditionCode) (start : HandlerCode)
    (overrides : List (ConditionCode × HandlerCode)) : HandlerCode :=
  overrides.foldl (fun handler o => if o.1 = condition then o.2 else handler) start

namespace MetadataPdu

theorem getHandler_overrideHandler {handlers next : FaultHandlerSet} {tlv : Tlv}
    (h : overrideHandler handlers tlv = .ok next) (condition : ConditionCode) :
    next.getHandler condition =
      overridden condition (handlers.getHandler condition) tlv.override.toList := by
  unfold overrideHandler at h
  unfold Tlv.override
  cases htype : tlv.tlvType with
  | error e =>
    rw [htype] at h
    cases h
  | ok tlvType =>
    rw [htype] at h
    simp only [bind, Except.bind, pure, Except.pure] at h
    by_cases hoverride : tlvType = .faultHandlerOverride
    · rw [if_pos hoverride] at h
      rw [hoverride]
      match hvalue : tlv.value with
      | [] =>
        rw [hvalue] at h
        cases h
        rfl
      | packed :: second :: rest =>
        rw [hvalue] at h
        cases h
        rfl
      | [packed] =>
        rw [hvalue] at h
        dsimp only at h
        dsimp only
        cases hcondition : ConditionCode.tryFrom (getBitsU8 packed 0b11110000) with
        | error e =>
          rw [hcondition] at h
          cases h
        | ok code =>
          rw [hcondition] at h
          cases hhandler : HandlerCode.tryFrom (getBitsU8 packed 0b00001111) with
          | error e =>
            rw [hhandler] at h
            cases h
          | ok handler =>
            rw [hhandler] at h
            cases h
            exact FaultHandlerSet.getHandler_setHandler ..
    · rw [if_neg hoverride] at h
      cases h
      cases tlvType with
      | faultHandlerOverride => exact absurd rfl hoverride
      | _ => rfl

theorem getHandler_foldlM {options : List Tlv} {handlers result : FaultHandlerSet}
    (h : options.foldlM overrideHandler handlers = .ok result) (condition : ConditionCode) :
    result.getHandler condition =
      overridden condition (handlers.getHandler condition) (options.filterMap Tlv.override) := by
  induction options generalizing handlers with
  | nil =>
    cases h
    rfl
  | cons tlv options ih =>
    rw [List.foldlM_cons] at h
    cases hstep : overrideHandler handlers tlv with
    | error e =>
      rw [hstep] at h
      cases h
    | ok next =>
      rw [hstep] at h
      have hrest : options.foldlM overrideHandler next = .ok result := h
      rw [ih hrest, getHandler_overrideHandler hstep, List.filterMap_cons]
      cases tlv.override <;> rfl

theorem getHandler_faultHandlerOverrides {p : MetadataPdu} {largeFileFlag : Bool}
    {source dest : Bytes} {options : List Tlv} {handlers : FaultHandlerSet}
    (hfields : p.Fields largeFileFlag source dest options)
    (h : p.faultHandlerOverrides largeFileFlag = .ok handlers) (condition : ConditionCode) :
    handlers.getHandler condition =
      overridden condition .cancel (options.filterMap Tlv.override) := by
  unfold faultHandlerOverrides MetadataPdu.options at h
  rw [variableFields_eq_ok_iff.2 hfields] at h
  have hfold : options.foldlM overrideHandler FaultHandlerSet.default = .ok handlers := h
  rw [getHandler_foldlM hfold, FaultHandlerSet.getHandler_default]

end MetadataPdu

end Cfdp
end Leodos
