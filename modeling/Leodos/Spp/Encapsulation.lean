/-
Headers of encapsulation packets, `datalink/spp/encapsulation.rs`.

Two octets hold six fields, and a packet length of zero, one, two or four octets follows them.
-/
import Leodos.Bits.Assembly
import Leodos.Bits.Endian
import Leodos.Memory.Cells
import Leodos.Spp.Sequence

namespace Leodos
namespace Spp
namespace Encapsulation

open Bits Memory

def PVN_MASK : BitVec 16 := 0b1110000000000000
def PROTOCOL_ID_MASK : BitVec 16 := 0b0001111000000000
def LEN_OF_LEN_MASK : BitVec 16 := 0b0000000110000000
def USER_DEF_MASK : BitVec 16 := 0b0000000001111000
def PID_EXT_MASK : BitVec 16 := 0b0000000000000111 <<< 1
def CCSDS_DEF_MASK : BitVec 16 := 0b0000000000000001

inductive Error where
  | bufferTooShort (required provided : Nat)
  | invalidPvn (pvn : BitVec 8)
  deriving DecidableEq, Repr

def ENCAP_PVN : BitVec 8 := 0b111

structure EncapsulationHeader where
  fields : BitVec 16
  deriving DecidableEq, Repr

namespace EncapsulationHeader

def pvn (h : EncapsulationHeader) : BitVec 8 := (getBits h.fields PVN_MASK).setWidth 8

def setPvn (h : EncapsulationHeader) (pvn : BitVec 8) : EncapsulationHeader :=
  ⟨setBits h.fields PVN_MASK (pvn.setWidth 16)⟩

def protocolId (h : EncapsulationHeader) : BitVec 8 :=
  (getBits h.fields PROTOCOL_ID_MASK).setWidth 8

def setProtocolId (h : EncapsulationHeader) (pid : BitVec 8) : EncapsulationHeader :=
  ⟨setBits h.fields PROTOCOL_ID_MASK (pid.setWidth 16)⟩

def lenOfLen (h : EncapsulationHeader) : BitVec 8 :=
  (getBits h.fields LEN_OF_LEN_MASK).setWidth 8

def setLenOfLen (h : EncapsulationHeader) (lol : BitVec 8) : EncapsulationHeader :=
  ⟨setBits h.fields LEN_OF_LEN_MASK (lol.setWidth 16)⟩

def userDefined (h : EncapsulationHeader) : BitVec 8 :=
  (getBits h.fields USER_DEF_MASK).setWidth 8

def setUserDefined (h : EncapsulationHeader) (ud : BitVec 8) : EncapsulationHeader :=
  ⟨setBits h.fields USER_DEF_MASK (ud.setWidth 16)⟩

def protocolIdExtension (h : EncapsulationHeader) : BitVec 8 :=
  (getBits h.fields PID_EXT_MASK).setWidth 8

def setProtocolIdExtension (h : EncapsulationHeader) (ext : BitVec 8) : EncapsulationHeader :=
  ⟨setBits h.fields PID_EXT_MASK (ext.setWidth 16)⟩

def ccsdsDefined (h : EncapsulationHeader) : Bool := getBits h.fields CCSDS_DEF_MASK != 0

def setCcsdsDefined (h : EncapsulationHeader) (val : Bool) : EncapsulationHeader :=
  ⟨setBits h.fields CCSDS_DEF_MASK ((BitVec.ofBool val).setWidth 16)⟩

end EncapsulationHeader

def packetLengthBytes (lenOfLen : BitVec 8) : Nat :=
  match lenOfLen.toNat with
  | 0 => 0
  | 1 => 1
  | 2 => 2
  | _ => 4

def readPacketLength (lenOfLen : BitVec 8) (bytes : Bytes) : Except Error (Option Nat) :=
  let required := packetLengthBytes lenOfLen
  if bytes.length < required then .error (.bufferTooShort required bytes.length)
  else if required = 0 then .ok none
  else .ok (some (BigEndian.decode (bytes.take required)))

/-- The octets with the length in front: as many of its low octets as the field has. -/
def writePacketLength (lenOfLen : BitVec 8) (length : UInt32) (bytes : Bytes) :
    Except Error Bytes :=
  let required := packetLengthBytes lenOfLen
  if bytes.length < required then .error (.bufferTooShort required bytes.length)
  else .ok (write bytes 0 (BigEndian.encode required length.toNat))

/-! ## What is read back -/

def pvnField : Field 16 := ⟨PVN_MASK, 13, 3, spans_of_eq rfl (by decide) (by decide)⟩
def protocolIdField : Field 16 := ⟨PROTOCOL_ID_MASK, 9, 4, spans_of_eq rfl (by decide) (by decide)⟩
def lenOfLenField : Field 16 := ⟨LEN_OF_LEN_MASK, 7, 2, spans_of_eq rfl (by decide) (by decide)⟩
def userDefinedField : Field 16 := ⟨USER_DEF_MASK, 3, 4, spans_of_eq rfl (by decide) (by decide)⟩
/-- One bit less than the documented width. -/
def protocolIdExtensionField : Field 16 :=
  ⟨PID_EXT_MASK, 1, 3, spans_of_eq rfl (by decide) (by decide)⟩
def ccsdsDefinedField : Field 16 :=
  ⟨CCSDS_DEF_MASK, 0, 1, spans_of_eq rfl (by decide) (by decide)⟩

inductive Setter where
  | pvn (pvn : BitVec 8)
  | protocolId (pid : BitVec 8)
  | lenOfLen (lol : BitVec 8)
  | userDefined (ud : BitVec 8)
  | protocolIdExtension (ext : BitVec 8)
  | ccsdsDefined (val : Bool)

namespace Setter

def apply (h : EncapsulationHeader) : Setter → EncapsulationHeader
  | pvn v => h.setPvn v
  | protocolId v => h.setProtocolId v
  | lenOfLen v => h.setLenOfLen v
  | userDefined v => h.setUserDefined v
  | protocolIdExtension v => h.setProtocolIdExtension v
  | ccsdsDefined v => h.setCcsdsDefined v

/-- The accessor of the field returns the value. -/
def ReadBy (h : EncapsulationHeader) : Setter → Prop
  | pvn v => h.pvn = v
  | protocolId v => h.protocolId = v
  | lenOfLen v => h.lenOfLen = v
  | userDefined v => h.userDefined = v
  | protocolIdExtension v => h.protocolIdExtension = v
  | ccsdsDefined v => h.ccsdsDefined = v

def field : Setter → Field 16
  | pvn _ => pvnField
  | protocolId _ => protocolIdField
  | lenOfLen _ => lenOfLenField
  | userDefined _ => userDefinedField
  | protocolIdExtension _ => protocolIdExtensionField
  | ccsdsDefined _ => ccsdsDefinedField

def value : Setter → BitVec 16
  | pvn v | protocolId v | lenOfLen v | userDefined v | protocolIdExtension v => v.setWidth 16
  | ccsdsDefined v => (BitVec.ofBool v).setWidth 16

/-- The value has no more bits than the field. -/
def InRange : Setter → Prop
  | pvn v => v.toNat < 2 ^ 3
  | protocolId v => v.toNat < 2 ^ 4
  | lenOfLen v => v.toNat < 2 ^ 2
  | userDefined v => v.toNat < 2 ^ 4
  | protocolIdExtension v => v.toNat < 2 ^ 3
  | ccsdsDefined _ => True

def entry (s : Setter) : Field 16 × BitVec 16 := (s.field, s.value)

variable {s t : Setter} {h : EncapsulationHeader}

theorem fits_value (hs : s.InRange) : Fits s.value s.field.len := by
  cases s with
  | ccsdsDefined v => exact fits_setWidth (BitVec.ofBool v)
  | _ => exact fits_narrow hs

theorem inRange_of_readBy (hs : s.ReadBy h) : s.InRange := by
  cases s with
  | pvn v => exact toNat_of_read pvnField.spans hs
  | protocolId v => exact toNat_of_read protocolIdField.spans hs
  | lenOfLen v => exact toNat_of_read lenOfLenField.spans hs
  | userDefined v => exact toNat_of_read userDefinedField.spans hs
  | protocolIdExtension v => exact toNat_of_read protocolIdExtensionField.spans hs
  | ccsdsDefined v => trivial

theorem readBy_iff : s.ReadBy h ↔ getBits h.fields s.field.mask = s.value := by
  cases s with
  | pvn v => exact read_iff pvnField.spans (by decide) (by decide)
  | protocolId v => exact read_iff protocolIdField.spans (by decide) (by decide)
  | lenOfLen v => exact read_iff lenOfLenField.spans (by decide) (by decide)
  | userDefined v => exact read_iff userDefinedField.spans (by decide) (by decide)
  | protocolIdExtension v => exact read_iff protocolIdExtensionField.spans (by decide) (by decide)
  | ccsdsDefined v => exact flag_iff ccsdsDefinedField.spans

theorem fields_apply (h : EncapsulationHeader) (s : Setter) :
    (apply h s).fields = setBits h.fields s.field.mask s.value := by
  cases s <;> rfl

theorem readBy_apply (h : EncapsulationHeader) (hs : s.InRange) : s.ReadBy (apply h s) := by
  rw [readBy_iff, fields_apply]
  exact getBits_setBits_self s.field.spans (fits_value hs) _

theorem ReadBy.keep (hs : s.ReadBy h) (ht : t.InRange) (hcompatible : Compatible s.entry t.entry) :
    s.ReadBy (apply h t) := by
  rw [readBy_iff] at hs
  rw [readBy_iff]
  rw [fields_apply]
  exact @getBits_setBits_of_compatible 16 s.entry t.entry _ hs (fits_value ht) hcompatible

theorem ReadBy.keep_all {later : List Setter} (hs : s.ReadBy h)
    (hlater : ∀ t ∈ later, t.InRange ∧ Compatible s.entry t.entry) :
    s.ReadBy (later.foldl apply h) := by
  induction later generalizing h with
  | nil => exact hs
  | cons t later ih =>
    have ht := hlater t List.mem_cons_self
    exact ih (hs.keep ht.1 ht.2) fun u hu => hlater u (List.mem_cons_of_mem _ hu)

end Setter

open Setter

/-- The setters of `later` follow `s` and do not set its field again. -/
def Follow (setters earlier : List Setter) (s : Setter) (later : List Setter) : Prop :=
  (∃ rest, setters = earlier ++ s :: later ++ rest) ∧ ∀ t ∈ later, t.field.mask ≠ s.field.mask

/-- From a setter on, and until the field is set again, the accessor returns the value. -/
def Exact (h : EncapsulationHeader) (setters : List Setter) : Prop :=
  ∀ earlier s later, Follow setters earlier s later →
    s.ReadBy ((earlier ++ s :: later).foldl apply h)

/-- Every value fits, and agrees with the later ones on the bits that their fields share. -/
def SettersFit (setters : List Setter) : Prop :=
  (∀ s ∈ setters, s.InRange) ∧
    ∀ earlier s later, Follow setters earlier s later → ∀ t ∈ later, Compatible s.entry t.entry

theorem settersExact_iff {h : EncapsulationHeader} {setters : List Setter} :
    Exact h setters ↔ SettersFit setters := by
  constructor
  · intro hexact
    have hlast : ∀ earlier s rest, setters = earlier ++ s :: rest →
        s.ReadBy ((earlier ++ [s]).foldl apply h) := by
      intro earlier s rest hsetters
      apply hexact earlier s []
      exact ⟨⟨rest, by rw [hsetters, List.append_assoc]; rfl⟩, fun t ht => by cases ht⟩
    constructor
    · intro s hs
      obtain ⟨earlier, rest, hsetters⟩ := List.append_of_mem hs
      exact inRange_of_readBy (hlast earlier s rest hsetters)
    · intro earlier s later hfollow t ht
      obtain ⟨⟨rest, hsetters⟩, hother⟩ := hfollow
      obtain ⟨between, after, hlater⟩ := List.append_of_mem ht
      have hword : earlier ++ s :: (between ++ [t]) = earlier ++ s :: between ++ [t] := by
        rw [List.append_assoc]
        rfl
      have hs : s.ReadBy ((earlier ++ s :: (between ++ [t])).foldl apply h) := by
        apply hexact earlier s (between ++ [t])
        refine ⟨⟨after ++ rest, ?_⟩, fun u hu => hother u ?_⟩
        · rw [hsetters, hlater]
          simp only [List.append_assoc, List.cons_append, List.nil_append]
        · rw [hlater]
          rcases List.mem_append.1 hu with hu | hu
          · exact List.mem_append_left _ hu
          · rw [List.mem_singleton.1 hu]
            exact List.mem_append_right _ List.mem_cons_self
      have ht := hlast (earlier ++ s :: between) t (after ++ rest) (by
        rw [hsetters, hlater]
        simp only [List.append_assoc, List.cons_append])
      rw [← hword] at ht
      exact @compatible_of_reads 16 s.entry t.entry _ (readBy_iff.1 hs) (readBy_iff.1 ht)
  · intro hfit earlier s later hfollow
    obtain ⟨rest, hsetters⟩ := hfollow.1
    have hmem : ∀ t ∈ s :: later, t ∈ setters := by
      intro t ht
      rw [hsetters]
      exact List.mem_append_left _ (List.mem_append_right _ ht)
    rw [List.foldl_append, List.foldl_cons]
    apply (readBy_apply _ (hfit.1 s (hmem s List.mem_cons_self))).keep_all
    intro t ht
    exact ⟨hfit.1 t (hmem t (List.mem_cons_of_mem _ ht)), hfit.2 earlier s later hfollow t ht⟩

/-- The length that is written is read back. -/
def LengthExact (lenOfLen : BitVec 8) (length : UInt32) (bytes : Bytes) : Prop :=
  ∀ written, writePacketLength lenOfLen length bytes = .ok written →
    readPacketLength lenOfLen written = .ok (some length.toNat)

theorem lengthExact_iff {lenOfLen : BitVec 8} {length : UInt32} {bytes : Bytes} :
    LengthExact lenOfLen length bytes ↔ (packetLengthBytes lenOfLen ≤ bytes.length →
      0 < packetLengthBytes lenOfLen ∧ length.toNat < 256 ^ packetLengthBytes lenOfLen) := by
  unfold LengthExact writePacketLength
  dsimp only
  by_cases hroom : bytes.length < packetLengthBytes lenOfLen
  · rw [if_pos hroom]
    exact iff_of_true (fun written hwritten => by cases hwritten)
      (fun hle => absurd hle (Nat.not_le.2 hroom))
  rw [if_neg hroom, imp_iff_right (Nat.le_of_not_lt hroom)]
  simp only [Except.ok.injEq, forall_eq']
  have hle : packetLengthBytes lenOfLen ≤ bytes.length := Nat.le_of_not_lt hroom
  have hencode : (BigEndian.encode (packetLengthBytes lenOfLen) length.toNat).length =
    packetLengthBytes lenOfLen := BigEndian.length_encode ..
  unfold readPacketLength
  dsimp only
  rw [write_length, if_neg hroom, write_zero (by rw [hencode]; exact hle), List.take_left' hencode,
    BigEndian.decode_encode]
  by_cases hzero : packetLengthBytes lenOfLen = 0
  · rw [if_pos hzero, hzero]
    exact iff_of_false (fun heq => by cases heq) (fun hfits => absurd hfits.1 (Nat.lt_irrefl 0))
  · rw [if_neg hzero, Except.ok.injEq, Option.some_inj]
    constructor
    · intro heq
      exact ⟨Nat.pos_of_ne_zero hzero, heq ▸ Nat.mod_lt _ (Nat.pow_pos (by decide))⟩
    · intro hfits
      exact Nat.mod_eq_of_lt hfits.2

end Encapsulation
end Spp
end Leodos
