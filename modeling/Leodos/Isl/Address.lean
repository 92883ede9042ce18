/-
Addresses of the inter-satellite network and their two-byte wire form.
-/

namespace Leodos
namespace Isl

structure Point where
  orb : UInt8
  sat : UInt8
  deriving DecidableEq, Repr

inductive Address where
  | ground (station : UInt8)
  | satellite (point : Point)
  deriving DecidableEq, Repr

structure RawAddress where
  groundOrOrb : UInt8
  stationOrSat : UInt8
  deriving DecidableEq, Repr

def RawAddress.parse (raw : RawAddress) : Address :=
  if raw.groundOrOrb = 0 then .ground raw.stationOrSat
  else .satellite ⟨raw.groundOrOrb - 1, raw.stationOrSat⟩

/-- The wire form of an address.  The orbit is stored plus one in a byte, so
orbit 255 wraps to the ground marker. -/
def RawAddress.ofAddress : Address → RawAddress
  | .ground station => ⟨0, station⟩
  | .satellite ⟨orb, sat⟩ => ⟨orb + 1, sat⟩

/-- Addresses whose wire form still names them. -/
def Address.Encodable : Address → Prop
  | .ground _ => True
  | .satellite p => p.orb ≠ 255

instance (a : Address) : Decidable a.Encodable := by
  cases a <;> unfold Address.Encodable <;> infer_instance

theorem orb_succ_eq_zero_iff (orb : UInt8) : orb + 1 = 0 ↔ orb = 255 := by
  constructor
  · intro h
    have h' := congrArg UInt8.toNat h
    have hlt := orb.toNat_lt
    apply UInt8.toNat_inj.mp
    simp at h' ⊢
    omega
  · rintro rfl
    rfl

theorem parse_ofAddress_iff (a : Address) :
    (RawAddress.ofAddress a).parse = a ↔ a.Encodable := by
  cases a with
  | ground station => simp [RawAddress.ofAddress, RawAddress.parse, Address.Encodable]
  | satellite p =>
    simp only [RawAddress.ofAddress, RawAddress.parse, Address.Encodable,
      orb_succ_eq_zero_iff]
    by_cases h : p.orb = 255
    · simp [h]
    · simp [h]

end Isl
end Leodos
