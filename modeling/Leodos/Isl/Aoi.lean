/-
An area of interest on the grid of satellites, `network/isl/aoi.rs`.

An area is a range of orbits and a range of satellites; a range runs forward from its
first place to its last and may wrap around.  The middle of a range is sought the shorter
way round, in octets, and lies half way along the range just when the range is no longer
than the way back and its middle is found before the octet ends.
-/
import Mathlib.Tactic.NormNum.Prime
import Mathlib.Tactic.Ring
import Leodos.Isl.Torus

namespace Leodos
namespace Isl

open Bits Leodos.Circle

structure WrappedRange where
  start : UInt8
  stop : UInt8
  modulus : UInt8
  deriving DecidableEq, Repr

namespace WrappedRange

def contains (range : WrappedRange) (val : UInt8) : Bool :=
  if range.start ≤ range.stop then decide (range.start ≤ val) && decide (val ≤ range.stop)
  else decide (range.start ≤ val) || decide (val ≤ range.stop)

def span (range : WrappedRange) : Option UInt8 :=
  if range.start ≤ range.stop then
    (checkedSub range.stop range.start).bind fun steps => checkedAdd steps 1
  else
    (checkedSub range.modulus range.start).bind fun rest =>
      (checkedAdd rest range.stop).bind fun steps => checkedAdd steps 1

/-- A remainder; none for the modulus zero. -/
def checkedRem (x modulus : UInt8) : Option UInt8 :=
  if modulus = 0 then none else some (x % modulus)

def midpoint (range : WrappedRange) : Option UInt8 :=
  (Torus.distance range.start range.stop range.modulus).bind fun forward =>
    (Torus.distance range.stop range.start range.modulus).bind fun backward =>
      if forward ≤ backward then
        checkedRem (range.start.toUInt16 + forward.toUInt16 / 2).toUInt8 range.modulus
      else
        checkedRem (range.start - backward / 2) range.modulus

/-- Both ends are places of the ring. -/
structure Valid (range : WrappedRange) : Prop where
  start_lt : range.start.toNat < range.modulus.toNat
  stop_lt : range.stop.toNat < range.modulus.toNat

/-- Steps forward from the first place to the last. -/
def forward (range : WrappedRange) : Nat :=
  arc range.modulus.toNat range.start.toNat range.stop.toNat

/-- Steps forward from the last place round to the first. -/
def backward (range : WrappedRange) : Nat :=
  arc range.modulus.toNat range.stop.toNat range.start.toNat

/-- The middle found by octet arithmetic is half way along the range.  A range longer than
the way back has its middle on the other side, except where the subtraction wraps and the
length of the ring divides 513, so that the wrapped octet falls on the right place. -/
def Halved (range : WrappedRange) : Prop :=
  (range.forward ≤ range.backward ∧ range.start.toNat + range.forward / 2 < 256) ∨
    (range.backward < range.forward ∧ range.start.toNat < range.backward / 2 ∧
      range.modulus.toNat ∣ 513)

instance (range : WrappedRange) : Decidable range.Halved :=
  inferInstanceAs (Decidable (_ ∨ _))

variable {range : WrappedRange}

theorem contains_iff (val : UInt8) :
    range.contains val = true ↔ Within range.start.toNat range.stop.toNat val.toNat := by
  have hle : range.start ≤ range.stop ↔ range.start.toNat ≤ range.stop.toNat :=
    UInt8.le_iff_toNat_le
  rw [contains, Within]
  by_cases h : range.start ≤ range.stop
  · rw [if_pos h, if_pos (hle.1 h), Bool.and_eq_true, decide_eq_true_iff, decide_eq_true_iff,
      UInt8.le_iff_toNat_le, UInt8.le_iff_toNat_le]
  · rw [if_neg h, if_neg (fun hn => h (hle.2 hn)), Bool.or_eq_true, decide_eq_true_iff,
      decide_eq_true_iff, UInt8.le_iff_toNat_le, UInt8.le_iff_toNat_le]

theorem Valid.span_eq (h : range.Valid) :
    ∃ n, range.span = some n ∧ n.toNat = range.forward + 1 := by
  have hle : range.start ≤ range.stop ↔ range.start.toNat ≤ range.stop.toNat :=
    UInt8.le_iff_toNat_le
  have hone : (1 : UInt8).toNat = 1 := rfl
  have hmod := range.modulus.toNat_lt_size
  have hstart := h.start_lt
  have hstop := h.stop_lt
  rw [span, forward, arc]
  by_cases hc : range.start ≤ range.stop
  · have hsub : (range.stop - range.start).toNat = range.stop.toNat - range.start.toNat :=
      toNat_sub_of_le (hle.1 hc)
    have hfit : (range.stop - range.start).toNat + (1 : UInt8).toNat < UInt8.size := by omega
    refine ⟨range.stop - range.start + 1, ?_, ?_⟩
    · rw [if_pos hc, checkedSub, if_pos (hle.1 hc), Option.bind_some, checkedAdd, if_pos hfit]
    · rw [if_pos (hle.1 hc), toNat_add_of_lt hfit, hsub, hone]
  · have hlt : range.stop.toNat < range.start.toNat := Nat.lt_of_not_le fun hn => hc (hle.2 hn)
    have hsub : (range.modulus - range.start).toNat = range.modulus.toNat - range.start.toNat :=
      toNat_sub_of_le (Nat.le_of_lt hstart)
    have hsteps : (range.modulus - range.start).toNat + range.stop.toNat < UInt8.size := by omega
    have hsum := toNat_add_of_lt hsteps
    have hfit : (range.modulus - range.start + range.stop).toNat + (1 : UInt8).toNat <
        UInt8.size := by omega
    refine ⟨range.modulus - range.start + range.stop + 1, ?_, ?_⟩
    · rw [if_neg hc, checkedSub, if_pos (Nat.le_of_lt hstart), Option.bind_some, checkedAdd,
        if_pos hsteps, Option.bind_some, checkedAdd, if_pos hfit]
    · rw [if_neg (Nat.not_le_of_lt hlt), toNat_add_of_lt hfit, hsum, hsub, hone]

/-- The octet that the middle is reduced from. -/
def raw (range : WrappedRange) : Nat :=
  if range.forward ≤ range.backward then (range.start.toNat + range.forward / 2) % 256
  else (256 - range.backward / 2 + range.start.toNat) % 256

theorem Valid.midpoint_eq (h : range.Valid) :
    ∃ m, range.midpoint = some m ∧ m.toNat = range.raw % range.modulus.toNat := by
  obtain ⟨forward, hf, hfv⟩ := Torus.distance_eq h.start_lt range.stop
  obtain ⟨backward, hb, hbv⟩ := Torus.distance_eq h.stop_lt range.start
  have hne : range.modulus ≠ 0 := by
    intro hzero
    have hstart := h.start_lt
    rw [hzero] at hstart
    exact absurd hstart (Nat.not_lt_zero _)
  have hle : forward ≤ backward ↔ range.forward ≤ range.backward := by
    rw [UInt8.le_iff_toNat_le, hfv, hbv, WrappedRange.forward, WrappedRange.backward]
  have hstart := range.start.toNat_lt_size
  have hforward := forward.toNat_lt_size
  rw [midpoint, hf, hb, Option.bind_some, Option.bind_some]
  by_cases hc : forward ≤ backward
  · refine ⟨(range.start.toUInt16 + forward.toUInt16 / 2).toUInt8 % range.modulus, ?_, ?_⟩
    · rw [if_pos hc, checkedRem, if_neg hne]
    · have htwo : (2 : UInt16).toNat = 2 := rfl
      have hsum : range.start.toNat + forward.toNat / 2 < 2 ^ 16 := by
        simp only [UInt8.size] at hstart hforward
        omega
      rw [UInt8.toNat_mod, UInt16.toNat_toUInt8, UInt16.toNat_add, UInt16.toNat_div,
        UInt8.toNat_toUInt16, UInt8.toNat_toUInt16, htwo, Nat.mod_eq_of_lt hsum, raw,
        if_pos (hle.1 hc), hfv, WrappedRange.forward]
  · refine ⟨(range.start - backward / 2) % range.modulus, ?_, ?_⟩
    · rw [if_neg hc, checkedRem, if_neg hne]
    · have htwo : (2 : UInt8).toNat = 2 := rfl
      rw [UInt8.toNat_mod, UInt8.toNat_sub, UInt8.toNat_div, htwo, raw,
        if_neg (fun hn => hc (hle.2 hn)), hbv, WrappedRange.backward]

/-- Half the way forward and half the way back fall short of the octet range by a multiple of
the ring only if the ring divides 513. -/
theorem dvd_wrapped_iff {f b : Nat} (hb : 0 < b) (hlt : b < f) (hsmall : f + b < 256) :
    f + b ∣ 256 - (f / 2 + b / 2) ↔ f + b ∣ 513 := by
  by_cases hodd : (f + b) % 2 = 1
  · have hcoprime : Nat.Coprime (f + b) 2 := by
      rw [Nat.coprime_two_right, Nat.odd_iff]
      exact hodd
    have htwice : 2 * (256 - (f / 2 + b / 2)) + (f + b) = 513 := by omega
    rw [← hcoprime.dvd_mul_left, ← htwice]
    exact (Nat.dvd_add_left (Nat.dvd_refl _)).symm
  · constructor
    · rintro ⟨k, hk⟩
      exfalso
      -- An even ring: `2k + 1` is an odd divisor of 512 or of 514.
      by_cases heven : f % 2 = 0
      · have hprod : (f / 2 + b / 2) * (2 * k + 1) = 2 ^ 8 := by
          have hring : f + b = 2 * (f / 2 + b / 2) := by omega
          rw [hring] at hk
          have : (f / 2 + b / 2) * (2 * k + 1) =
              2 * (f / 2 + b / 2) * k + (f / 2 + b / 2) := by ring
          omega
        have hcoprime : Nat.Coprime (2 * k + 1) (2 ^ 8) := by
          apply Nat.Coprime.pow_right
          rw [Nat.coprime_two_right, Nat.odd_iff]
          omega
        have hone : 2 * k + 1 = 1 :=
          hcoprime.eq_one_of_dvd (Dvd.intro_left _ hprod)
        rw [hone] at hprod
        omega
      · have hprod : (f / 2 + b / 2 + 1) * (2 * k + 1) = 257 := by
          have hring : f + b = 2 * (f / 2 + b / 2 + 1) := by omega
          rw [hring] at hk
          have : (f / 2 + b / 2 + 1) * (2 * k + 1) =
              2 * (f / 2 + b / 2 + 1) * k + (f / 2 + b / 2 + 1) := by ring
          omega
        have hprime : Nat.Prime 257 := by norm_num
        obtain hone | hall := (Nat.dvd_prime hprime).1 (Dvd.intro _ hprod)
        · omega
        · omega
    · rintro ⟨k, hk⟩
      have hprod : (f + b) * k % 2 = 0 := by
        rw [Nat.mul_mod, show (f + b) % 2 = 0 by omega, Nat.zero_mul]
      omega

theorem le_half_of_dvd_256 {n : Nat} (hlt : n < 256) (hdvd : n ∣ 256) : n ≤ 128 := by
  obtain ⟨k, hk⟩ := hdvd
  have htwo : 2 ≤ k := by
    by_contra hsmall
    have hcases : k = 0 ∨ k = 1 := by omega
    rcases hcases with hzero | hone
    · rw [hzero] at hk
      omega
    · rw [hone] at hk
      omega
  have hmul := Nat.mul_le_mul_left n htwo
  omega

theorem Valid.midpoint_spec (h : range.Valid) :
    ∃ m, range.midpoint = some m ∧ m.toNat < range.modulus.toNat ∧
      (arc range.modulus.toNat range.start.toNat m.toNat = range.forward / 2 ↔ range.Halved) := by
  obtain ⟨m, hm, hmv⟩ := h.midpoint_eq
  have hstart := h.start_lt
  have hmod : range.modulus.toNat < 256 := range.modulus.toNat_lt_size
  have hforward : range.forward < range.modulus.toNat := arc_lt hstart h.stop_lt
  have hhalf : range.forward / 2 < range.modulus.toNat := by omega
  refine ⟨m, hm, by rw [hmv]; exact Nat.mod_lt _ (by omega), ?_⟩
  rw [hmv, arc_mod_eq_iff hstart hhalf, raw, Halved]
  by_cases hc : range.forward ≤ range.backward
  · rw [if_pos hc]
    by_cases hfit : range.start.toNat + range.forward / 2 < 256
    · rw [Nat.mod_eq_of_lt hfit]
      exact iff_of_true rfl (Or.inl ⟨hc, hfit⟩)
    · -- Cut to an octet the sum is off by 256, which no ring that reaches so far divides.
      refine iff_of_false ?_ (by omega)
      have hcut : (range.start.toNat + range.forward / 2) % 256 =
          range.start.toNat + range.forward / 2 - 256 := by omega
      rw [hcut]
      intro hmodEq
      have hdvd := (Nat.modEq_iff_dvd' (Nat.sub_le _ _)).1 hmodEq.symm
      have hdiff : range.start.toNat + range.forward / 2 -
          (range.start.toNat + range.forward / 2 - 256) = 256 := by omega
      rw [hdiff] at hdvd
      have hring : range.forward + range.backward ≤ range.modulus.toNat := by
        by_cases hne : range.start.toNat = range.stop.toNat
        · rw [forward, backward, hne, arc_self]
          exact Nat.zero_le _
        · exact Nat.le_of_eq (arc_add_arc h.start_lt h.stop_lt hne)
      have hshort := le_half_of_dvd_256 hmod hdvd
      omega
  · have hlt : range.backward < range.forward := Nat.lt_of_not_le hc
    have hne : range.start.toNat ≠ range.stop.toNat := by
      intro he
      rw [forward, he, arc_self] at hlt
      exact absurd hlt (Nat.not_lt_zero _)
    have hring : range.forward + range.backward = range.modulus.toNat :=
      arc_add_arc h.start_lt h.stop_lt hne
    have hpos : 0 < range.backward := by omega
    rw [if_neg hc]
    by_cases hwrap : range.start.toNat < range.backward / 2
    · have hcut : (256 - range.backward / 2 + range.start.toNat) % 256 =
          256 - range.backward / 2 + range.start.toNat := by omega
      have hdiff : 256 - range.backward / 2 + range.start.toNat -
          (range.start.toNat + range.forward / 2) =
            256 - (range.forward / 2 + range.backward / 2) := by omega
      rw [hcut, Nat.modEq_iff_dvd' (by omega), hdiff, ← hring,
        dvd_wrapped_iff hpos hlt (by omega)]
      constructor
      · intro hdvd
        exact Or.inr ⟨hlt, hwrap, hdvd⟩
      · intro hor
        rcases hor with hshort | hlong
        · exact absurd hshort.1 hc
        · exact hlong.2.2
    · -- The middle of the way back is nearer than half the range and does not meet it.
      refine iff_of_false ?_ (by omega)
      have hcut : (256 - range.backward / 2 + range.start.toNat) % 256 =
          range.start.toNat - range.backward / 2 := by omega
      rw [hcut]
      intro hmodEq
      have hdvd := (Nat.modEq_iff_dvd' (by omega)).1 hmodEq.symm
      have hle := Nat.le_of_dvd (by omega) hdvd
      omega

end WrappedRange

structure Aoi where
  upperLeft : Point
  lowerRight : Point
  deriving DecidableEq, Repr

namespace Aoi

def yRange (aoi : Aoi) (torus : Torus) : WrappedRange :=
  ⟨aoi.upperLeft.orb, aoi.lowerRight.orb, torus.numOrbs⟩

def xRange (aoi : Aoi) (torus : Torus) : WrappedRange :=
  ⟨aoi.upperLeft.sat, aoi.lowerRight.sat, torus.numSats⟩

def center (aoi : Aoi) (torus : Torus) : Option Point :=
  (aoi.yRange torus).midpoint.bind fun orb =>
    (aoi.xRange torus).midpoint.map fun sat => ⟨orb, sat⟩

def contains (aoi : Aoi) (torus : Torus) (point : Point) : Bool :=
  (aoi.yRange torus).contains point.orb && (aoi.xRange torus).contains point.sat

def width (aoi : Aoi) (torus : Torus) : Option UInt8 := (aoi.xRange torus).span

def height (aoi : Aoi) (torus : Torus) : Option UInt8 := (aoi.yRange torus).span

/-- The corners are satellites of the grid. -/
def Valid (aoi : Aoi) (torus : Torus) : Prop :=
  torus.Contains aoi.upperLeft ∧ torus.Contains aoi.lowerRight

instance (aoi : Aoi) (torus : Torus) : Decidable (aoi.Valid torus) :=
  inferInstanceAs (Decidable (_ ∧ _))

/-- The satellites of the grid that lie in the area. -/
def cells (aoi : Aoi) (torus : Torus) : Finset (Nat × Nat) :=
  (Finset.range torus.numOrbs.toNat ×ˢ Finset.range torus.numSats.toNat).filter fun cell =>
    aoi.contains torus ⟨UInt8.ofNat cell.1, UInt8.ofNat cell.2⟩ = true

/-- The sides, the members and the middle of an area fit together. -/
def Consistent (aoi : Aoi) (torus : Torus) : Prop :=
  ∃ width height center, aoi.width torus = some width ∧ aoi.height torus = some height ∧
    aoi.center torus = some center ∧
    (aoi.cells torus).card = width.toNat * height.toNat ∧
    torus.Contains center ∧ aoi.contains torus center = true ∧
    arc torus.numOrbs.toNat aoi.upperLeft.orb.toNat center.orb.toNat = (height.toNat - 1) / 2 ∧
    arc torus.numSats.toNat aoi.upperLeft.sat.toNat center.sat.toNat = (width.toNat - 1) / 2

variable {aoi : Aoi} {torus : Torus}

theorem Valid.yRange (h : aoi.Valid torus) : (aoi.yRange torus).Valid := ⟨h.1.1, h.2.1⟩

theorem Valid.xRange (h : aoi.Valid torus) : (aoi.xRange torus).Valid := ⟨h.1.2, h.2.2⟩

theorem cells_eq (aoi : Aoi) (torus : Torus) :
    aoi.cells torus =
      (Finset.range torus.numOrbs.toNat).filter
          (Within aoi.upperLeft.orb.toNat aoi.lowerRight.orb.toNat) ×ˢ
        (Finset.range torus.numSats.toNat).filter
          (Within aoi.upperLeft.sat.toNat aoi.lowerRight.sat.toNat) := by
  have hvalue : ∀ {n : UInt8} {i : Nat}, i < n.toNat → (UInt8.ofNat i).toNat = i := by
    intro n i hi
    have hn := n.toNat_lt_size
    rw [UInt8.toNat_ofNat']
    exact Nat.mod_eq_of_lt (Nat.lt_trans hi hn)
  ext cell
  simp only [cells, Finset.mem_filter, Finset.mem_product, Finset.mem_range, contains,
    Bool.and_eq_true, WrappedRange.contains_iff]
  constructor
  · intro h
    obtain ⟨⟨horb, hsat⟩, hy, hx⟩ := h
    rw [hvalue horb] at hy
    rw [hvalue hsat] at hx
    exact ⟨⟨horb, hy⟩, hsat, hx⟩
  · intro h
    obtain ⟨⟨horb, hy⟩, hsat, hx⟩ := h
    rw [hvalue horb, hvalue hsat]
    exact ⟨⟨horb, hsat⟩, hy, hx⟩

theorem Valid.card_cells (h : aoi.Valid torus) :
    (aoi.cells torus).card =
      ((aoi.yRange torus).forward + 1) * ((aoi.xRange torus).forward + 1) := by
  rw [cells_eq, Finset.card_product, card_within h.1.1 h.2.1, card_within h.1.2 h.2.2]
  rfl

theorem contains_of_halfway {range : WrappedRange} (h : range.Valid) {m : UInt8}
    (hm : m.toNat < range.modulus.toNat)
    (hhalf : arc range.modulus.toNat range.start.toNat m.toNat = range.forward / 2) :
    range.contains m = true := by
  rw [WrappedRange.contains_iff, within_iff h.start_lt h.stop_lt hm, hhalf]
  exact Nat.div_le_self _ 2

/-- An area has its middle in the middle just when both of its ranges do. -/
theorem consistent_iff_halved (h : aoi.Valid torus) :
    aoi.Consistent torus ↔ (aoi.yRange torus).Halved ∧ (aoi.xRange torus).Halved := by
  obtain ⟨height, hheight, hheightv⟩ := h.yRange.span_eq
  obtain ⟨width, hwidth, hwidthv⟩ := h.xRange.span_eq
  obtain ⟨orb, horb, horbLt, horbIff⟩ := h.yRange.midpoint_spec
  obtain ⟨sat, hsat, hsatLt, hsatIff⟩ := h.xRange.midpoint_spec
  have hcenter : aoi.center torus = some ⟨orb, sat⟩ := by
    rw [center, horb, Option.bind_some, hsat, Option.map_some]
  have hh : (height.toNat - 1) / 2 = (aoi.yRange torus).forward / 2 := by
    rw [hheightv, Nat.add_sub_cancel]
  have hw : (width.toNat - 1) / 2 = (aoi.xRange torus).forward / 2 := by
    rw [hwidthv, Nat.add_sub_cancel]
  rw [← horbIff, ← hsatIff]
  constructor
  · intro hconsistent
    obtain ⟨width', height', center', hw', hh', hc', -, -, -, hy, hx⟩ := hconsistent
    have hwidthEq : width' = width := Option.some.inj (hw'.symm.trans hwidth)
    have hheightEq : height' = height := Option.some.inj (hh'.symm.trans hheight)
    have hcenterEq : center' = ⟨orb, sat⟩ := Option.some.inj (hc'.symm.trans hcenter)
    rw [hcenterEq, hheightEq, hh] at hy
    rw [hcenterEq, hwidthEq, hw] at hx
    exact ⟨hy, hx⟩
  · intro hhalves
    refine ⟨width, height, ⟨orb, sat⟩, hwidth, hheight, hcenter, ?_, ⟨horbLt, hsatLt⟩, ?_, ?_, ?_⟩
    · rw [h.card_cells, hwidthv, hheightv, Nat.mul_comm]
    · rw [contains, contains_of_halfway h.yRange horbLt hhalves.1,
        contains_of_halfway h.xRange hsatLt hhalves.2, Bool.and_self]
    · rw [hh]
      exact hhalves.1
    · rw [hw]
      exact hhalves.2

theorem consistent_iff_halved_wrapping_three :
    (Aoi.mk ⟨6, 6⟩ ⟨2, 2⟩).Consistent ⟨8, 8⟩ ↔
      (WrappedRange.mk 6 2 8).Halved ∧ (WrappedRange.mk 6 2 8).Halved :=
  consistent_iff_halved (by decide)

/-- Seven of eight orbits: the middle is sought in the orbit that is left out. -/
theorem not_consistent_long :
    ¬ ∀ (torus : Torus) (aoi : Aoi), aoi.Valid torus → aoi.Consistent torus := by
  intro hall
  obtain ⟨width, height, center, -, -, hcenter, -, -, hin, -⟩ :=
    hall ⟨8, 8⟩ ⟨⟨1, 1⟩, ⟨7, 7⟩⟩ (by decide)
  have hvalue : center = ⟨0, 0⟩ := Option.some.inj (hcenter.symm.trans (by decide))
  rw [hvalue] at hin
  exact absurd hin (by decide)

end Aoi

end Isl
end Leodos
