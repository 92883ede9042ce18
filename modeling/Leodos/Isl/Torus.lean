/-
The grid of satellites, `network/isl/torus.rs`.

Orbits and satellites in an orbit both wrap around.  Octet arithmetic that leaves its
range gives `none`.  The distance that the routing results speak of is the shorter way
round each ring, summed over the two rings.
-/
import Leodos.Bits.Field
import Leodos.Circle.Gap
import Leodos.Isl.Address

namespace Leodos
namespace Isl

open Bits

inductive Direction where
  | north
  | south
  | east
  | west
  deriving DecidableEq, Repr

inductive Hop where
  | isl (direction : Direction)
  | ground
  | localHop
  deriving DecidableEq, Repr

structure Torus where
  numOrbs : UInt8
  numSats : UInt8
  deriving DecidableEq, Repr

namespace Torus

def next (index modulus : UInt8) : Option UInt8 :=
  (checkedSub modulus 1).bind fun last => if index = last then some 0 else checkedAdd index 1

def prev (index modulus : UInt8) : Option UInt8 :=
  if index = 0 then checkedSub modulus 1 else checkedSub index 1

/-- The distance forward from `start` to `goal`. -/
def distance (start goal modulus : UInt8) : Option UInt8 :=
  if start ≤ goal then checkedSub goal start
  else (checkedSub modulus start).bind fun rest => checkedAdd rest goal

def neighbor (torus : Torus) (point : Point) : Direction → Option Point
  | .north => (prev point.sat torus.numSats).map fun sat => ⟨point.orb, sat⟩
  | .south => (next point.sat torus.numSats).map fun sat => ⟨point.orb, sat⟩
  | .east => (next point.orb torus.numOrbs).map fun orb => ⟨orb, point.sat⟩
  | .west => (prev point.orb torus.numOrbs).map fun orb => ⟨orb, point.sat⟩

def nextOrb (torus : Torus) (point : Point) : Option UInt8 := next point.orb torus.numOrbs

def prevOrb (torus : Torus) (point : Point) : Option UInt8 := prev point.orb torus.numOrbs

def distanceOrb (torus : Torus) (start goal : Point) : Option UInt8 :=
  distance start.orb goal.orb torus.numOrbs

def distanceSat (torus : Torus) (start goal : Point) : Option UInt8 :=
  distance start.sat goal.sat torus.numSats

def directionToSat (torus : Torus) (start goal : Point) : Option Direction :=
  (torus.distanceSat goal start).bind fun northDist =>
    (torus.distanceSat start goal).map fun southDist =>
      if northDist < southDist then .north else .south

def directionToOrb (torus : Torus) (start goal : Point) : Option Direction :=
  (torus.distanceOrb goal start).bind fun westDist =>
    (torus.distanceOrb start goal).map fun eastDist =>
      if westDist < eastDist then .west else .east

/-- The point names a satellite of the grid. -/
def Contains (torus : Torus) (point : Point) : Prop :=
  point.orb.toNat < torus.numOrbs.toNat ∧ point.sat.toNat < torus.numSats.toNat

instance (torus : Torus) (point : Point) : Decidable (torus.Contains point) :=
  inferInstanceAs (Decidable (_ ∧ _))

/-- Hops that a packet needs from one satellite to another. -/
def hops (torus : Torus) (start goal : Point) : Nat :=
  Circle.gap torus.numOrbs.toNat start.orb.toNat goal.orb.toNat +
    Circle.gap torus.numSats.toNat start.sat.toNat goal.sat.toNat

/-! ## Indices inside a ring -/

theorem next_eq {index modulus : UInt8} (h : index.toNat < modulus.toNat) :
    ∃ r, next index modulus = some r ∧ r.toNat = Circle.succ modulus.toNat index.toNat := by
  have hone : (1 : UInt8).toNat = 1 := rfl
  have hlast : checkedSub modulus 1 = some (modulus - 1) := if_pos (by omega)
  have hsub : (modulus - 1).toNat = modulus.toNat - 1 := toNat_sub_of_le (by omega)
  rw [next, hlast, Option.bind_some, Circle.succ]
  by_cases hi : index = modulus - 1
  · refine ⟨0, if_pos hi, ?_⟩
    rw [if_pos (by rw [hi, hsub]; omega)]
    rfl
  · have hne : index.toNat ≠ modulus.toNat - 1 :=
      fun he => hi (UInt8.toNat_inj.1 (he.trans hsub.symm))
    have hmod := modulus.toNat_lt_size
    refine ⟨index + 1, ?_, ?_⟩
    · rw [if_neg hi, checkedAdd, if_pos (by omega)]
    · rw [if_neg (by omega), toNat_add_of_lt (by omega), hone]

theorem prev_eq {index modulus : UInt8} (h : index.toNat < modulus.toNat) :
    ∃ r, prev index modulus = some r ∧ r.toNat = Circle.pred modulus.toNat index.toNat := by
  have hone : (1 : UInt8).toNat = 1 := rfl
  have hzero : index = 0 ↔ index.toNat = 0 := UInt8.toNat_inj.symm
  rw [prev, Circle.pred]
  by_cases hi : index = 0
  · refine ⟨modulus - 1, ?_, ?_⟩
    · rw [if_pos hi, checkedSub, if_pos (by omega)]
    · rw [if_pos (hzero.1 hi), toNat_sub_of_le (by omega), hone]
  · have hpos : index.toNat ≠ 0 := fun he => hi (hzero.2 he)
    refine ⟨index - 1, ?_, ?_⟩
    · rw [if_neg hi, checkedSub, if_pos (by omega)]
    · rw [if_neg hpos, toNat_sub_of_le (by omega), hone]

theorem distance_eq {start modulus : UInt8} (hs : start.toNat < modulus.toNat) (goal : UInt8) :
    ∃ r, distance start goal modulus = some r ∧
      r.toNat = Circle.arc modulus.toNat start.toNat goal.toNat := by
  have hle : start ≤ goal ↔ start.toNat ≤ goal.toNat := UInt8.le_iff_toNat_le
  rw [distance, Circle.arc]
  by_cases h : start ≤ goal
  · refine ⟨goal - start, ?_, ?_⟩
    · rw [if_pos h, checkedSub, if_pos (hle.1 h)]
    · rw [if_pos (hle.1 h), toNat_sub_of_le (hle.1 h)]
  · have hlt : goal.toNat < start.toNat := Nat.lt_of_not_le fun hn => h (hle.2 hn)
    have hsub : (modulus - start).toNat = modulus.toNat - start.toNat :=
      toNat_sub_of_le (Nat.le_of_lt hs)
    have hmod := modulus.toNat_lt_size
    have hsum : (modulus - start).toNat + goal.toNat < UInt8.size := by omega
    refine ⟨modulus - start + goal, ?_, ?_⟩
    · rw [if_neg h, checkedSub, if_pos (Nat.le_of_lt hs), Option.bind_some, checkedAdd, if_pos hsum]
    · rw [if_neg (Nat.not_le_of_lt hlt), toNat_add_of_lt hsum, hsub]

theorem shorter_way {start goal modulus : UInt8} (hs : start.toNat < modulus.toNat)
    (hg : goal.toNat < modulus.toNat) (hne : start ≠ goal) :
    ∃ back forward, distance goal start modulus = some back ∧
      distance start goal modulus = some forward ∧
      ∃ q, (if back < forward then prev start modulus else next start modulus) = some q ∧
        q.toNat < modulus.toNat ∧
        Circle.gap modulus.toNat q.toNat goal.toNat + 1 =
          Circle.gap modulus.toNat start.toNat goal.toNat := by
  obtain ⟨back, hb, hbv⟩ := distance_eq hg start
  obtain ⟨forward, hf, hfv⟩ := distance_eq hs goal
  have hne' : start.toNat ≠ goal.toNat := fun he => hne (UInt8.toNat_inj.1 he)
  refine ⟨back, forward, hb, hf, ?_⟩
  by_cases hlt : back < forward
  · have harc := UInt8.lt_iff_toNat_lt.1 hlt
    rw [hbv, hfv] at harc
    obtain ⟨q, hq, hqv⟩ := prev_eq hs
    refine ⟨q, by rw [if_pos hlt, hq], ?_⟩
    rw [hqv]
    exact ⟨Circle.pred_lt hs, Circle.gap_pred hs hg harc⟩
  · have harc := Nat.le_of_not_lt fun hn => hlt (UInt8.lt_iff_toNat_lt.2 hn)
    rw [hbv, hfv] at harc
    obtain ⟨q, hq, hqv⟩ := next_eq hs
    refine ⟨q, by rw [if_neg hlt, hq], ?_⟩
    rw [hqv]
    exact ⟨Circle.succ_lt hs, Circle.gap_succ hs hg hne' harc⟩

/-! ## One hop -/

variable {torus : Torus} {point goal : Point}

theorem neighbor_contains (h : torus.Contains point) (direction : Direction) :
    ∃ q, torus.neighbor point direction = some q ∧ torus.Contains q := by
  obtain ⟨prevSat, hps, hpsv⟩ := prev_eq h.2
  obtain ⟨nextSat, hns, hnsv⟩ := next_eq h.2
  obtain ⟨prevOrb, hpo, hpov⟩ := prev_eq h.1
  obtain ⟨nextOrb, hno, hnov⟩ := next_eq h.1
  have hpred := Circle.pred_lt h.2
  have hsucc := Circle.succ_lt h.2
  have hpredOrb := Circle.pred_lt h.1
  have hsuccOrb := Circle.succ_lt h.1
  rw [← hpsv] at hpred
  rw [← hnsv] at hsucc
  rw [← hpov] at hpredOrb
  rw [← hnov] at hsuccOrb
  cases direction with
  | north => exact ⟨⟨point.orb, prevSat⟩, by rw [neighbor, hps, Option.map_some], h.1, hpred⟩
  | south => exact ⟨⟨point.orb, nextSat⟩, by rw [neighbor, hns, Option.map_some], h.1, hsucc⟩
  | east => exact ⟨⟨nextOrb, point.sat⟩, by rw [neighbor, hno, Option.map_some], hsuccOrb, h.2⟩
  | west => exact ⟨⟨prevOrb, point.sat⟩, by rw [neighbor, hpo, Option.map_some], hpredOrb, h.2⟩

/-- The hop leads to a satellite that is one hop closer. -/
def Approaches (torus : Torus) (point goal : Point) (direction : Direction) : Prop :=
  ∃ q, torus.neighbor point direction = some q ∧ torus.Contains q ∧
    torus.hops q goal + 1 = torus.hops point goal

theorem directionToSat_approaches (hp : torus.Contains point) (hg : torus.Contains goal)
    (hne : point.sat ≠ goal.sat) :
    ∃ direction, torus.directionToSat point goal = some direction ∧
      torus.Approaches point goal direction := by
  obtain ⟨north, south, hn, hs, q, hq, hlt, hgap⟩ := shorter_way hp.2 hg.2 hne
  have hhops : torus.hops ⟨point.orb, q⟩ goal + 1 = torus.hops point goal := by
    simp only [hops]
    omega
  rw [directionToSat, distanceSat, distanceSat, hn, hs, Option.bind_some, Option.map_some]
  refine ⟨_, rfl, ⟨point.orb, q⟩, ?_, ⟨hp.1, hlt⟩, hhops⟩
  by_cases hc : north < south
  · rw [if_pos hc] at hq ⊢
    rw [neighbor, hq, Option.map_some]
  · rw [if_neg hc] at hq ⊢
    rw [neighbor, hq, Option.map_some]

theorem directionToOrb_approaches (hp : torus.Contains point) (hg : torus.Contains goal)
    (hne : point.orb ≠ goal.orb) :
    ∃ direction, torus.directionToOrb point goal = some direction ∧
      torus.Approaches point goal direction := by
  obtain ⟨west, east, hw, he, q, hq, hlt, hgap⟩ := shorter_way hp.1 hg.1 hne
  have hhops : torus.hops ⟨q, point.sat⟩ goal + 1 = torus.hops point goal := by
    simp only [hops]
    omega
  rw [directionToOrb, distanceOrb, distanceOrb, hw, he, Option.bind_some, Option.map_some]
  refine ⟨_, rfl, ⟨q, point.sat⟩, ?_, ⟨hlt, hp.2⟩, hhops⟩
  by_cases hc : west < east
  · rw [if_pos hc] at hq ⊢
    rw [neighbor, hq, Option.map_some]
  · rw [if_neg hc] at hq ⊢
    rw [neighbor, hq, Option.map_some]

theorem hops_eq_zero (hp : torus.Contains point) (hg : torus.Contains goal) :
    torus.hops point goal = 0 ↔ point = goal := by
  constructor
  · intro h
    have horb := Circle.gap_eq_zero hp.1 hg.1 (Nat.eq_zero_of_add_eq_zero_right h)
    have hsat := Circle.gap_eq_zero hp.2 hg.2 (Nat.eq_zero_of_add_eq_zero_left h)
    cases point
    cases goal
    rw [Point.mk.injEq]
    exact ⟨UInt8.toNat_inj.1 horb, UInt8.toNat_inj.1 hsat⟩
  · intro h
    rw [h, hops, Circle.gap_self, Circle.gap_self]

end Torus

end Isl
end Leodos
