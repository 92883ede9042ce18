/-
Next-hop decisions, `network/isl/routing/algorithm`.

A target is resolved to the satellite where packets for it leave the network.  A packet
whose target resolves to a satellite of the torus comes one hop closer at each node; one
whose target resolves outside it is never handed over.
-/
import Mathlib.Data.Set.Basic
import Leodos.Isl.Telecommand
import Leodos.Isl.Torus
import Leodos.Transition.Walk

namespace Leodos
namespace Isl

open Transition

/-- The satellite that sees a station at a time, if one does.  The line-of-sight
computation is in floating point and stands outside the model. -/
abbrev Gateway := UInt8 → UInt32 → Option Point

def resolve (gateway : Gateway) (target : Address) (timeS : UInt32) : Point × Hop :=
  match target with
  | .satellite point => (point, .localHop)
  | .ground station => ((gateway station timeS).getD ⟨0, station⟩, .ground)

namespace Manhattan

def routeToPoint (torus : Torus) (current target : Point) : Option Direction :=
  if current.orb ≠ target.orb then torus.directionToOrb current target
  else torus.directionToSat current target

def route (torus : Torus) (gateway : Gateway) (current : Point) (target : Address)
    (timeS : UInt32) : Option Hop :=
  let (targetPoint, finalHop) := resolve gateway target timeS
  if current = targetPoint then some finalHop
  else (routeToPoint torus current targetPoint).map .isl

end Manhattan

/-- Whether the cross-plane factor of the first orbit is below that of the second at a
time: a floating-point comparison, taken as an oracle. -/
abbrev CrossPlane := UInt8 → UInt8 → UInt32 → Bool

namespace DistanceMinimizing

def routeToPoint (torus : Torus) (closer : CrossPlane) (current target : Point)
    (timeS : UInt32) : Option Direction :=
  if current.orb = target.orb then torus.directionToSat current target
  else if current.sat = target.sat then torus.directionToOrb current target
  else
    (torus.directionToOrb current target).bind fun vDir =>
      (if vDir = .east then torus.nextOrb current else torus.prevOrb current).bind fun towardOrb =>
        if closer towardOrb current.orb timeS then some vDir
        else torus.directionToSat current target

def route (torus : Torus) (gateway : Gateway) (closer : CrossPlane) (current : Point)
    (target : Address) (timeS : UInt32) : Option Hop :=
  let (targetPoint, finalHop) := resolve gateway target timeS
  if current = targetPoint then some finalHop
  else (routeToPoint torus closer current targetPoint timeS).map .isl

end DistanceMinimizing

inductive RoutingAlgorithm where
  | manhattan
  | distanceMinimizing (closer : CrossPlane)

namespace RoutingAlgorithm

def routeToPoint (torus : Torus) : RoutingAlgorithm → Point → Point → UInt32 → Option Direction
  | manhattan, current, target, _ => Manhattan.routeToPoint torus current target
  | distanceMinimizing closer, current, target, timeS =>
    DistanceMinimizing.routeToPoint torus closer current target timeS

def route (torus : Torus) (gateway : Gateway) :
    RoutingAlgorithm → Point → Address → UInt32 → Option Hop
  | manhattan => Manhattan.route torus gateway
  | distanceMinimizing closer => DistanceMinimizing.route torus gateway closer

theorem route_eq (torus : Torus) (gateway : Gateway) (algorithm : RoutingAlgorithm)
    (current : Point) (target : Address) (timeS : UInt32) :
    algorithm.route torus gateway current target timeS =
      if current = (resolve gateway target timeS).1 then some (resolve gateway target timeS).2
      else (algorithm.routeToPoint torus current (resolve gateway target timeS).1 timeS).map
        .isl := by
  cases algorithm <;> rfl

theorem routeToPoint_approaches {torus : Torus} (algorithm : RoutingAlgorithm)
    {current goal : Point} (hc : torus.Contains current) (hg : torus.Contains goal)
    (hne : current ≠ goal) (timeS : UInt32) :
    ∃ direction, algorithm.routeToPoint torus current goal timeS = some direction ∧
      torus.Approaches current goal direction := by
  have hsat : current.orb = goal.orb → current.sat ≠ goal.sat := by
    intro horb hsat
    cases current
    cases goal
    exact hne (by rw [Point.mk.injEq]; exact ⟨horb, hsat⟩)
  cases algorithm with
  | manhattan =>
    show ∃ direction, Manhattan.routeToPoint torus current goal = some direction ∧ _
    rw [Manhattan.routeToPoint]
    by_cases horb : current.orb = goal.orb
    · rw [if_neg (fun h => h horb)]
      exact Torus.directionToSat_approaches hc hg (hsat horb)
    · rw [if_pos horb]
      exact Torus.directionToOrb_approaches hc hg horb
  | distanceMinimizing closer =>
    show ∃ direction, DistanceMinimizing.routeToPoint torus closer current goal timeS =
      some direction ∧ _
    rw [DistanceMinimizing.routeToPoint]
    by_cases horb : current.orb = goal.orb
    · rw [if_pos horb]
      exact Torus.directionToSat_approaches hc hg (hsat horb)
    · rw [if_neg horb]
      obtain ⟨vDir, hv, happ⟩ := Torus.directionToOrb_approaches hc hg horb
      by_cases heq : current.sat = goal.sat
      · rw [if_pos heq]
        exact ⟨vDir, hv, happ⟩
      · rw [if_neg heq, hv, Option.bind_some]
        obtain ⟨after, ha, -⟩ := Torus.next_eq hc.1
        obtain ⟨before, hb, -⟩ := Torus.prev_eq hc.1
        have htoward : ∃ towardOrb, (if vDir = .east then torus.nextOrb current
            else torus.prevOrb current) = some towardOrb := by
          by_cases heast : vDir = .east
          · exact ⟨after, by rw [if_pos heast]; exact ha⟩
          · exact ⟨before, by rw [if_neg heast]; exact hb⟩
        obtain ⟨towardOrb, ht⟩ := htoward
        rw [ht, Option.bind_some]
        by_cases hcloser : closer towardOrb current.orb timeS = true
        · rw [if_pos hcloser]
          exact ⟨vDir, rfl, happ⟩
        · rw [if_neg hcloser]
          exact Torus.directionToSat_approaches hc hg heq

end RoutingAlgorithm

/-! ## Walks -/

/-- What happens to a packet at a satellite after its routing decision. -/
def Torus.move (torus : Torus) (point : Point) : Option Hop → Option (Move Point Hop)
  | none => none
  | some (.isl direction) => (torus.neighbor point direction).map .onward
  | some .ground => some (.leave .ground)
  | some .localHop => some (.leave .localHop)

/-- The decisions that a packet meets: the algorithm and the reading of the clock at each
hop. -/
def decisions (torus : Torus) (gateway : Gateway) (algorithms : Nat → RoutingAlgorithm)
    (times : Nat → UInt32) (target : Address) : Nat → Point → Option (Move Point Hop) :=
  fun k point =>
    torus.move point ((algorithms k).route torus gateway point target (times k))

/-- What a satellite that runs the Manhattan algorithm does with the octets it received.
It drops what is no routable telecommand. -/
def routePacket (torus : Torus) (gateway : Gateway) (bytes : Spp.Bytes) (timeS : UInt32)
    (point : Point) : Option (Move Point (Option Hop)) :=
  match IslRoutingTelecommand.parse bytes with
  | .error _ => some (.leave none)
  | .ok packet =>
    (torus.move point (Manhattan.route torus gateway point packet.target timeS)).map
      (Move.map some)

variable {torus : Torus} {gateway : Gateway} {algorithms : Nat → RoutingAlgorithm}
  {times : Nat → UInt32} {target : Address}

/-- The decisions where every satellite has its own clock. -/
def clockDecisions (torus : Torus) (gateway : Gateway) (algorithms : Nat → RoutingAlgorithm)
    (clocks : Nat → Point → UInt32) (target : Address) : Nat → Point → Option (Move Point Hop) :=
  fun k point => decisions torus gateway algorithms (fun i => clocks i point) target k point

theorem routePacket_ok {bytes : Spp.Bytes} {packet : IslRoutingTelecommand}
    (h : IslRoutingTelecommand.parse bytes = .ok packet) (clocks : Nat → Point → UInt32) :
    (fun k point => routePacket torus gateway bytes (clocks k point) point) = fun k point =>
      (clockDecisions torus gateway (fun _ => .manhattan) clocks packet.target k point).map
        (Move.map some) := by
  funext k point
  rw [routePacket, h]
  rfl

theorem resolve_hop (gateway : Gateway) (target : Address) (timeS : UInt32) (point : Point) :
    torus.move point (some (resolve gateway target timeS).2) =
      some (.leave (resolve gateway target timeS).2) := by
  cases target <;> rfl

theorem decisions_at {k : Nat} {point : Point}
    (h : point = (resolve gateway target (times k)).1) :
    decisions torus gateway algorithms times target k point =
      some (.leave (resolve gateway target (times k)).2) := by
  rw [decisions, RoutingAlgorithm.route_eq, if_pos h, resolve_hop]

theorem decisions_toward {k : Nat} {point : Point} (hp : torus.Contains point)
    (hg : torus.Contains (resolve gateway target (times k)).1)
    (h : point ≠ (resolve gateway target (times k)).1) :
    ∃ q, decisions torus gateway algorithms times target k point = some (.onward q) ∧
      torus.Contains q ∧
      torus.hops q (resolve gateway target (times k)).1 + 1 =
        torus.hops point (resolve gateway target (times k)).1 := by
  obtain ⟨direction, hd, q, hq, hin, hlow⟩ :=
    (algorithms k).routeToPoint_approaches hp hg h (times k)
  refine ⟨q, ?_, hin, hlow⟩
  rw [decisions, RoutingAlgorithm.route_eq, if_neg h, hd, Option.map_some, Torus.move, hq,
    Option.map_some]

variable {clocks : Nat → Point → UInt32}

theorem decisions_descends {goal : Point} {hop : Hop}
    (hres : ∀ k point, resolve gateway target (clocks k point) = (goal, hop))
    (hg : torus.Contains goal) :
    Descends (clockDecisions torus gateway algorithms clocks target) torus.Contains
      (fun point => torus.hops point goal) hop where
  down := by
    intro k point hp hpos
    have hne : point ≠ (resolve gateway target (clocks k point)).1 := by
      rw [hres]
      exact fun h => hpos ((Torus.hops_eq_zero hp hg).2 h)
    have hgoal : torus.Contains (resolve gateway target (clocks k point)).1 := by
      rw [hres]
      exact hg
    obtain ⟨q, hq, hin, hlow⟩ :=
      @decisions_toward torus gateway algorithms (fun i => clocks i point) target k point
        hp hgoal hne
    rw [hres] at hlow
    exact ⟨q, hq, hin, hlow⟩
  out := by
    intro k point hp hzero
    have hgoal : point = (resolve gateway target (clocks k point)).1 := by
      rw [hres]
      exact (Torus.hops_eq_zero hp hg).1 hzero
    rw [clockDecisions, decisions_at hgoal, hres]

theorem decisions_confines
    (hres : ∀ k point, torus.Contains point → point ≠ (resolve gateway target (clocks k point)).1) :
    Confines (clockDecisions torus gateway algorithms clocks target) torus.Contains := by
  intro k point m hp hm
  rw [clockDecisions, decisions, RoutingAlgorithm.route_eq, if_neg (hres k point hp)] at hm
  cases hd : (algorithms k).routeToPoint torus point (resolve gateway target (clocks k point)).1
      (clocks k point) with
  | none =>
    rw [hd] at hm
    cases hm
  | some direction =>
    obtain ⟨q, hq, hin⟩ := Torus.neighbor_contains hp direction
    rw [hd, Option.map_some, Torus.move, hq, Option.map_some] at hm
    cases hm
    exact ⟨q, rfl, hin⟩

end Isl
end Leodos

/-
Where routed packets end up.

With an answer of the gateway table that does not change, a packet takes a shortest way
and is handed over there.  Satellites that read different times may see different gateways
of one station, and then pass its packets on to each other for ever.  Packets for a
satellite outside the torus, and for a station whose fallback satellite is outside it, are
never handed over.
-/

namespace Leodos
namespace Isl

open Transition

variable {torus : Torus}

/-- The packet takes a shortest way to a satellite, or reaches the ground. -/
def Delivers (torus : Torus) (decide : Nat → Point → Option (Move Point Hop)) (source : Point) :
    Address → Prop
  | .satellite goal =>
    (∀ k ≤ torus.hops source goal, ∃ point, walk decide source k = some (.at point) ∧
      torus.hops point goal + k = torus.hops source goal) ∧
    walk decide source (torus.hops source goal + 1) = some (.left .localHop goal)
  | .ground _ => ∃ k point, walk decide source k = some (.left .ground point)

/-- The packet is handed over or dropped at some satellite, and no decision on the way
fails. -/
def Leaves {ω : Type} (decide : Nat → Point → Option (Move Point ω)) (source : Point) : Prop :=
  ∃ k result point, walk decide source k = some (.left result point)

theorem leaves_map {ω ρ : Type} (f : ω → ρ) (decide : Nat → Point → Option (Move Point ω))
    (source : Point) :
    Leaves (fun k point => (decide k point).map (Move.map f)) source ↔ Leaves decide source := by
  constructor
  · intro h
    obtain ⟨k, result, point, hw⟩ := h
    rw [walk_map, Option.map_eq_some_iff] at hw
    obtain ⟨place, hplace, heq⟩ := hw
    cases place with
    | «at» node => cases heq
    | left r node => exact ⟨k, r, node, hplace⟩
  · intro h
    obtain ⟨k, result, point, hw⟩ := h
    exact ⟨k, f result, point, by rw [walk_map, hw]; rfl⟩

theorem not_leaves {decide : Nat → Point → Option (Move Point Hop)} {source : Point}
    (hs : torus.Contains source) (h : Confines decide torus.Contains) : ¬ Leaves decide source := by
  intro hl
  obtain ⟨k, hop, point, hw⟩ := hl
  obtain ⟨x, hx, -⟩ := h.walk_at hs hw
  cases hx

theorem contains_fallback {source : Point} (hs : torus.Contains source) (station : UInt8) :
    torus.Contains ⟨0, station⟩ ↔ station.toNat < torus.numSats.toNat :=
  ⟨fun h => h.2, fun h => ⟨Nat.lt_of_le_of_lt (Nat.zero_le _) hs.1, h⟩⟩

/-! ## A gateway that does not change -/

theorem delivered_iff {gateway : UInt8 → Option Point}
    (hgateway : ∀ station point, gateway station = some point → torus.Contains point)
    (algorithms : Nat → RoutingAlgorithm) (times : Nat → UInt32) {source : Point}
    (hs : torus.Contains source) {target : Address}
    (ht : ∀ point, target = .satellite point → torus.Contains point) :
    Delivers torus (decisions torus (fun station _ => gateway station) algorithms times target)
        source target ↔
      ∀ station, target = .ground station → gateway station = none →
        station.toNat < torus.numSats.toNat := by
  cases target with
  | satellite goal =>
    refine iff_of_true ?_ (fun station h => by cases h)
    have hdown : Descends (decisions torus (fun station _ => gateway station) algorithms times
        (.satellite goal)) torus.Contains (fun point => torus.hops point goal) .localHop :=
      @decisions_descends torus _ algorithms _ (fun k _ => times k) goal .localHop
        (fun _ _ => rfl) (ht goal rfl)
    refine ⟨fun k hk => ?_, ?_⟩
    · obtain ⟨point, hw, -, hr⟩ := hdown.walk_at hs hk
      exact ⟨point, hw, hr⟩
    · obtain ⟨point, hw, hp, hr⟩ := hdown.walk_left hs
      rw [hw, (Torus.hops_eq_zero hp (ht goal rfl)).1 hr]
  | ground station =>
    have hres : ∀ k, resolve (fun station _ => gateway station) (.ground station) (times k) =
        ((gateway station).getD ⟨0, station⟩, .ground) := fun _ => rfl
    constructor
    · intro h number hnumber hnone
      cases hnumber
      obtain ⟨k, point, hw⟩ := h
      refine Classical.byContradiction fun hout => ?_
      have hstays : Confines (decisions torus (fun station _ => gateway station) algorithms times
          (.ground station)) torus.Contains := by
        refine @decisions_confines torus _ algorithms _ (fun k _ => times k) fun k point hp he => ?_
        rw [hres, hnone] at he
        rw [he] at hp
        exact hout ((contains_fallback hs station).1 hp)
      exact not_leaves hs hstays ⟨k, .ground, point, hw⟩
    · intro h
      have hgoal : torus.Contains ((gateway station).getD ⟨0, station⟩) := by
        cases hg : gateway station with
        | some point => exact hgateway station point hg
        | none => exact (contains_fallback hs station).2 (h station rfl hg)
      obtain ⟨point, hw, -, -⟩ := (@decisions_descends torus _ algorithms _ (fun k _ => times k)
        _ _ (fun k _ => hres k) hgoal).walk_left hs
      exact ⟨_, point, hw⟩

/-- Station 2 of a torus of three by three that no satellite sees. -/
theorem delivers_unseen_station :
    Delivers ⟨3, 3⟩ (decisions ⟨3, 3⟩ (fun _ _ => none) (fun _ => .manhattan) (fun _ => 0)
      (.ground 2)) ⟨1, 0⟩ (.ground 2) :=
  (@delivered_iff ⟨3, 3⟩ (fun _ => none) (fun _ _ h => by cases h)
    (fun _ => .manhattan) (fun _ => 0) ⟨1, 0⟩ (by decide) (.ground 2) (fun _ h => by cases h)).2
    (fun _ h _ => by cases h; decide)

/-- Station 3 of the same torus has its fallback outside. -/
theorem station_outside_not_delivered :
    ¬ Delivers ⟨3, 3⟩ (decisions ⟨3, 3⟩ (fun _ _ => none) (fun _ => .manhattan) (fun _ => 0)
      (.ground 3)) ⟨0, 0⟩ (.ground 3) := by
  intro h
  obtain ⟨k, point, hw⟩ := h
  have hs : (⟨3, 3⟩ : Torus).Contains ⟨0, 0⟩ := by decide
  refine not_leaves hs (@decisions_confines _ _ _ _ (fun _ _ => 0) fun _ point hp he => ?_)
    ⟨k, .ground, point, hw⟩
  rw [he] at hp
  revert hp
  decide

/-! ## A gateway that follows the clocks -/

/-- The target names a satellite of the torus, or a station that resolves to one and the
same satellite of it at all readings. -/
def Addressed (torus : Torus) (gateway : Gateway) (readings : Set UInt32) : Address → Prop
  | .satellite point => torus.Contains point
  | .ground station => ∃ goal, torus.Contains goal ∧
      ∀ timeS ∈ readings, (gateway station timeS).getD ⟨0, station⟩ = goal

theorem addressed_iff {readings : Set UInt32} (hreadings : readings.Nonempty) :
    Addressed torus gateway readings target ↔ ∃ goal, torus.Contains goal ∧
      ∀ timeS ∈ readings, (resolve gateway target timeS).1 = goal := by
  cases target with
  | ground station => exact Iff.rfl
  | satellite point =>
    constructor
    · exact fun h => ⟨point, h, fun _ _ => rfl⟩
    · intro h
      obtain ⟨goal, hgoal, hres⟩ := h
      obtain ⟨timeS, htime⟩ := hreadings
      rw [← hres timeS htime] at hgoal
      exact hgoal

theorem leaves_of_agreed {goal source : Point} (hs : torus.Contains source)
    (hg : torus.Contains goal)
    (hres : ∀ k point, (resolve gateway target (clocks k point)).1 = goal) :
    Leaves (clockDecisions torus gateway algorithms clocks target) source := by
  have hhop : ∀ timeS, (resolve gateway target timeS).2 = (resolve gateway target 0).2 := by
    cases target <;> exact fun _ => rfl
  have hdown : Descends (clockDecisions torus gateway algorithms clocks target) torus.Contains
      (fun point => torus.hops point goal) (resolve gateway target 0).2 :=
    decisions_descends (fun k point => Prod.ext (hres k point) (hhop _)) hg
  obtain ⟨point, hw, -, -⟩ := hdown.walk_left hs
  exact ⟨_, _, point, hw⟩

/-- Where two readings disagree, or one of them leads out of the torus, clocks that stand
still suffice to keep every satellite from resolving the target to itself. -/
theorem exists_standing_clock {readings : Set UInt32} (hreadings : readings.Nonempty)
    (h : ¬ ∃ goal, torus.Contains goal ∧
      ∀ timeS ∈ readings, (resolve gateway target timeS).1 = goal) :
    ∃ clock : Point → UInt32, (∀ point, clock point ∈ readings) ∧
      ∀ point, torus.Contains point → point ≠ (resolve gateway target (clock point)).1 := by
  obtain ⟨timeS, htime⟩ := hreadings
  by_cases hin : torus.Contains (resolve gateway target timeS).1
  · have hother : ∃ later ∈ readings,
        (resolve gateway target later).1 ≠ (resolve gateway target timeS).1 := by
      refine Classical.byContradiction fun hnone => h ⟨_, hin, fun later hlater => ?_⟩
      exact Classical.byContradiction fun hne => hnone ⟨later, hlater, hne⟩
    obtain ⟨later, hlater, hne⟩ := hother
    refine ⟨fun point => if point = (resolve gateway target timeS).1 then later else timeS,
      fun point => ?_, fun point _ => ?_⟩
    · dsimp only
      split
      · exact hlater
      · exact htime
    · dsimp only
      split
      · next he => exact fun hself => hne (hself.symm.trans he)
      · next he => exact he
  · exact ⟨fun _ => timeS, fun _ => htime, fun point hp he => hin (he ▸ hp)⟩

/-- Whatever the satellites' clocks read, a router neither fails nor passes a packet on for
ever exactly when the target, if the octets hold one, is addressed.  Clocks that stand still
show it already. -/
theorem leaves_iff (gateway : Gateway) {readings : Set UInt32} (hreadings : readings.Nonempty)
    (bytes : Spp.Bytes) {source : Point} (hs : torus.Contains source) :
    ((∀ clocks : Nat → Point → UInt32, (∀ k point, clocks k point ∈ readings) →
        Leaves (fun k point => routePacket torus gateway bytes (clocks k point) point) source) ↔
      ∀ packet, IslRoutingTelecommand.parse bytes = .ok packet →
        Addressed torus gateway readings packet.target) ∧
    ((∀ clock : Point → UInt32, (∀ point, clock point ∈ readings) →
        Leaves (fun _ point => routePacket torus gateway bytes (clock point) point) source) ↔
      ∀ packet, IslRoutingTelecommand.parse bytes = .ok packet →
        Addressed torus gateway readings packet.target) := by
  have hsuff : (∀ packet, IslRoutingTelecommand.parse bytes = .ok packet →
      Addressed torus gateway readings packet.target) →
      ∀ clocks : Nat → Point → UInt32, (∀ k point, clocks k point ∈ readings) →
        Leaves (fun k point => routePacket torus gateway bytes (clocks k point) point) source := by
    intro haddr clocks hclocks
    cases hparse : IslRoutingTelecommand.parse bytes with
    | error e =>
      refine ⟨1, none, source, walk_leave (k := 0) rfl ?_⟩
      rw [routePacket, hparse]
    | ok packet =>
      rw [routePacket_ok hparse, leaves_map]
      obtain ⟨goal, hgoal, hres⟩ := (addressed_iff hreadings).1 (haddr packet hparse)
      exact leaves_of_agreed hs hgoal fun k point => hres _ (hclocks k point)
  have hnec : (∀ clock : Point → UInt32, (∀ point, clock point ∈ readings) →
      Leaves (fun _ point => routePacket torus gateway bytes (clock point) point) source) →
      ∀ packet, IslRoutingTelecommand.parse bytes = .ok packet →
        Addressed torus gateway readings packet.target := by
    intro hall packet hparse
    refine Classical.byContradiction fun haddr => ?_
    rw [addressed_iff hreadings] at haddr
    obtain ⟨clock, hclock, hstay⟩ := exists_standing_clock hreadings haddr
    have hleaves := hall clock hclock
    rw [routePacket_ok hparse fun _ => clock, leaves_map] at hleaves
    exact not_leaves hs (decisions_confines fun _ => hstay) hleaves
  exact ⟨⟨fun h => hnec fun clock hclock => h (fun _ => clock) fun _ => hclock, hsuff⟩,
    ⟨hnec, fun haddr clock hclock => hsuff haddr (fun _ => clock) fun _ => hclock⟩⟩

/-- Satellite 2 in orbit 1, while the satellites' clocks run apart. -/
theorem leaves_two_one :
    Leaves (fun k point => routePacket ⟨3, 3⟩ (fun _ _ => none)
      [0x18, 0x2a, 0xc0, 0, 0, 3, 0, 0, 2, 2] (UInt32.ofNat k + point.sat.toUInt32) point)
      ⟨1, 1⟩ :=
  ((@leaves_iff ⟨3, 3⟩ (fun _ _ => none) Set.univ ⟨0, trivial⟩
    [0x18, 0x2a, 0xc0, 0, 0, 3, 0, 0, 2, 2] ⟨1, 1⟩ (by decide)).1.2
    (fun packet h => by cases h; show (⟨3, 3⟩ : Torus).Contains ⟨1, 2⟩; decide))
    (fun k point => UInt32.ofNat k + point.sat.toUInt32) fun _ _ => trivial

/-- An orbit that the torus does not have. -/
theorem orbit_outside_not_left :
    ¬ Leaves (fun _ => routePacket ⟨3, 3⟩ (fun _ _ => none)
      [0x18, 0x2a, 0xc0, 0, 0, 3, 0, 0, 6, 2] 0) ⟨0, 0⟩ := by
  have hs : (⟨3, 3⟩ : Torus).Contains ⟨0, 0⟩ := by decide
  have hparse : IslRoutingTelecommand.parse [0x18, 0x2a, 0xc0, 0, 0, 3, 0, 0, 6, 2] =
      .ok ⟨⟨0x182a, 0xc000, 3⟩, ⟨0, 0⟩, ⟨⟨6, 2⟩⟩, []⟩ := by decide
  intro h
  change Leaves (fun k point => routePacket _ _ _ ((fun _ _ => 0) k point) point) _ at h
  rw [routePacket_ok hparse, leaves_map] at h
  refine not_leaves hs (decisions_confines fun _ point hp he => ?_) h
  rw [he] at hp
  revert hp
  decide

end Isl
end Leodos
