/-
The flood over the grid.

Every satellite runs a gossip node, and every node has a link to each neighbour that loses
nothing and delivers in any order after any time.  The world logs what was written and what
the read calls returned.  With numbers for epochs that do not wrap the world is a flood of
the net of satellites: a node's filter answers as the list of what the node handled.
-/
import Leodos.Isl.Gossip.Node
import Leodos.Isl.Routing
import Leodos.Transition.Flood
import Mathlib.Data.Fintype.EquivFin

namespace Leodos
namespace Isl

open Leodos.Ring Transition Function

abbrev Satellite (torus : Torus) := {point : Point // torus.Contains point}

/-- A directed link, named by its sender and direction. -/
abbrev Arc (torus : Torus) := Satellite torus × Direction

namespace Satellite

variable {torus : Torus}

def address (x : Satellite torus) : Address := .satellite x.1

theorem isSome_neighbor (x : Satellite torus) (d : Direction) :
    (torus.neighbor x.1 d).isSome = true := by
  obtain ⟨q, hq, -⟩ := Torus.neighbor_contains x.2 d
  rw [hq]
  rfl

theorem contains_get (x : Satellite torus) (d : Direction) :
    torus.Contains ((torus.neighbor x.1 d).get (x.isSome_neighbor d)) := by
  obtain ⟨q, hq, hin⟩ := Torus.neighbor_contains x.2 d
  simp only [hq, Option.get_some]
  exact hin

def neighbor (x : Satellite torus) (d : Direction) : Satellite torus :=
  ⟨(torus.neighbor x.1 d).get (x.isSome_neighbor d), x.contains_get d⟩

theorem neighbor_eq (x : Satellite torus) (d : Direction) :
    torus.neighbor x.1 d = some (x.neighbor d).1 := (Option.some_get _).symm

theorem address_inj {x y : Satellite torus} : x.address = y.address ↔ x = y := by
  rw [address, address, Address.satellite.injEq]
  exact Subtype.ext_iff.symm

theorem parse_address (x : Satellite torus) :
    (RawAddress.ofAddress x.address).parse = x.address := by
  rw [parse_ofAddress_iff]
  show x.1.orb ≠ 255
  intro h
  have hlt := x.2.1
  rw [h] at hlt
  have hsize := torus.numOrbs.toNat_lt
  have h255 : (255 : UInt8).toNat = 255 := rfl
  omega

end Satellite

instance (torus : Torus) : Finite (Satellite torus) := by
  refine Finite.of_injective (β := Fin UInt8.size × Fin UInt8.size)
    (fun x => (x.1.orb.toFin, x.1.sat.toFin)) fun x y h => Subtype.ext ?_
  rw [Prod.mk.injEq] at h
  have horb : x.1.orb = y.1.orb := UInt8.toFin_inj.1 h.1
  have hsat : x.1.sat = y.1.sat := UInt8.toFin_inj.1 h.2
  cases hx : x.1
  cases hy : y.1
  rw [hx, hy] at horb hsat
  rw [Point.mk.injEq]
  exact ⟨horb, hsat⟩

instance : Finite Direction := by
  refine Finite.of_injective (β := Fin 4) (fun d => match d with
    | .north => 0 | .south => 1 | .east => 2 | .west => 3) fun x y h => ?_
  cases x <;> cases y <;> first | rfl | cases h

def mesh (torus : Torus) : Net (Satellite torus) (Arc torus) where
  source a := a.1
  target a := a.1.neighbor a.2

theorem mesh_reaches {torus : Torus} (x y : Satellite torus) : (mesh torus).Reaches x y := by
  obtain ⟨n, hn⟩ : ∃ n, torus.hops x.1 y.1 = n := ⟨_, rfl⟩
  induction n generalizing x with
  | zero =>
    rw [Subtype.ext ((Torus.hops_eq_zero x.2 y.2).1 hn)]
    exact Relation.ReflTransGen.refl
  | succ n ih =>
    have hne : x.1 ≠ y.1 := fun h => by
      rw [(Torus.hops_eq_zero x.2 y.2).2 h] at hn
      cases hn
    obtain ⟨d, -, q, hq, -, hhops⟩ := RoutingAlgorithm.manhattan.routeToPoint_approaches x.2 y.2
      hne 0
    have hnext : (x.neighbor d).1 = q := Option.some_inj.1 ((x.neighbor_eq d).symm.trans hq)
    refine Relation.ReflTransGen.head ⟨(x, d), rfl, rfl⟩ (ih (x.neighbor d) ?_)
    rw [hnext]
    omega

/-! ## The world -/

variable {torus : Torus} {OUT : Nat}

/-- The nodes, `none` after a panic; the octets on each link; what was written by whom; and
what the read calls of each node returned, with the origin that the packet names. -/
structure Mesh (torus : Torus) (OUT : Nat) where
  node : Satellite torus → Option (Gossip OUT)
  link : Arc torus → List Bytes
  written : List (Address × Bytes)
  returned : Satellite torus → List (Address × Bytes)

namespace Mesh

/-- A call of `write`; a staged packet that a link took; and the packet at a place of a
link that arrived while a read call with a buffer was pending. -/
inductive Act (torus : Torus) where
  | write (x : Satellite torus) (data : Bytes)
  | transmit (x : Satellite torus) (direction : Direction) (bufferLen : Nat)
  | receive (a : Arc torus) (place bufferLen : Nat)

/-- The port at the other end of a link. -/
def port : Direction → Direction
  | .north => .south
  | .south => .north
  | .east => .west
  | .west => .east

def start (mtu : Nat) (apid : Satellite torus → Spp.Apid)
    (functionCode : Satellite torus → UInt8) : Mesh torus OUT :=
  ⟨fun x => some (.new OUT mtu x.address torus (apid x) (functionCode x)), fun _ => [], [],
    fun _ => []⟩

def originOf (raw : Bytes) : Option Address :=
  (IslGossipTelecommand.refFromBytes raw).map fun pkt => pkt.gossipHeader.origin.parse

/-- The world after a pass of the loop of a node that `raw` came to, if it was a read. -/
def close (w : Mesh torus OUT) (x : Satellite torus) (raw : Bytes) :
    Option (Gossip OUT × Gossip.Pass Empty) → Mesh torus OUT
  | none => { w with node := update w.node x none }
  | some (g, .returned (.ok payload)) =>
    { w with
      node := update w.node x (some g)
      returned := update w.returned x
        (w.returned x ++ (originOf raw).toList.map fun origin => (origin, payload)) }
  | some (g, _) => { w with node := update w.node x (some g) }

def next (w : Mesh torus OUT) : Act torus → Mesh torus OUT
  | .write x data =>
    match w.node x with
    | none => w
    | some g =>
      { w with
        node := update w.node x (some (g.write data).1)
        link := fun a => if a.1 = x then w.link a ++ (g.write data).2.toList else w.link a
        written := w.written ++ [(x.address, data)] }
  | .transmit x d bufferLen =>
    match w.node x with
    | none => w
    | some g =>
      { w with link := update w.link (x, d) (w.link (x, d) ++ (g.stage d).join.toList) }.close x []
        (g.iteration bufferLen (.write d (.ok ())))
  | .receive a place bufferLen =>
    match w.node (a.1.neighbor a.2), (w.link a)[place]? with
    | some g, some raw =>
      { w with link := update w.link a ((w.link a).eraseIdx place) }.close (a.1.neighbor a.2) raw
        (g.iteration bufferLen (.read (port a.2) (.ok raw)))
    | _, _ => w

def Possible (w : Mesh torus OUT) : Act torus → Prop
  | .write x _ => (w.node x).isSome
  | .transmit x d _ => ∃ g data, w.node x = some g ∧ g.stage d = some (some data)
  | .receive a place _ => (w.node (a.1.neighbor a.2)).isSome ∧ place < (w.link a).length

def system (torus : Torus) (OUT mtu : Nat) : System (Mesh torus OUT) (Act torus) where
  init w := ∃ apid functionCode, w = start mtu apid functionCode
  step w act w' := w.Possible act ∧ w' = w.next act

/-- The octets are on a link or in an output queue. -/
def Copy (w : Mesh torus OUT) (raw : Bytes) : Prop :=
  (∃ a, raw ∈ w.link a) ∨
    ∃ x g d q, w.node x = some g ∧ (g.out d).contents = some q ∧ raw ∈ q

def InFlight (w : Mesh torus OUT) (origin : Address) (epoch : Epoch) : Prop :=
  ∃ raw pkt, w.Copy raw ∧ IslGossipTelecommand.refFromBytes raw = some pkt ∧
    pkt.gossipHeader.origin.parse = origin ∧ pkt.gossipHeader.epoch = epoch

/-- The node takes the octets for new and queues them for a direction. -/
def Queued (g : Gossip OUT) (raw : Bytes) (d : Direction) : Prop :=
  ∃ pkt onward, IslGossipTelecommand.refFromBytes raw = some pkt ∧
    (g.dedup.isDuplicate pkt.gossipHeader.epoch).1 = false ∧
    g.onward pkt.gossipHeader.predecessor.parse = some onward ∧ onward d = true

/-- Of one origin fewer than 100 messages are in flight when it writes and none is more
than 128 behind; no output queue is full; no read buffer is too small. -/
def Promised (w : Mesh torus OUT) : Act torus → Prop
  | .write x _ => ∀ g, w.node x = some g →
      (∀ epochs : List Epoch, epochs.Nodup → (∀ e ∈ epochs, w.InFlight x.address e) →
        epochs.length < 100) ∧
      ∀ e, w.InFlight x.address e → (g.nextEpoch - e).toNat ≤ 128
  | .transmit _ _ _ => True
  | .receive a place bufferLen => ∀ g raw, w.node (a.1.neighbor a.2) = some g →
      (w.link a)[place]? = some raw →
      (∀ pkt, IslGossipTelecommand.refFromBytes raw = some pkt →
        pkt.payload.length ≤ bufferLen) ∧
      ∀ d, Queued g raw d → ∀ ring, (g.out d).push raw ≠ some (false, ring)

/-- A written payload fits its packet, its epoch lies ahead of the filter of every node and
at most 128 ahead of every copy of whatever origin, and packets that are passed on find
their queue in a clean position. -/
def Undisturbed (w : Mesh torus OUT) : Act torus → Prop
  | .write x data => ∀ g, w.node x = some g →
      8 + data.length ≤ 65535 ∧ IslGossipTelecommand.HEADER_SIZE + data.length ≤ g.mtu ∧
      (∀ y g', w.node y = some g' → g'.dedup.initialized = true →
        ∃ distance, ShortestPath.compute g'.dedup.head g.nextEpoch = .forward distance) ∧
      ∀ origin e, w.InFlight origin e → (g.nextEpoch - e).toNat ≤ 128
  | .transmit _ _ _ => True
  | .receive a place _ => ∀ g raw, w.node (a.1.neighbor a.2) = some g →
      (w.link a)[place]? = some raw → ∀ d, Queued g raw d → CleanlyQueued (g.out d) raw

def Quiet (w : Mesh torus OUT) : Prop := ∀ raw, ¬ w.Copy raw

def foreign (w : Mesh torus OUT) (x : Satellite torus) : List (Address × Bytes) :=
  w.written.filter fun m => decide (m.1 ≠ x.address)

def Act.Moves : Act torus → Prop
  | .write _ _ => False
  | _ => True

/-- No node panicked; each returned messages of others only, each at most once, and all of
them when no copy is left; as long as one is left something can move; and what moves comes
to an end when nothing new is written. -/
structure Delivering (mtu : Nat) (ok : Mesh torus OUT → Act torus → Prop) (w : Mesh torus OUT) :
    Prop where
  running : ∀ x, (w.node x).isSome = true
  once : ∀ x, (w.returned x).Subperm (w.foreign x)
  everywhere : w.Quiet → ∀ x, (w.returned x).Perm (w.foreign x)
  moving : ¬ w.Quiet → ∃ act, act.Moves ∧ w.Possible act
  finite : ∃ bound, ∀ acts w', (system torus OUT mtu).Run (fun w act => act.Moves ∧ ok w act)
    w acts w' → acts.length ≤ bound

end Mesh

end Isl
end Leodos
