/-
The packet ring as an output queue.

A node stages the front of the queue, hands it to the link and removes it.  Pushes that
find the ring in a clean position keep it the queue of what was accepted.
-/
import Mathlib.Logic.Function.Basic
import Leodos.Isl.Telecommand
import Leodos.Isl.Torus
import Leodos.Ring.Fifo

namespace Leodos
namespace Isl

open Leodos.Ring

variable {OUT : Nat}

/-- The ring is a queue of `q` that drops nothing from its front. -/
def Queues (ring : RingBuffer OUT) (q : List Bytes) : Prop :=
  ring.frontDrop = false ∧ (ring.Holds q ∨ OUT = 0 ∧ ring.count = 0 ∧ q = [])

theorem queues_new : Queues (RingBuffer.new OUT) [] := by
  refine ⟨rfl, ?_⟩
  obtain hzero | hpos := Nat.eq_zero_or_pos OUT
  · exact Or.inr ⟨hzero, rfl, rfl⟩
  · exact Or.inl (RingBuffer.holds_new hpos)

theorem Queues.front {ring : RingBuffer OUT} {q : List Bytes} (h : Queues ring q) :
    ring.front = some q.head? := by
  obtain ⟨-, hq | ⟨-, hcount, rfl⟩⟩ := h
  · exact hq.front
  · rw [RingBuffer.front, if_pos hcount]
    rfl

theorem Queues.contents {ring : RingBuffer OUT} {q : List Bytes} (h : Queues ring q) :
    ring.contents = some q := by
  obtain ⟨-, hq | ⟨-, hcount, rfl⟩⟩ := h
  · exact hq.contents
  · rw [RingBuffer.contents, RingBuffer.len, hcount]
    rfl

theorem Queues.pop {ring : RingBuffer OUT} {q : List Bytes} (h : Queues ring q) :
    ∃ ring', ring.pop = some ring' ∧ Queues ring' q.tail := by
  obtain ⟨hflag, hq | ⟨hzero, hcount, rfl⟩⟩ := h
  · obtain ⟨ring', hpop, hq', hflag'⟩ := hq.pop
    exact ⟨ring', hpop, hflag'.trans hflag, Or.inl hq'⟩
  · refine ⟨ring, ?_, hflag, Or.inr ⟨hzero, hcount, rfl⟩⟩
    rw [RingBuffer.pop, if_pos hcount]

/-- The push finds the ring in a clean position, and the length fits its prefix. -/
def CleanlyQueued (ring : RingBuffer OUT) (bytes : Bytes) : Prop :=
  LEN_SIZE + bytes.length ≤ OUT → bytes.length ≤ 65535 ∧ ring.CleanPush bytes

instance (ring : RingBuffer OUT) (bytes : Bytes) : Decidable (CleanlyQueued ring bytes) :=
  inferInstanceAs (Decidable (_ → _))

theorem Queues.push {ring : RingBuffer OUT} {q : List Bytes} {bytes : Bytes}
    (h : Queues ring q) (hclean : CleanlyQueued ring bytes) :
    ∃ accepted ring', ring.push bytes = some (accepted, ring') ∧
      Queues ring' (if accepted then q ++ [bytes] else q) := by
  by_cases hfit : LEN_SIZE + bytes.length ≤ OUT
  · obtain ⟨hlen, hpush⟩ := hclean hfit
    obtain ⟨hflag, hq | ⟨hzero, -, -⟩⟩ := h
    · obtain ⟨accepted, ring', hp, hq', hflag'⟩ := hq.push_tailDrop hflag hlen hpush
      exact ⟨accepted, ring', hp, hflag', Or.inl hq'⟩
    · have hsize : LEN_SIZE = 2 := rfl
      omega
  · exact ⟨false, ring, RingBuffer.push_tooLong (Nat.lt_of_not_le hfit), h⟩

theorem Queues.staged {ring : RingBuffer OUT} {q : List Bytes} (h : Queues ring q) {mtu : Nat}
    (hlen : ∀ bytes ∈ q, bytes.length ≤ mtu) :
    (ring.front.bind fun front => if (front.getD []).length ≤ mtu then some front else none) =
      some q.head? := by
  rw [h.front, Option.bind_some]
  refine if_pos ?_
  cases q with
  | nil => exact Nat.zero_le _
  | cons bytes q => exact hlen bytes List.mem_cons_self

end Isl
end Leodos

/-
The packet router, `network/isl/routing/mod.rs`.

The router owns five links.  One pass of the loop in `read` stages the front of every
output queue, starts a read and, where a packet is staged, a write on each link, and
handles the first that completes; the others are dropped without effect.  `none` is a
panic.
-/

namespace Leodos
namespace Isl

open Leodos.Ring Function

inductive Link where
  | isl (direction : Direction)
  | ground
  deriving DecidableEq, Repr

def Hop.link : Hop → Option Link
  | .isl direction => some (.isl direction)
  | .ground => some .ground
  | .localHop => none

/-- An address as a point of the grid; ground stations have none of their own. -/
def Point.ofAddress : Address → Point
  | .satellite point => point
  | .ground _ => ⟨0, 0⟩

/-- Event counters.  They wrap. -/
structure RouterDiag where
  iterations : UInt64
  islReads : Direction → UInt64
  islWrites : Direction → UInt64
  groundRead : UInt64
  groundWrite : UInt64
  lastRoute : UInt8 × UInt16 × UInt8

namespace RouterDiag

def default : RouterDiag := ⟨0, fun _ => 0, fun _ => 0, 0, 0, (0, 0, 0)⟩

def countRead (d : RouterDiag) : Link → RouterDiag
  | .isl dir => { d with islReads := update d.islReads dir (d.islReads dir + 1) }
  | .ground => { d with groundRead := d.groundRead + 1 }

def countWrite (d : RouterDiag) : Link → RouterDiag
  | .isl dir => { d with islWrites := update d.islWrites dir (d.islWrites dir + 1) }
  | .ground => { d with groundWrite := d.groundWrite + 1 }

def fromPort : Link → UInt8
  | .ground => 0
  | .isl .north => 1
  | .isl .south => 2
  | .isl .east => 3
  | .isl .west => 4

def targetRaw : Address → UInt16
  | .ground station => station.toUInt16 ||| 0x8000
  | .satellite point => (point.orb.toUInt16 <<< 8) ||| point.sat.toUInt16

def hopCode : Hop → UInt8
  | .localHop => 0
  | .isl .north => 1
  | .isl .south => 2
  | .isl .east => 3
  | .isl .west => 4
  | .ground => 5

def noteRoute (d : RouterDiag) (link : Link) (target : Address) (next : Hop) : RouterDiag :=
  { d with lastRoute := (fromPort link, targetRaw target, hopCode next) }

end RouterDiag

inductive RouterError (ε : Type) where
  | link (link : Link) (error : ε)
  | bufferTooSmall (needed provided : Nat)
  deriving DecidableEq, Repr

/-- What a pass of the loop is woken by: a read of a link or a write of its staged packet
that completed, with its result. -/
inductive Event (ε : Type) where
  | read (link : Link) (result : Except ε Bytes)
  | write (link : Link) (result : Except ε Unit)

/-- How a pass ends. -/
inductive Pass (ε : Type) where
  | again
  | returned (result : Except (RouterError ε) Bytes)

/-- The routing decision for a target at a point and a time. -/
abbrev Decision := Point → Address → UInt32 → Hop

structure Router (OUT : Nat) where
  out : Link → RingBuffer OUT
  mtu : Nat
  address : Address
  algorithm : Decision
  diag : RouterDiag

namespace Router

variable {OUT : Nat} {ε : Type}

def new (OUT mtu : Nat) (address : Address) (algorithm : Decision) : Router OUT :=
  ⟨fun _ => RingBuffer.new OUT, mtu, address, algorithm, .default⟩

/-- The packet copied into the staging buffer of a link, if its queue has one. -/
def stage (r : Router OUT) (link : Link) : Option (Option Bytes) :=
  (r.out link).front.bind fun front =>
    if (front.getD []).length ≤ r.mtu then some front else none

def next (r : Router OUT) (packet : IslRoutingTelecommand) (timeS : UInt32) : Hop :=
  r.algorithm (.ofAddress r.address) packet.target timeS

/-- Handle received octets: return them if they are for this node, else put them into the
queue of the next link. -/
def routePacket (r : Router OUT) (bufferLen : Nat) (timeS : UInt32) (link : Link)
    (bytes : Bytes) : Option (Router OUT × Pass ε) :=
  match IslRoutingTelecommand.parse bytes with
  | .error _ => some (r, .again)
  | .ok packet =>
    let r' := { r with diag := r.diag.noteRoute link packet.target (r.next packet timeS) }
    match (r.next packet timeS).link with
    | none =>
      if bufferLen < bytes.length then
        some (r', .returned (.error (.bufferTooSmall bytes.length bufferLen)))
      else some (r', .returned (.ok bytes))
    | some outLink =>
      ((r.out outLink).push bytes).map fun pushed =>
        ({ r' with out := update r.out outLink pushed.2 }, .again)

def handle (r : Router OUT) (bufferLen : Nat) (timeS : UInt32) :
    Event ε → Option (Router OUT × Pass ε)
  | .write link _ =>
    -- the result of the write is not looked at
    (r.out link).pop.map fun ring =>
      ({ r with out := update r.out link ring, diag := r.diag.countWrite link }, .again)
  | .read link (.error e) =>
    some ({ r with diag := r.diag.countRead link }, .returned (.error (.link link e)))
  | .read link (.ok bytes) =>
    routePacket { r with diag := r.diag.countRead link } bufferLen timeS link bytes

/-- One pass of the loop of `read`. -/
def iteration (r : Router OUT) (bufferLen : Nat) (timeS : UInt32) (event : Event ε) :
    Option (Router OUT × Pass ε) :=
  let r := { r with diag := { r.diag with iterations := r.diag.iterations + 1 } }
  if (r.stage (.isl .north)).isSome ∧ (r.stage (.isl .south)).isSome ∧
      (r.stage (.isl .east)).isSome ∧ (r.stage (.isl .west)).isSome ∧
      (r.stage .ground).isSome then
    r.handle bufferLen timeS event
  else none

theorem routePacket_returned {r : Router OUT} {bytes : Bytes} {packet : IslRoutingTelecommand}
    (hparse : IslRoutingTelecommand.parse bytes = .ok packet) {timeS : UInt32}
    (hlink : (r.next packet timeS).link = none) {bufferLen : Nat}
    (hbuf : bytes.length ≤ bufferLen) (link : Link) (d : RouterDiag) :
    ∃ diag, ({ r with diag := d }.routePacket bufferLen timeS link bytes :
      Option (Router OUT × Pass ε)) = some ({ r with diag }, .returned (.ok bytes)) := by
  have hlink' : ({ r with diag := d }.next packet timeS).link = none := hlink
  rw [routePacket, hparse]
  dsimp only
  rw [hlink']
  dsimp only
  rw [if_neg (Nat.not_lt.2 hbuf)]
  exact ⟨_, rfl⟩

theorem routePacket_pushed {r : Router OUT} {bytes : Bytes} {packet : IslRoutingTelecommand}
    (hparse : IslRoutingTelecommand.parse bytes = .ok packet) {timeS : UInt32} {outLink : Link}
    (hlink : (r.next packet timeS).link = some outLink) {accepted : Bool}
    {ring : RingBuffer OUT} (hpush : (r.out outLink).push bytes = some (accepted, ring))
    (bufferLen : Nat) (link : Link) (d : RouterDiag) :
    ∃ diag, ({ r with diag := d }.routePacket bufferLen timeS link bytes :
      Option (Router OUT × Pass ε)) =
        some ({ r with out := update r.out outLink ring, diag }, .again) := by
  have hlink' : ({ r with diag := d }.next packet timeS).link = some outLink := hlink
  rw [routePacket, hparse]
  dsimp only
  rw [hlink']
  dsimp only
  rw [hpush]
  exact ⟨_, rfl⟩

theorem iteration_eq {r : Router OUT} (hstage : ∀ link, (r.stage link).isSome = true)
    (bufferLen : Nat) (timeS : UInt32) (event : Event ε) :
    r.iteration bufferLen timeS event =
      { r with diag := { r.diag with iterations := r.diag.iterations + 1 } }.handle bufferLen
        timeS event :=
  if_pos ⟨hstage _, hstage _, hstage _, hstage _, hstage _⟩

end Router

end Isl
end Leodos
