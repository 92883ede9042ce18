/-
Gossip telecommands, `network/isl/gossip/packet.rs`, and the builders under them.

A gossip telecommand is a telecommand whose payload begins with six octets: the addresses
of the node that issued it and of the node that sent it on, and the epoch.
-/
import Leodos.Isl.Gossip.DuplicateFilter
import Leodos.Isl.Router.Machine
import Leodos.Isl.Telecommand
import Leodos.Spp.Builder

namespace Leodos
namespace Isl

open Bits Spp
open Srspp (TelecommandSecondaryHeader checksumU8)

/-! ## The packets underneath -/

inductive TelecommandBuildError where
  | bufferTooSmall (requiredLen providedLen : Nat)
  | spacePacketBuildError (error : BuildError)
  deriving DecidableEq, Repr

namespace Telecommand

def asBytes (tc : Telecommand) : Bytes :=
  tc.primary.asBytes ++
    [tc.secondary.functionCode, tc.secondary.checksum] ++ tc.payload

def setChecksum (tc : Telecommand) (checksum : UInt8) : Telecommand :=
  { tc with secondary := { tc.secondary with checksum } }

def setCfeChecksum (tc : Telecommand) : Telecommand :=
  tc.setChecksum (checksumU8 (tc.setChecksum 0).asBytes)

def new (buffer : Bytes) (apid : Apid) (sequenceCount : SequenceCount) (functionCode : UInt8)
    (payloadLen : Nat) : Except TelecommandBuildError Telecommand :=
  match SpacePacket.new buffer apid .telecommand sequenceCount .present .unsegmented
      (2 + payloadLen) with
  | .error e => .error (.spacePacketBuildError e)
  | .ok sp =>
    if sp.dataField.length = 2 + payloadLen then
      .ok (setCfeChecksum ⟨sp.primaryHeader, ⟨functionCode, sp.dataField.getD 1 0⟩,
        sp.dataField.drop 2⟩)
    else .error (.bufferTooSmall payloadLen (PrimaryHeader.SIZE + sp.dataField.length))

end Telecommand

/-! ## Gossip telecommands -/

abbrev Epoch := BitVec 16

structure IslGossipHeader where
  origin : RawAddress
  predecessor : RawAddress
  epoch : Epoch
  deriving DecidableEq, Repr

def IslGossipHeader.SIZE : Nat := 6

def IslGossipHeader.asBytes (h : IslGossipHeader) : Bytes :=
  [h.origin.groundOrOrb, h.origin.stationOrSat, h.predecessor.groundOrOrb,
    h.predecessor.stationOrSat, highByte h.epoch, lowByte h.epoch]

inductive GossipMessageError where
  | cfe (error : TelecommandBuildError)
  | payloadTooLarge (max provided : Nat)
  deriving DecidableEq, Repr

structure IslGossipTelecommand where
  primary : PrimaryHeader
  secondary : TelecommandSecondaryHeader
  gossipHeader : IslGossipHeader
  payload : Bytes
  deriving DecidableEq, Repr

namespace IslGossipTelecommand

/-- Octets of all three headers. -/
def HEADER_SIZE : Nat := 14

def asBytes (p : IslGossipTelecommand) : Bytes :=
  p.primary.asBytes ++ [p.secondary.functionCode, p.secondary.checksum] ++
    p.gossipHeader.asBytes ++ p.payload

/-- The view of a whole byte string. -/
def refFromBytes (bytes : Bytes) : Option IslGossipTelecommand :=
  if HEADER_SIZE ≤ bytes.length then
    let b := fun i => bytes.getD i 0
    some
      { primary := ⟨ofBytes (b 0) (b 1), ofBytes (b 2) (b 3), ofBytes (b 4) (b 5)⟩
        secondary := ⟨b 6, b 7⟩
        gossipHeader := ⟨⟨b 8, b 9⟩, ⟨b 10, b 11⟩, ofBytes (b 12) (b 13)⟩
        payload := bytes.drop HEADER_SIZE }
  else none

def setChecksum (p : IslGossipTelecommand) (checksum : UInt8) : IslGossipTelecommand :=
  { p with secondary := { p.secondary with checksum } }

def setCfeChecksum (p : IslGossipTelecommand) : IslGossipTelecommand :=
  p.setChecksum (checksumU8 (p.setChecksum 0).asBytes)

def new (buffer : Bytes) (apid : Apid) (functionCode : UInt8) (origin predecessor : Address)
    (epoch : Epoch) (payloadLen : Nat) : Except GossipMessageError IslGossipTelecommand :=
  if 65535 < payloadLen then .error (.payloadTooLarge 65535 payloadLen)
  else
    match Telecommand.new buffer apid 0 functionCode (IslGossipHeader.SIZE + payloadLen) with
    | .error e => .error (.cfe e)
    | .ok tc =>
      if tc.payload.length = IslGossipHeader.SIZE + payloadLen then
        .ok (setCfeChecksum
          { primary := tc.primary
            secondary := tc.secondary
            gossipHeader := ⟨.ofAddress origin, .ofAddress predecessor, epoch⟩
            payload := tc.payload.drop IslGossipHeader.SIZE })
      else
        .error (.cfe (.bufferTooSmall (8 + (IslGossipHeader.SIZE + payloadLen)) tc.asBytes.length))

theorem length_asBytes (p : IslGossipTelecommand) :
    p.asBytes.length = HEADER_SIZE + p.payload.length := by
  rw [asBytes, List.length_append]
  rfl

theorem refFromBytes_asBytes (p : IslGossipTelecommand) : refFromBytes p.asBytes = some p := by
  have hle : HEADER_SIZE ≤ p.asBytes.length := by
    rw [length_asBytes]
    exact Nat.le_add_right _ _
  rw [refFromBytes, if_pos hle]
  -- each octet of the front is a field of a header, or half of one
  simp only [asBytes, PrimaryHeader.asBytes, IslGossipHeader.asBytes, List.cons_append,
    List.nil_append, List.getD_cons_zero, List.getD_cons_succ, ofBytes_bytes]
  rfl

theorem new_ok {buffer : Bytes} {payloadLen : Nat} (hfield : 8 + payloadLen ≤ 65535)
    (hbuffer : HEADER_SIZE + payloadLen ≤ buffer.length) (apid : Apid) (functionCode : UInt8)
    (origin predecessor : Address) (epoch : Epoch) :
    ∃ p : IslGossipTelecommand,
      new buffer apid functionCode origin predecessor epoch payloadLen = .ok p ∧
      p.gossipHeader = ⟨.ofAddress origin, .ofAddress predecessor, epoch⟩ ∧
      p.payload.length = payloadLen := by
  have hheader : HEADER_SIZE = 14 := rfl
  have hgossip : IslGossipHeader.SIZE = 6 := rfl
  have hprimary : PrimaryHeader.SIZE = 6 := rfl
  have hdata : ((buffer.drop PrimaryHeader.SIZE).take
      (2 + (IslGossipHeader.SIZE + payloadLen))).length =
        2 + (IslGossipHeader.SIZE + payloadLen) := by
    rw [List.length_take, List.length_drop]
    omega
  have htc : ∃ tc, Telecommand.new buffer apid 0 functionCode
      (IslGossipHeader.SIZE + payloadLen) = .ok tc ∧
        tc.payload.length = IslGossipHeader.SIZE + payloadLen := by
    rw [Telecommand.new, SpacePacket.new, if_neg (by omega), if_neg (by omega),
      if_neg (by omega)]
    dsimp only
    rw [if_pos hdata]
    refine ⟨_, rfl, ?_⟩
    show (((buffer.drop PrimaryHeader.SIZE).take
      (2 + (IslGossipHeader.SIZE + payloadLen))).drop 2).length = _
    rw [List.length_drop, hdata]
    omega
  obtain ⟨tc, hnew, hlen⟩ := htc
  rw [new, if_neg (by omega), hnew]
  dsimp only
  rw [if_pos hlen]
  refine ⟨_, rfl, rfl, ?_⟩
  show (tc.payload.drop IslGossipHeader.SIZE).length = payloadLen
  rw [List.length_drop, hlen]
  omega

def fill (p : IslGossipTelecommand) (payload : Bytes) : IslGossipTelecommand :=
  setCfeChecksum { p with payload }

end IslGossipTelecommand

end Isl
end Leodos

/-
A node of the flood, `network/isl/gossip/mod.rs`.

The node owns four links.  `write` builds a packet and hands it to every link.  One pass of
the loop in `read` stages the front of every output queue, starts a read and, where a
packet is staged, a write on each link, and handles the first that completes; the others
are dropped without effect.  `none` is a panic.
-/

namespace Leodos
namespace Isl

open Leodos.Ring Function

inductive GossipError (ε : Type) where
  | link (direction : Direction) (error : ε)
  | bufferTooSmall (needed provided : Nat)
  deriving DecidableEq, Repr

/-- A node.  All its packet buffers hold `mtu` octets. -/
structure Gossip (OUT : Nat) where
  out : Direction → RingBuffer OUT
  mtu : Nat
  address : Address
  torus : Torus
  apid : Spp.Apid
  functionCode : UInt8
  dedup : DuplicateFilter
  nextEpoch : Epoch
  buf : Bytes
  sized : buf.length = mtu

namespace Gossip

/-- What a pass of the loop is woken by: a read of a link or a write of its staged packet
that completed, with its result. -/
inductive Event (ε : Type) where
  | read (direction : Direction) (result : Except ε Bytes)
  | write (direction : Direction) (result : Except ε Unit)

/-- How a pass ends. -/
inductive Pass (ε : Type) where
  | again
  | returned (result : Except (GossipError ε) Bytes)

variable {OUT : Nat} {ε : Type}

def new (OUT mtu : Nat) (address : Address) (torus : Torus) (apid : Spp.Apid)
    (functionCode : UInt8) : Gossip OUT :=
  { out := fun _ => RingBuffer.new OUT
    mtu, address, torus, apid, functionCode
    dedup := .new
    nextEpoch := 0#16
    buf := List.replicate mtu (0 : UInt8)
    sized := RingBuffer.zeros_sized mtu }

def takeEpoch (g : Gossip OUT) : Gossip OUT :=
  { g with nextEpoch := g.nextEpoch + 1, dedup := (g.dedup.isDuplicate g.nextEpoch).2 }

/-- Build the packet for a payload; it goes to all four links.  A payload that cannot be
built is dropped without an error. -/
def write (g : Gossip OUT) (data : Bytes) : Gossip OUT × Option Bytes :=
  match IslGossipTelecommand.new g.buf g.apid g.functionCode g.address g.address g.nextEpoch
      data.length with
  | .error _ => (g.takeEpoch, none)
  | .ok pkt =>
    let bytes := (pkt.fill data).asBytes
    ({ g.takeEpoch with
        buf := Memory.write g.buf 0 bytes
        sized := (Memory.write_length g.buf 0 bytes).trans g.sized }, some bytes)

/-- The packet copied into the staging buffer of a link, if its queue has one. -/
def stage (g : Gossip OUT) (direction : Direction) : Option (Option Bytes) :=
  (g.out direction).front.bind fun front =>
    if (front.getD []).length ≤ g.mtu then some front else none

def onward (g : Gossip OUT) (predecessor : Address) : Option (Direction → Bool) :=
  let myPoint := Point.ofAddress g.address
  match g.torus.neighbor myPoint .north, g.torus.neighbor myPoint .south,
      g.torus.neighbor myPoint .east, g.torus.neighbor myPoint .west with
  | some north, some south, some east, some west =>
    some fun
      | .north => decide (Address.satellite north ≠ predecessor)
      | .south => decide (Address.satellite south ≠ predecessor)
      | .east => decide (Address.satellite east ≠ predecessor)
      | .west => decide (Address.satellite west ≠ predecessor)
  | _, _, _, _ => none

/-- Put the octets behind the queues of the chosen directions. -/
def pushAll (out : Direction → RingBuffer OUT) (onward : Direction → Bool) (raw : Bytes) :
    Option (Direction → RingBuffer OUT) :=
  [Direction.north, .south, .east, .west].foldlM (fun out d =>
    if onward d then ((out d).push raw).map fun pushed => update out d pushed.2
    else some out) out

/-- Handle received octets: drop them if they are no gossip or seen before, else queue them
for the neighbours and return their payload. -/
def receive (g : Gossip OUT) (bufferLen : Nat) (raw : Bytes) : Option (Gossip OUT × Pass ε) :=
  match IslGossipTelecommand.refFromBytes raw with
  | none => some (g, .again)
  | some pkt =>
    match g.dedup.isDuplicate pkt.gossipHeader.epoch with
    | (true, dedup) => some ({ g with dedup }, .again)
    | (false, dedup) =>
      (g.onward pkt.gossipHeader.predecessor.parse).bind fun onward =>
        (pushAll g.out onward raw).map fun out =>
          ({ g with dedup, out },
            if bufferLen < pkt.payload.length then
              .returned (.error (.bufferTooSmall pkt.payload.length bufferLen))
            else .returned (.ok pkt.payload))

def handle (g : Gossip OUT) (bufferLen : Nat) : Event ε → Option (Gossip OUT × Pass ε)
  | .write direction _ =>
    -- the result of the write is not looked at
    (g.out direction).pop.map fun ring => ({ g with out := update g.out direction ring }, .again)
  | .read direction (.error e) => some (g, .returned (.error (.link direction e)))
  | .read _ (.ok bytes) => g.receive bufferLen bytes

/-- One pass of the loop of `read`. -/
def iteration (g : Gossip OUT) (bufferLen : Nat) (event : Event ε) :
    Option (Gossip OUT × Pass ε) :=
  if (g.stage .north).isSome ∧ (g.stage .south).isSome ∧ (g.stage .east).isSome ∧
      (g.stage .west).isSome then
    g.handle bufferLen event
  else none

/-! ## What a call does -/

theorem iteration_eq {g : Gossip OUT} (hstage : ∀ d, (g.stage d).isSome = true) (bufferLen : Nat)
    (event : Event ε) : g.iteration bufferLen event = g.handle bufferLen event :=
  if_pos ⟨hstage _, hstage _, hstage _, hstage _⟩

theorem write_ok {g : Gossip OUT} {data : Bytes} (hfield : 8 + data.length ≤ 65535)
    (hbuf : IslGossipTelecommand.HEADER_SIZE + data.length ≤ g.mtu) :
    ∃ (g' : Gossip OUT) (pkt : IslGossipTelecommand), g.write data = (g', some pkt.asBytes) ∧
      pkt.gossipHeader = ⟨.ofAddress g.address, .ofAddress g.address, g.nextEpoch⟩ ∧
      pkt.payload = data ∧ g'.out = g.out ∧ g'.mtu = g.mtu ∧ g'.address = g.address ∧
      g'.torus = g.torus ∧ g'.dedup = (g.dedup.isDuplicate g.nextEpoch).2 ∧
      g'.nextEpoch = g.nextEpoch + 1 := by
  have hbuf' : IslGossipTelecommand.HEADER_SIZE + data.length ≤ g.buf.length := by
    rw [g.sized]
    exact hbuf
  obtain ⟨pkt, hnew, hheader, -⟩ := IslGossipTelecommand.new_ok hfield hbuf' g.apid g.functionCode
    g.address g.address g.nextEpoch
  rw [write, hnew]
  exact ⟨_, pkt.fill data, rfl, hheader, rfl, rfl, rfl, rfl, rfl, rfl, rfl⟩

theorem onward_eq {g : Gossip OUT} {next : Direction → Point}
    (h : ∀ d, g.torus.neighbor (.ofAddress g.address) d = some (next d)) (predecessor : Address) :
    ∃ onward, g.onward predecessor = some onward ∧
      ∀ d, onward d = decide (Address.satellite (next d) ≠ predecessor) := by
  rw [onward, h, h, h, h]
  refine ⟨_, rfl, fun d => ?_⟩
  cases d <;> rfl

theorem foldlM_push {onward : Direction → Bool} {raw : Bytes} {ring : Direction → RingBuffer OUT}
    (ds : List Direction) (hds : ds.Nodup) {out : Direction → RingBuffer OUT}
    (hpush : ∀ d ∈ ds, onward d = true → (out d).push raw = some (true, ring d)) :
    ∃ out', ds.foldlM (fun out d =>
        if onward d then ((out d).push raw).map fun pushed => update out d pushed.2
        else some out) out = some out' ∧
      ∀ d, out' d = if d ∈ ds ∧ onward d = true then ring d else out d := by
  induction ds generalizing out with
  | nil => exact ⟨out, rfl, fun d => (if_neg (fun h => List.not_mem_nil h.1)).symm⟩
  | cons first ds ih =>
    obtain ⟨hfirst, hrest⟩ := List.nodup_cons.1 hds
    by_cases hon : onward first = true
    · have hother : ∀ d ∈ ds, onward d = true →
          (update out first (ring first) d).push raw = some (true, ring d) := by
        intro d hd hd'
        have hne : d ≠ first := fun h => hfirst (h ▸ hd)
        rw [update_of_ne hne]
        exact hpush d (List.mem_cons_of_mem _ hd) hd'
      obtain ⟨out', hfold, hout⟩ := ih hrest hother
      refine ⟨out', ?_, fun d => ?_⟩
      · rw [List.foldlM_cons, if_pos hon, hpush first List.mem_cons_self hon]
        exact hfold
      · rw [hout d]
        by_cases hd : d = first
        · rw [hd, update_self, if_neg (fun h => hfirst h.1), if_pos ⟨List.mem_cons_self, hon⟩]
        · simp only [update_of_ne hd, List.mem_cons, hd, false_or]
    · obtain ⟨out', hfold, hout⟩ := ih hrest fun d hd => hpush d (List.mem_cons_of_mem _ hd)
      refine ⟨out', ?_, fun d => ?_⟩
      · rw [List.foldlM_cons, if_neg hon]
        exact hfold
      · rw [hout d]
        by_cases hd : d = first
        · rw [hd, if_neg (fun h => hfirst h.1), if_neg (fun h => hon h.2)]
        · simp only [List.mem_cons, hd, false_or]

theorem pushAll_eq {onward : Direction → Bool} {raw : Bytes} {out ring : Direction → RingBuffer OUT}
    (hpush : ∀ d, onward d = true → (out d).push raw = some (true, ring d)) :
    ∃ out', pushAll out onward raw = some out' ∧
      ∀ d, out' d = if onward d = true then ring d else out d := by
  obtain ⟨out', hfold, hout⟩ := foldlM_push [Direction.north, .south, .east, .west] (by decide)
    (fun d _ => hpush d)
  refine ⟨out', hfold, fun d => ?_⟩
  have hmem : d ∈ [Direction.north, .south, .east, .west] := by cases d <;> decide
  rw [hout d]
  simp only [hmem, true_and]

end Gossip

end Isl
end Leodos
