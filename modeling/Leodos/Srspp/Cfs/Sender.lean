/-
The send side of the cFS endpoint, `api/cfs/sender.rs`.

`transmit` drains the action queue of a slot: a `Transmit` builds the packet in the
transmit buffer of the run loop, writes it to the link, marks it transmitted and starts
its timer.  The drain stops at the first failure, with the failed action already popped.
`writes` are the results of the link writes; writes beyond the list succeed.
-/
import Leodos.Srspp.Cfs.Receiver
import Leodos.Srspp.Transmission

namespace Leodos
namespace Srspp
namespace Cfs

open Isl Spp

/-! ## Timers -/

/-- Slots of retransmission timers, in the order in which they are searched. -/
structure TimerSet (N : Nat) where
  timers : List (SequenceCount × Option Nat)
  size : timers.length = N

namespace TimerSet

variable {N : Nat}

def new (N : Nat) : TimerSet N := ⟨List.replicate N (0, none), List.length_replicate⟩

/-- Take the first free slot.  Without one the timer is not started. -/
def startIn (seq : SequenceCount) (deadline : Nat) :
    List (SequenceCount × Option Nat) → List (SequenceCount × Option Nat)
  | [] => []
  | (_, none) :: rest => (seq, some deadline) :: rest
  | (seq', some d) :: rest => (seq', some d) :: startIn seq deadline rest

theorem length_startIn (seq : SequenceCount) (deadline : Nat)
    (l : List (SequenceCount × Option Nat)) : (startIn seq deadline l).length = l.length := by
  induction l with
  | nil => rfl
  | cons x rest ih =>
    obtain ⟨seq', _ | d⟩ := x
    · rfl
    · rw [startIn, List.length_cons, List.length_cons, ih]

def start (s : TimerSet N) (seq : SequenceCount) (deadline : Nat) : TimerSet N :=
  ⟨startIn seq deadline s.timers, (length_startIn ..).trans s.size⟩

def stop (s : TimerSet N) (seq : SequenceCount) : TimerSet N :=
  ⟨s.timers.map fun x => if x.1 = seq then (x.1, none) else x,
    (List.length_map _).trans s.size⟩

/-- The timers that have expired at `now`. -/
def isExpired (now : Nat) (x : SequenceCount × Option Nat) : Bool :=
  x.2.any fun deadline => now ≥ deadline

def expired (s : TimerSet N) (now : Nat) : List SequenceCount × TimerSet N :=
  ((s.timers.filter (isExpired now)).map Prod.fst,
    ⟨s.timers.map fun x => if isExpired now x then (x.1, none) else x,
      (List.length_map _).trans s.size⟩)

end TimerSet

/-! ## One sender slot -/

structure SenderState (WIN MTU : Nat) where
  machine : SenderMachine WIN MTU
  actions : SenderActions
  timers : TimerSet WIN
  error : Option TransportError

namespace SenderState

variable {WIN MTU : Nat}

/-- Execute one popped action.  `rto` is what the policy answers now. -/
def execute (ids : PacketIds) (now rto : Nat) (txBuffer : Bytes) (s : SenderState WIN MTU)
    (writes : List Bool) :
    SenderAction → SenderState WIN MTU × List Bool × Except TransportError Unit
  | .transmit seq _ =>
      match s.machine.getPayload seq with
      | none => (s, writes, .ok ())
      | some info =>
          match transmitPacket ids txBuffer s.machine.config.sourceAddress seq info with
          | .error e => (s, writes, .error (.packet e))
          | .ok _ =>
              if writes.headD true = false then (s, writes.tail, .error .network)
              else
                ({ s with
                    machine := s.machine.markTransmitted seq
                    timers := s.timers.start seq (now + rto) },
                  writes.tail, .ok ())
  | .stopTimer seq => ({ s with timers := s.timers.stop seq }, writes, .ok ())
  | .packetLost _ | .spaceAvailable _ | .messageLost => (s, writes, .ok ())

/-- Pop and execute until the queue is empty or an action fails. -/
def drain (ids : PacketIds) (now rto : Nat) : Nat → SenderState WIN MTU → Wire → List Bool →
    SenderState WIN MTU × Wire × List Bool × Except TransportError Unit
  | 0, s, w, writes => (s, w, writes, .ok ())
  | fuel + 1, s, w, writes =>
      match s.actions.popFront with
      | none => (s, w, writes, .ok ())
      | some (a, actions) =>
          match { s with actions }.execute ids now rto w.txBuffer writes a with
          | (s', writes', .ok ()) => drain ids now rto fuel s' (w.handOver ids s.machine a) writes'
          | (s', writes', .error e) => (s', w.handOver ids s.machine a, writes', .error e)

/-- Every round pops an action, so the length of the queue is enough fuel. -/
def transmit (ids : PacketIds) (now rto : Nat) (s : SenderState WIN MTU) (w : Wire)
    (writes : List Bool) : SenderState WIN MTU × Wire × List Bool × Except TransportError Unit :=
  drain ids now rto s.actions.inner.length s w writes

def handle (s : SenderState WIN MTU) (event : SenderMachine.Event) :
    SenderState WIN MTU × Except TransportError Unit :=
  let (machine, actions, result) := s.machine.handle event s.actions
  ({ s with machine, actions }, result.mapError .sender)

/-- Anything but an ACK packet is ignored. -/
def processAck (s : SenderState WIN MTU) (packet : Bytes) :
    SenderState WIN MTU × Except TransportError Unit :=
  match SrsppPacket.parse packet >>= SrsppPacket.srsppType with
  | .ok .ack =>
      match SrsppAckPacket.parse packet with
      | .ok ack =>
          s.handle (.ackReceived ack.ackPayload.count ack.ackPayload.selectiveAckBitmap)
      | .error _ => (s, .ok ())
  | _ => (s, .ok ())

/-- Retransmit the expired packets one after the other, stopping at the first failure. -/
def retransmit (ids : PacketIds) (now rto : Nat) : List SequenceCount → SenderState WIN MTU →
    Wire → List Bool → SenderState WIN MTU × Wire × List Bool × Except TransportError Unit
  | [], s, w, writes => (s, w, writes, .ok ())
  | seq :: expired, s, w, writes =>
      match s.handle (.retransmitTimeout seq) with
      | (s', .error e) => (s', w, writes, .error e)
      | (s', .ok ()) =>
          match s'.transmit ids now rto w writes with
          | (s'', w', writes', .ok ()) => retransmit ids now rto expired s'' w' writes'
          | failed => failed

def handleTimeouts (ids : PacketIds) (now rto : Nat) (s : SenderState WIN MTU) (w : Wire)
    (writes : List Bool) : SenderState WIN MTU × Wire × List Bool × Except TransportError Unit :=
  retransmit ids now rto (s.timers.expired now).1
    { s with timers := (s.timers.expired now).2 } w writes

end SenderState

end Cfs
end Srspp
end Leodos
