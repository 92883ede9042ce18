/-
Acknowledgement and timer decisions of the receiver.
-/
import Leodos.Isl.Address
import Leodos.Srspp.Receiver.Backend

namespace Leodos
namespace Srspp

open Isl Spp

structure AckInfo where
  destination : Address
  cumulativeAck : SequenceCount
  selectiveBitmap : BitVec 16
  deriving DecidableEq, Repr

inductive TimerAction where
  | start (ticks : Nat)
  | stop
  deriving DecidableEq, Repr

structure HandleResult where
  ack : Option AckInfo := none
  ackTimer : Option TimerAction := none
  progressTimer : Option TimerAction := none
  deriving DecidableEq, Repr

structure ReceiverConfig where
  localAddress : Address
  immediateAck : Bool
  ackDelayTicks : Nat
  progressTimeoutTicks : Option Nat
  deriving DecidableEq, Repr

structure AckState where
  remoteAddress : Address
  immediateAck : Bool
  ackDelayTicks : Nat
  progressTimeoutTicks : Option Nat
  ackPending : Bool
  ackTimerRunning : Bool
  deriving DecidableEq, Repr

namespace AckState

def new (config : ReceiverConfig) (remoteAddress : Address) : AckState where
  remoteAddress := remoteAddress
  immediateAck := config.immediateAck
  ackDelayTicks := config.ackDelayTicks
  progressTimeoutTicks := config.progressTimeoutTicks
  ackPending := false
  ackTimerRunning := false

/-- Build the acknowledgement for `expected_seq = seq`. -/
def emitAck (s : AckState) (seq : SequenceCount) (bitmap : BitVec 16) :
    AckState × HandleResult :=
  ({ s with ackTimerRunning := false, ackPending := false },
    { ack := some ⟨s.remoteAddress, seq - 1, bitmap⟩
      ackTimer := if s.ackTimerRunning then some .stop else none })

def onAckTimeout (s : AckState) (seq : SequenceCount) (bitmap : BitVec 16) :
    AckState × HandleResult :=
  let s := { s with ackTimerRunning := false }
  if s.ackPending then s.emitAck seq bitmap else (s, {})

def onData (s : AckState) (outcome : DataOutcome) (seq : SequenceCount) (bitmap : BitVec 16) :
    AckState × HandleResult :=
  let progressTimer := s.progressTimeoutTicks.bind fun ticks =>
    if outcome.hasGap then some (.start ticks)
    else if outcome.progressed then some .stop
    else none
  let s := { s with ackPending := true }
  if s.immediateAck then
    let (s, r) := s.emitAck seq bitmap
    (s, { ack := r.ack, ackTimer := r.ackTimer, progressTimer })
  else if s.ackTimerRunning = false then
    ({ s with ackTimerRunning := true },
      { ackTimer := some (.start s.ackDelayTicks), progressTimer })
  else (s, { progressTimer })

def onGapSkip (s : AckState) (outcome : GapOutcome) : AckState × HandleResult :=
  (s, { progressTimer :=
    if outcome.hasGap = false then some .stop
    else s.progressTimeoutTicks.map .start })

end AckState

end Srspp
end Leodos
