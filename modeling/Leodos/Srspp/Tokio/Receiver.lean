/-
The tokio driver of the receiver backends.

A packet that arrives is driven through the backend and acknowledged.  An EOS packet
goes the same way as an empty message; the message that the backend makes of it is
drained at once, and the end of the stream shows in the sequence state alone.  A timer
is modelled by whether it is armed.
-/
import Leodos.Srspp.Cfs.Receiver

namespace Leodos
namespace Srspp

open Cfs Isl Spp

/-- The variants of `SrsppError` that an arrival returns. -/
inductive ReceiveError where
  | receiver (error : ReceiverError)
  | network
  deriving DecidableEq, Repr

structure SrsppReceiver (σ : Type) (REASM : Nat) where
  localAddress : Address
  machine : Backend σ REASM
  ackState : AckState
  ackTimer : Bool
  progressTimer : Bool
  eosSeq : Option SequenceCount
  eosObserved : Bool

namespace SrsppReceiver

variable {σ : Type} {REASM : Nat}

def new (S : Slots σ) (REASM : Nat) (config : ReceiverConfig) (remoteAddress : Address) :
    SrsppReceiver σ REASM where
  localAddress := config.localAddress
  machine := .new S REASM
  ackState := .new config remoteAddress
  ackTimer := false
  progressTimer := false
  eosSeq := none
  eosObserved := false

def armed (old : Bool) : Option TimerAction → Bool
  | none => old
  | some (.start _) => true
  | some .stop => false

/-- Write the acknowledgement, if there is one, then set the timers.  `written` says
whether the link takes the packet. -/
def applyResult (written : Bool) (s : SrsppReceiver σ REASM) (result : HandleResult) :
    SrsppReceiver σ REASM × Option AckPacket × Except ReceiveError Unit :=
  if result.ack.isSome && !written then (s, none, .error .network)
  else
    ({ s with
        ackTimer := armed s.ackTimer result.ackTimer
        progressTimer := armed s.progressTimer result.progressTimer },
      result.ack.map fun a =>
        ⟨s.localAddress, a.destination, a.cumulativeAck, a.selectiveBitmap⟩,
      .ok ())

def onData (written : Bool) (s : SrsppReceiver σ REASM) (outcome : DataOutcome) :
    SrsppReceiver σ REASM × Option AckPacket × Except ReceiveError Unit :=
  let (ackState, result) :=
    s.ackState.onData outcome s.machine.base.expectedSeq s.machine.base.recvBitmap
  { s with ackState }.applyResult written result

def handleIncoming (S : Slots σ) (WIN : Nat) (written : Bool) (s : SrsppReceiver σ REASM) :
    Incoming → Option (SrsppReceiver σ REASM × Option AckPacket × Except ReceiveError Unit)
  | .data _ seq flags payload =>
      match s.machine.handleData S WIN seq flags payload with
      | none => none
      | some (machine, .error e) => some ({ s with machine }, none, .error (.receiver e))
      | some (machine, .ok outcome) => some ({ s with machine }.onData written outcome)
  | .eos _ seq flags =>
      let s := if s.eosSeq.isNone then { s with eosSeq := some seq } else s
      match s.machine.handleData S WIN seq flags [] with
      | none => none
      | some (machine, .error e) => some ({ s with machine }, none, .error (.receiver e))
      | some (machine, .ok outcome) =>
          let machine := StreamState.drainEos s.eosSeq s.machine.base.expectedSeq machine
          some ({ s with machine }.onData written outcome)
  | .other => some (s, none, .ok ())

def eosReached (s : SrsppReceiver σ REASM) : Bool :=
  match s.eosSeq with
  | none => false
  | some eos => seqStrictlyPast s.machine.base.expectedSeq eos

/-- `recv` until it would wait for a packet: a message, or `none` for the end. -/
def recv (room : Nat) (s : SrsppReceiver σ REASM) :
    Option (Option Bytes × SrsppReceiver σ REASM) :=
  let (msg, machine) := s.machine.takeMessage
  match msg with
  | some msg => some (some (msg.take room), { s with machine })
  | none =>
      if s.eosObserved = false ∧ s.eosReached = true then
        some (none, { s with machine, eosObserved := true })
      else none

end SrsppReceiver

end Srspp
end Leodos
