/-
The tokio driver of the sender machine.

`SrsppSender` owns the machine, its action queue and the retransmission timers.  A
call of the driver hands an event to the machine and drains the queue: a `Transmit`
builds the packet, writes it to the link, marks it transmitted and arms its timer.
The drain stops at the first failure, with the failed action already popped.

A timer is modelled by whether it is armed; which timers have expired when the
driver looks is part of the call.  `writes` are the results of the link writes of a
call, in order; writes beyond the list succeed.
-/
import Leodos.Srspp.Wire

namespace Leodos
namespace Srspp

open Isl Spp

inductive SrsppError where
  | sender (error : SenderError)
  | packetError
  | network
  deriving DecidableEq, Repr

structure SrsppSender (WIN MTU : Nat) where
  machine : SenderMachine WIN MTU
  actions : SenderActions
  retransmitTimers : SequenceCount → Bool

namespace SrsppSender

variable {WIN MTU : Nat}

def new (config : SenderConfig) (bufSize : Nat) : SrsppSender WIN MTU :=
  ⟨.new config bufSize, .new, fun _ => false⟩

def setTimer (s : SrsppSender WIN MTU) (seq : SequenceCount) (armed : Bool) :
    SrsppSender WIN MTU :=
  { s with retransmitTimers := Function.update s.retransmitTimers seq armed }

def execute (s : SrsppSender WIN MTU) (writes : List Bool) :
    SenderAction → SrsppSender WIN MTU × List Bool × Except SrsppError Unit
  | .transmit seq _ =>
      match s.machine.getPayload seq with
      | none => (s, writes, .ok ())
      | some info =>
          if ¬ info.Builds MTU then (s, writes, .error .packetError)
          else if writes.headD true = false then (s, writes.tail, .error .network)
          else
            ({ s with machine := s.machine.markTransmitted seq }.setTimer seq true,
              writes.tail, .ok ())
  | .stopTimer seq => (s.setTimer seq false, writes, .ok ())
  | .packetLost _ | .spaceAvailable _ | .messageLost => (s, writes, .ok ())

/-- Pop and execute until the queue is empty or an action fails. -/
def drain : Nat → SrsppSender WIN MTU → List Bool →
    SrsppSender WIN MTU × List Bool × Except SrsppError Unit
  | 0, s, writes => (s, writes, .ok ())
  | fuel + 1, s, writes =>
      match s.actions.popFront with
      | none => (s, writes, .ok ())
      | some (a, actions) =>
          match { s with actions }.execute writes a with
          | (s', writes', .ok ()) => drain fuel s' writes'
          | failed => failed

/-- Every round pops an action, so the length of the queue is enough fuel. -/
def processActions (s : SrsppSender WIN MTU) (writes : List Bool) :
    SrsppSender WIN MTU × List Bool × Except SrsppError Unit :=
  drain s.actions.inner.length s writes

/-- Hand an event to the machine and drain the queue. -/
def handleEvent (s : SrsppSender WIN MTU) (event : SenderMachine.Event) (writes : List Bool) :
    SrsppSender WIN MTU × List Bool × Except SrsppError Unit :=
  match s.machine.handle event s.actions with
  | (machine, actions, .error e) => ({ s with machine, actions }, writes, .error (.sender e))
  | (machine, actions, .ok ()) => { s with machine, actions }.processActions writes

/-- Handle the expired timers one after the other, stopping at the first failure. -/
def handleTimeouts : List SequenceCount → SrsppSender WIN MTU → List Bool →
    SrsppSender WIN MTU × List Bool × Except SrsppError Unit
  | [], s, writes => (s, writes, .ok ())
  | seq :: expired, s, writes =>
      match (s.setTimer seq false).handleEvent (.retransmitTimeout seq) writes with
      | (s', writes', .ok ()) => handleTimeouts expired s' writes'
      | failed => failed

/-! ## Calls -/

inductive Call where
  | send (target : Address) (data : Bytes)
  | sendEos (target : Address)
  | incomingAck (cumulativeAck : SequenceCount) (selectiveBitmap : BitVec 16)
  | timeouts (expired : List SequenceCount)
  | processActions
  deriving DecidableEq, Repr

def call (s : SrsppSender WIN MTU) (c : Call) (writes : List Bool) :
    SrsppSender WIN MTU × List Bool × Except SrsppError Unit :=
  match c with
  | .send target data => s.handleEvent (.sendRequest target data) writes
  | .sendEos target => s.handleEvent (.sendEos target) writes
  | .incomingAck ack bitmap => s.handleEvent (.ackReceived ack bitmap) writes
  | .timeouts expired => handleTimeouts expired s writes
  | .processActions => s.processActions writes

end SrsppSender

end Srspp
end Leodos
