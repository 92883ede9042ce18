/-
The receiver machine of COP-1, `datalink/reliability/cop1/farm.rs`.
-/
import Leodos.Cop1.Clcw
import Leodos.Spp.Sequence

namespace Leodos
namespace Cop1

open Spp

inductive FarmState where
  | opened
  | wait
  | lockout
  deriving DecidableEq, Repr

inductive ControlCommand where
  | unlock
  | setVr (vr : UInt8)
  deriving DecidableEq, Repr

inductive FarmEvent where
  | adFrame (seq : UInt8) (bufferAvailable : Bool) (fdu : Bytes)
  | bdFrame (fdu : Bytes)
  | bcFrame (command : ControlCommand)
  | invalidFrame
  | bufferRelease
  | clcwReport
  deriving DecidableEq

inductive FarmAction where
  | accept (fdu : Bytes)
  | discard
  | clcwReady
  deriving DecidableEq

inductive SeqZone where
  | expected
  | positiveWindow
  | negativeWindow
  | lockout
  deriving DecidableEq, Repr

structure FarmConfig where
  vcid : BitVec 32
  windowWidth : UInt8

structure FarmMachine where
  state : FarmState
  vr : UInt8
  lockoutFlag : Bool
  waitFlag : Bool
  retransmitFlag : Bool
  farmBCounter : UInt8
  pw : UInt8
  nw : UInt8
  vcid : BitVec 32
  deriving DecidableEq

namespace FarmMachine

def new (config : FarmConfig) : FarmMachine where
  state := .opened
  vr := 0
  lockoutFlag := false
  waitFlag := false
  retransmitFlag := false
  farmBCounter := 0
  pw := config.windowWidth / 2
  nw := config.windowWidth / 2
  vcid := config.vcid

def clcw (m : FarmMachine) : Clcw :=
  ((((((Clcw.new.setCopInEffect 1).setVcid m.vcid).setLockout m.lockoutFlag).setWait
    m.waitFlag).setRetransmit m.retransmitFlag).setFarmBCounter m.farmBCounter).setReportValue m.vr

def classifySeq (m : FarmMachine) (seq : UInt8) : SeqZone :=
  if seq = m.vr then .expected
  else if 0 < seq - m.vr ∧ seq - m.vr < m.pw then .positiveWindow
  else if 0 < m.vr - seq ∧ m.vr - seq ≤ m.nw then .negativeWindow
  else .lockout

def handleAdFrame (m : FarmMachine) (seq : UInt8) (bufferAvailable : Bool) (fdu : Bytes) :
    FarmMachine × List FarmAction :=
  match m.state, m.classifySeq seq with
  | .opened, .expected =>
      if bufferAvailable then ({ m with vr := m.vr + 1, retransmitFlag := false }, [.accept fdu])
      else ({ m with retransmitFlag := true, waitFlag := true, state := .wait }, [.discard])
  | .opened, .positiveWindow => ({ m with retransmitFlag := true }, [.discard])
  | .opened, .negativeWindow => (m, [.discard])
  | .opened, .lockout => ({ m with lockoutFlag := true, state := .lockout }, [.discard])
  | .wait, .lockout => ({ m with lockoutFlag := true, state := .lockout }, [.discard])
  | .wait, _ => (m, [.discard])
  | .lockout, _ => (m, [.discard])

def handleBdFrame (m : FarmMachine) (fdu : Bytes) : FarmMachine × List FarmAction :=
  ({ m with farmBCounter := (m.farmBCounter + 1) &&& 0x03 }, [.accept fdu])

def handleBcFrame (m : FarmMachine) : ControlCommand → FarmMachine × List FarmAction
  | .unlock =>
      let m := { m with farmBCounter := (m.farmBCounter + 1) &&& 0x03, retransmitFlag := false }
      match m.state with
      | .opened => (m, [])
      | .wait => ({ m with waitFlag := false, state := .opened }, [])
      | .lockout => ({ m with waitFlag := false, lockoutFlag := false, state := .opened }, [])
  | .setVr vr =>
      let m := { m with farmBCounter := (m.farmBCounter + 1) &&& 0x03, retransmitFlag := false }
      match m.state with
      | .opened => ({ m with vr := vr }, [])
      | .wait => ({ m with vr := vr, waitFlag := false, state := .opened }, [])
      | .lockout => (m, [])

def handleBufferRelease (m : FarmMachine) : FarmMachine × List FarmAction :=
  match m.state with
  | .opened => (m, [])
  | .wait => ({ m with waitFlag := false, state := .opened }, [])
  | .lockout => ({ m with waitFlag := false }, [])

/-- No event emits more actions than `FarmActions` holds. -/
def handle (m : FarmMachine) : FarmEvent → FarmMachine × List FarmAction
  | .adFrame seq bufferAvailable fdu => m.handleAdFrame seq bufferAvailable fdu
  | .bdFrame fdu => m.handleBdFrame fdu
  | .bcFrame command => m.handleBcFrame command
  | .invalidFrame => (m, [.discard])
  | .bufferRelease => m.handleBufferRelease
  | .clcwReport => (m, [.clcwReady])

variable {m : FarmMachine}

@[simp] theorem clcw_reportValue : m.clcw.reportValue = m.vr :=
  Clcw.reportValue_set _ _

end FarmMachine

end Cop1
end Leodos
